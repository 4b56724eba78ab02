import ModularTemplates.Node

/-!
# Keyword processing

A document is rebuilt children first, and every object that carries a registered keyword is handed
to the processor of the keyword. The processor may have the object replaced, or one of the
containers around it, or have the keyword property replaced by other properties. A replacement of a
container around the object travels up to it as an interruption; a failure travels up to the root
and ends the processing. Processors may have effects in a monad of their own.
-/

namespace ModularTemplates

/-- What becomes of the object that carries a keyword. -/
inductive Replacement where
  /-- the object, or the container so many levels above it, becomes a value -/
  | object (value : Json) (level : Nat)
  /-- the keyword property is removed and other properties are set -/
  | keyword (properties : List (String × Json))
  /-- the object stays as it is -/
  | unchanged
deriving Repr

/-- Whether the replacement is one of an object. -/
def Replacement.isObject : Replacement → Bool
  | .object _ _ => true
  | _ => false

/-- The replacement for one occurrence of a keyword, from its name, the object that carries it and
its processed value. -/
abbrev Processor (ε : Type) (m : Type → Type) :=
  (keyword : String) → Node → (value : Json) → ExceptT ε m Replacement

/-- Processors under their keywords. -/
abbrev Processors (ε : Type) (m : Type → Type) := Fields (Processor ε m)

/-- Why a document could not be processed. -/
inductive ProcessError (ε : Type) where
  /-- a processor failed -/
  | failed (path : Path) (keyword : String) (cause : ε)
  /-- an object replacement met another replacement of the same object -/
  | conflict (path : Path) (keywords : List String)
  /-- there are not enough containers around the object -/
  | levelNotPossible (path : Path) (level : Nat)

/-- The text of an error. -/
def ProcessError.message {ε : Type} : ProcessError ε → String
  | .failed path keyword _ => keyword ++ " at " ++ path.display ++ " failed"
  | .conflict path keywords =>
    "conflicting replacements at " ++ path.display ++ ": " ++ ", ".intercalate keywords
  | .levelNotPossible path level =>
    "replacement at level " ++ toString level ++ " was not possible at " ++ path.display

/-- What breaks off the rebuilding of a value. -/
inductive Interruption (ε : Type) where
  /-- the container `level` steps up becomes `value`; `origin` asked for it `requested`
  levels above itself -/
  | pending (level : Nat) (value : Json) (origin : Path) (requested : Nat)
  | failed (error : ProcessError ε)

/-- Rebuilding with interruptions. -/
abbrev Rebuild (ε : Type) (m : Type → Type) := ExceptT (Interruption ε) m

/-- Apply a keyword replacement to the processed fields of the object. -/
def replaceKeyword (fs : Fields Json) (answer : String × Replacement) : Fields Json :=
  match answer.2 with
  | .keyword properties => (fs.erase answer.1).update properties
  | _ => fs

/-- Apply the answers of all keywords of an object. An object replacement must be the only
answer. -/
def applyAnswers {ε : Type} (node : Node) (fs : Fields Json)
    (answers : List (String × Replacement)) :
    Except (Interruption ε) Json :=
  match answers with
  | [(_, .object v 0)] => .ok v
  | [(_, .object v (level + 1))] => .error (.pending (level + 1) v node.path (level + 1))
  | answers =>
    if answers.any fun answer => answer.2.isObject then
      .error (.failed (.conflict node.path (answers.map Prod.fst)))
    else .ok (.object (answers.foldl replaceKeyword fs))

section Rebuild

variable {ε : Type} {m : Type → Type} [Monad m]

/-- Let a pending replacement take effect at this position, or send it one level up. -/
def settle (rebuilt : Rebuild ε m Json) : Rebuild ε m Json :=
  tryCatch rebuilt fun
    | .pending 0 v _ _ => pure v
    | .pending (level + 1) v origin requested => throw (.pending level v origin requested)
    | .failed e => throw (.failed e)

/-- Ask a processor; its failure names the place. -/
def askProcessor (processor : Processor ε m) (keyword : String) (node : Node) (v : Json) :
    Rebuild ε m Replacement :=
  ExceptT.adapt (fun cause => .failed (.failed node.path keyword cause)) (processor keyword node v)

/-- The answers of the keywords of an object in key order, without those that change nothing. -/
def answers (ps : Processors ε m) (node : Node) (processed : Fields Json) :
    List (String × Json) → Rebuild ε m (List (String × Replacement))
  | [] => pure []
  | (k, _) :: fs =>
    match ps.get? k with
    | none => answers ps node processed fs
    | some processor => do
      let answer ← askProcessor processor k node ((processed.get? k).getD .null)
      let rest ← answers ps node processed fs
      return match answer with
        | .unchanged => rest
        | answer => (k, answer) :: rest

namespace Processors

mutual
/-- Rebuild a value that stands at a place. -/
def value (ps : Processors ε m) (above : List Crumb) : Json → Rebuild ε m Json
  | .object fs => do
    let processed ← fields ps (.object fs) above fs
    let replies ← answers ps ⟨.object fs, above⟩ processed fs
    ExceptT.mk (pure (applyAnswers ⟨.object fs, above⟩ processed replies))
  | .array xs => do
    return .array (← items ps (.array xs) above 0 xs)
  | v => pure v

/-- Rebuild the values of an object's fields. -/
def fields (ps : Processors ε m) (parent : Json) (above : List Crumb) :
    List (String × Json) → Rebuild ε m (List (String × Json))
  | [] => pure []
  | (k, v) :: fs => do
    let v ← settle (value ps (⟨.key k, parent⟩ :: above) v)
    let fs ← fields ps parent above fs
    return (k, v) :: fs

/-- Rebuild the items of an array from an index on. -/
def items (ps : Processors ε m) (parent : Json) (above : List Crumb) :
    Nat → List Json → Rebuild ε m (List Json)
  | _, [] => pure []
  | i, x :: xs => do
    let x ← settle (value ps (⟨.index i, parent⟩ :: above) x)
    let xs ← items ps parent above (i + 1) xs
    return x :: xs
end

end Processors

/-- Process all keywords of a document. -/
def processKeywords (ps : Processors ε m) (document : Json) : ExceptT (ProcessError ε) m Json :=
  ExceptT.adapt
    (fun
      | .pending _ _ origin requested => .levelNotPossible origin requested
      | .failed e => e)
    (settle (ps.value [] document))

end Rebuild

end ModularTemplates
