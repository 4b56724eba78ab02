import ModularTemplates.Merge.Rules
import ModularTemplates.Path.Lookup

/-!
# Merging

A source is merged deep into a target. Where no rule applies objects are merged key by key and
everything else is replaced as a whole; arrays are merged index by index only if a rule reaches
below them. The merge reports every change it makes, in order, also where the new value equals the
old one: who supplied a value last owns it. A merge that meets an impossible rule stops there and
keeps what it has done.
-/

namespace ModularTemplates

/-- What happened to the value at a path. -/
inductive ChangeKind where
  | replace
  | combine
  | append (count : Nat)
  | prepend (count : Nat)
deriving DecidableEq, Repr

/-- One change of a merge. -/
structure Change where
  path : Path
  kind : ChangeKind
deriving DecidableEq, Repr

/-- Why a merge stopped. -/
inductive MergeError where
  /-- items can be added to arrays only, and from arrays only -/
  | notAnArray (path : Path) (operation : Operation)
deriving DecidableEq, Repr

/-- The text of an error. -/
def MergeError.message : MergeError → String
  | .notAnArray path operation =>
    operation.title ++ " at " ++ path.display ++ " requires arrays on both sides"

/-- How far a merge came: the target as it stands, the changes made to it, and the error
that stopped it. -/
structure Merged (α : Type) where
  target : α
  changes : List Change
  error : Option MergeError

/-- A finished merge with a single change. -/
def Merged.changed {α : Type} (target : α) (path : Path) (kind : ChangeKind) : Merged α :=
  ⟨target, [⟨path, kind⟩], none⟩

/-- Apply a function to the target. -/
def Merged.map {α β : Type} (f : α → β) (m : Merged α) : Merged β :=
  ⟨f m.target, m.changes, m.error⟩

/-- Go on with the rest of the source unless the merge has stopped. `target` is where
things stand. -/
def Merged.next {α β : Type} (m : Merged α) (target : β) (rest : Merged β) : Merged β :=
  match m.error with
  | some e => ⟨target, m.changes, some e⟩
  | none => ⟨rest.target, m.changes ++ rest.changes, rest.error⟩

/-- The target and its changes, or the error. -/
def Merged.result {α : Type} (m : Merged α) : Except MergeError (α × List Change) :=
  match m.error with
  | some e => .error e
  | none => .ok (m.target, m.changes)

/-! ### Combining -/

mutual
/-- Objects key by key, arrays index by index, anything else is the source. -/
def combine : (target source : Json) → Json
  | .object ts, .object ss => .object (combineFields ts ss)
  | .array ts, .array ss => .array (combineItems ts ss)
  | _, s => s

/-- Source fields one by one; new keys go to the end. -/
def combineFields (ts : Fields Json) : (source : List (String × Json)) → Fields Json
  | [] => ts
  | (k, s) :: ss =>
    combineFields (ts.set k (match ts.get? k with
      | some t => combine t s
      | none => s)) ss

/-- Items in pairs; the longer list keeps its tail. -/
def combineItems : (target source : List Json) → List Json
  | ts, [] => ts
  | [], s :: ss => s :: ss
  | t :: ts, s :: ss => combine t s :: combineItems ts ss
end

/-! ### Adding items -/

/-- The items that can be added to; null counts as no items. -/
def Json.itemsOrNull? : Json → Option (List Json)
  | .array xs => some xs
  | .null => some []
  | _ => none

/-- Add the source items behind or before the target items. -/
def addItems (operation : Operation) (path : Path) (target source : Json) : Merged Json :=
  match target.itemsOrNull?, source with
  | some ts, .array ss =>
    if operation = .prepend then .changed (.array (ss ++ ts)) path (.prepend ss.length)
    else .changed (.array (ts ++ ss)) path (.append ss.length)
  | _, _ => ⟨target, [], some (.notAnArray path operation)⟩

/-- Apply an operation to the target as a whole. -/
def applyOperation (operation : Operation) (path : Path) (target source : Json) : Merged Json :=
  match operation with
  | .replace => .changed source path .replace
  | .combine => .changed (combine target source) path .combine
  | .append | .prepend => addItems operation path target source

/-! ### Merging under rules -/

mutual
/-- Merge at a path, by the rule for the path or, without one, by the shape of the values. -/
def mergeAt (rules : Rules) (path : Path) (target source : Json) : Merged Json :=
  match rules.find? path with
  | some operation => applyOperation operation path target source
  | none =>
    match target, source with
    | .object ts, .object ss => (mergeFields rules path ts ss).map .object
    | .array ts, .array ss =>
      if rules.reachBelow path then (mergeItems rules path 0 ts ss).map .array
      else .changed (.array ss) path .replace
    | _, s => .changed s path .replace

/-- Merge source fields one by one. A key that the target lacks is merged into null. -/
def mergeFields (rules : Rules) (path : Path) (ts : Fields Json) :
    (source : List (String × Json)) → Merged (Fields Json)
  | [] => ⟨ts, [], none⟩
  | (k, s) :: ss =>
    let here := mergeAt rules (path ++ [.key k]) ((ts.get? k).getD .null) s
    let ts := ts.set k here.target
    here.next ts (mergeFields rules path ts ss)

/-- Merge source items one by one, from an index on. An item that the target lacks is
merged into null. -/
def mergeItems (rules : Rules) (path : Path) :
    (index : Nat) → (target source : List Json) → Merged (List Json)
  | _, ts, [] => ⟨ts, [], none⟩
  | i, ts, s :: ss =>
    let here := mergeAt rules (path ++ [.index i]) (ts.headD .null) s
    here.next (here.target :: ts.tail)
      ((mergeItems rules path (i + 1) ts.tail ss).map (here.target :: ·))
end

/-- Merge a source into a target. -/
def merge (rules : Rules) (target source : Json) : Merged Json :=
  mergeAt rules [] target source

end ModularTemplates
