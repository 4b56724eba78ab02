import ModularTemplates.Node

/-!
# Keyword validation

A keyword is a reserved property name. Every object that carries a registered keyword is handed to
the validator of the keyword, children before their parents, and all complaints are collected.
-/

namespace ModularTemplates

/-- Complaints about one occurrence of a keyword, from its name, the object that carries it
and its value. -/
abbrev Validator := (keyword : String) → Node → (value : Json) → List String

/-- Validators under their keywords. -/
abbrev Validators := Fields Validator

/-- A complaint about a keyword, with the object that carries the keyword. -/
structure LocatedError where
  node : Node
  keyword : String
  message : String

namespace LocatedError

/-- Where the object stands. -/
def path (e : LocatedError) : Path :=
  e.node.path

/-- The text of a complaint. -/
def display (e : LocatedError) : String :=
  e.keyword ++ " at " ++ e.path.display ++ ": " ++ e.message

end LocatedError

/-- A message in the context of another one. -/
def inContext (context message : String) : String :=
  context ++ ": " ++ message

namespace Validators

/-- The complaints about the keywords that an object carries itself, in key order. -/
def own (vs : Validators) (node : Node) (fs : Fields Json) : List LocatedError :=
  fs.flatMap fun field =>
    match vs.get? field.1 with
    | some validator => (validator field.1 node field.2).map (LocatedError.mk node field.1)
    | none => []

mutual
/-- The complaints about a value that stands at a place. -/
def value (vs : Validators) (above : List Crumb) : Json → List LocatedError
  | .object fs => fields vs (.object fs) above fs ++ own vs ⟨.object fs, above⟩ fs
  | .array xs => items vs (.array xs) above 0 xs
  | _ => []

/-- The complaints about the values of an object's fields. -/
def fields (vs : Validators) (parent : Json) (above : List Crumb) :
    List (String × Json) → List LocatedError
  | [] => []
  | (k, v) :: fs => value vs (⟨.key k, parent⟩ :: above) v ++ fields vs parent above fs

/-- The complaints about the items of an array from an index on. -/
def items (vs : Validators) (parent : Json) (above : List Crumb) :
    Nat → List Json → List LocatedError
  | _, [] => []
  | i, x :: xs => value vs (⟨.index i, parent⟩ :: above) x ++ items vs parent above (i + 1) xs
end

end Validators

/-- The complaints about all keywords of a document. -/
def validateKeywords (vs : Validators) (document : Json) : List LocatedError :=
  vs.value [] document

end ModularTemplates
