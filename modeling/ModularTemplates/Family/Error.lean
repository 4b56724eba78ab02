import ModularTemplates.Family.Declaration
import ModularTemplates.Merge.Basic

/-!
# Errors of extension

Why the extensions of a set of documents can not be resolved.
-/

namespace ModularTemplates

/-- Why extensions can not be resolved. -/
inductive FamilyError where
  | malformedResource (resource : ResourceId)
  | invalidDeclaration (resource : ResourceId)
  | targetNotFound (resource target : ResourceId)
  /-- the resources that were passed before one of them came up again -/
  | cycle (passed : List ResourceId)
  | typeMismatch (resource : ResourceId) (type : String) (root : ResourceId) (rootType : String)
  | merge (resource : ResourceId) (cause : MergeError)
deriving DecidableEq, Repr

/-- The text of an error. -/
def FamilyError.message : FamilyError → String
  | .malformedResource r => "resource " ++ r.display ++ " is not an object"
  | .invalidDeclaration r => "invalid Extend declaration on " ++ r.display
  | .targetNotFound r target =>
    "extended resource not found: " ++ r.display ++ " extends " ++ target.display
  | .cycle passed => "extension cycle: " ++ " -> ".intercalate (passed.map ResourceId.display)
  | .typeMismatch r type root rootType =>
    "disallowed type boundary: " ++ r.display ++ " (" ++ type ++ ") can not extend " ++
      root.display ++ " (" ++ rootType ++ ")"
  | .merge r _ => "failed to merge " ++ r.display

/-- The declaration of a resource, if it has one. -/
def Declaration.of (id : ResourceId) (body : Json) : Except FamilyError (Option Declaration) :=
  match body.field? "Extend" with
  | none => .ok none
  | some v =>
    match Declaration.ofJson? v with
    | some d => .ok (some d)
    | none => .error (.invalidDeclaration id)

end ModularTemplates
