import ModularTemplates.Merge.Declared
import ModularTemplates.Record
import ModularTemplates.ResourceId

/-!
# Extend declarations

A resource with an `Extend` field contributes its properties to the resource that the field names,
under rules of its own. The module defaults to the one of the declaring resource.
-/

namespace ModularTemplates

/-- What a resource declares to extend. -/
structure Declaration where
  module : Option String
  resource : String
  rules : Rules
deriving DecidableEq, Repr

namespace Declaration

/-- The resource that is extended by a resource of a module. -/
def target (d : Declaration) (declaringModule : String) : ResourceId :=
  ⟨d.module.getD declaringModule, d.resource⟩

/-- Read a declaration. -/
def ofJson? (v : Json) : Option Declaration := do
  match ← Json.format.record? false ["module", "resource", "rules"] v with
  | [module, resource, rules] =>
    return {
      module := ← DataFormat.withDefault none (Json.format.nullable? Json.asString?) module
      resource := ← DataFormat.required Json.asString? resource
      rules := ← DataFormat.withDefault [] Rules.ofJson? rules }
  | _ => none

end Declaration

end ModularTemplates
