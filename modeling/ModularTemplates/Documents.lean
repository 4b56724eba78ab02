import ModularTemplates.Json.Basic
import ModularTemplates.ResourceId

/-!
# Module documents

Every module has a document, and the entries of the document's `Resources` object are its resources.
Modules keep the order in which they were first inserted.
-/

namespace ModularTemplates

/-- The document of a module and the file that it was loaded from. -/
structure ModuleDocument where
  document : Json
  location : Option String

/-- Module documents under their module names. -/
abbrev Documents := Fields ModuleDocument

/-- The resources of a document; there are none unless `Resources` is an object. -/
def Json.resources (document : Json) : Fields Json :=
  ((document.field? "Resources").bind Json.asObject?).getD []

namespace Documents

/-- The resources of all modules. -/
def resources (documents : Documents) : List (ResourceId × Json) :=
  documents.flatMap fun (name, module) =>
    module.document.resources.map fun (resource, body) => (⟨name, resource⟩, body)

/-- The resource at an address. -/
def resource? (documents : Documents) (id : ResourceId) : Option Json :=
  (documents.get? id.module).bind fun module => module.document.resources.get? id.resource

end Documents

end ModularTemplates
