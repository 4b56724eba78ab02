import ModularTemplates.Documents.Load
import ModularTemplates.Function.Declared

/-!
# Manifests

A manifest lists the modules of a project with the files of their documents, and declares
parameters, extensions and a schema. It is written in YAML. Module paths start at the directory
of the manifest.
-/

namespace ModularTemplates

/-- A module and the path of its document. -/
structure ModuleEntry where
  name : String
  path : String
deriving DecidableEq, Repr

/-- What a project is made of. -/
structure Manifest where
  modules : List ModuleEntry
  parameters : List String
  extensions : List Extension
  schema : Schema

/-- Why there is no usable manifest. -/
inductive ManifestError where
  | file (path : String) (cause : FileError)
  | invalid
  | duplicateModule (module : String)
  | unknownExtensionModule (module : String)
deriving DecidableEq, Repr

namespace ManifestError

/-- The text of an error. -/
def message : ManifestError → String
  | .file path _ => "unable to read " ++ path
  | .invalid => "invalid manifest"
  | .duplicateModule module => "module " ++ module ++ " is listed more than once"
  | .unknownExtensionModule module => "extension module " ++ module ++ " is not listed in modules"

/-- The texts of an error and of what caused it. -/
def chain (e : ManifestError) : List String :=
  e.message :: match e with
    | .file _ cause => [cause.message]
    | _ => []

end ManifestError

variable {δ : Type}

/-- Read the entry of a module. -/
def ModuleEntry.read? (format : DataFormat δ) (d : δ) : Option ModuleEntry := do
  match ← format.record? true ["name", "path"] d with
  | [name, path] =>
    return {
      name := ← DataFormat.required format.string? name
      path := ← DataFormat.required format.string? path }
  | _ => none

namespace Manifest

/-- Read a manifest. Only its modules must be given. -/
def read? (format : DataFormat δ) (d : δ) : Option Manifest := do
  match ← format.record? true ["modules", "parameters", "extensions", "schema"] d with
  | [modules, parameters, extensions, schema] =>
    return {
      modules := ← DataFormat.required (format.listOf? (ModuleEntry.read? format)) modules
      parameters := ← DataFormat.withDefault [] (format.listOf? format.string?) parameters
      extensions :=
        ← DataFormat.withDefault [] (format.listOf? (Extension.read? format)) extensions
      schema := ← DataFormat.withDefault Schema.standard (Schema.read? format) schema }
  | _ => none

/-- The names of the modules. -/
def moduleNames (manifest : Manifest) : List String :=
  manifest.modules.map ModuleEntry.name

/-- The first name in a list that stands there before as well. -/
def repeated? (seen : List String) : List String → Option String
  | [] => none
  | name :: names => if seen.contains name then some name else repeated? (name :: seen) names

/-- A manifest lists every module once, and its extensions belong to listed modules. -/
def check (manifest : Manifest) : Except ManifestError Manifest :=
  match repeated? [] manifest.moduleNames with
  | some name => .error (.duplicateModule name)
  | none =>
    match manifest.extensions.find? fun e => !manifest.moduleNames.contains e.module with
    | some e => .error (.unknownExtensionModule e.module)
    | none => .ok manifest

/-- The manifest that a text holds. -/
def ofText (text : String) : Except ManifestError Manifest :=
  match (Yaml.Node.ofText? text).bind (read? Yaml.format) with
  | some manifest => manifest.check
  | none => .error .invalid

variable {m : Type → Type} [Monad m]

/-- Read the manifest that a path leads to. The location is that of the manifest. -/
def load (files : FileAccess m) (directory : Location) (path : String) :
    ExceptT ManifestError m (Manifest × Location) := do
  let l ← ExceptT.adapt (.file path) (files.locate directory path)
  let text ← ExceptT.adapt (.file l.display) (files.read l)
  return (← ExceptT.mk (pure (ofText text)), l)

/-- Load the documents of all modules. -/
def documents (files : FileAccess m) (directory : Location) (manifest : Manifest) :
    ExceptT LoadError m Documents :=
  manifest.modules.foldlM (fun documents entry =>
    documents.load files directory entry.name entry.path) []

end Manifest

end ModularTemplates
