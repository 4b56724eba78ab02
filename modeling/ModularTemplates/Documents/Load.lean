import ModularTemplates.Documents
import ModularTemplates.Files.Access
import ModularTemplates.Json.Reader
import ModularTemplates.Yaml.Value

/-!
# Loading module documents

A file named with the extension `json` is read as JSON, every other file as YAML. The document of a
module is an object, and a module is loaded only once.
-/

namespace ModularTemplates

/-- The languages of document files. -/
inductive Language where
  | json
  | yaml
deriving DecidableEq, Repr

/-- The language of a file. -/
def Location.language (l : Location) : Language :=
  if l.extension? = some "json" then .json else .yaml

/-- The value that a text denotes in a language. -/
def Language.parse? : Language → String → Option Json
  | .json => Json.parse?
  | .yaml => Yaml.parse?

/-- Why the document of a module can not be loaded. -/
inductive LoadError where
  | file (cause : FileError)
  | duplicateModule (module : String)
  | unreadable (language : Language)
  | notAnObject (location : Location)
deriving DecidableEq, Repr

namespace LoadError

/-- The text of an error. -/
def message : LoadError → String
  | .file _ => "IO error"
  | .duplicateModule module => "module " ++ module ++ " is defined more than once"
  | .unreadable .json => "Unable to parse json file"
  | .unreadable .yaml => "Unable to parse yaml file"
  | .notAnObject l => "document " ++ l.display ++ " is not an object"

/-- The texts of an error and of what caused it. -/
def chain (e : LoadError) : List String :=
  e.message :: match e with
    | .file cause => [cause.message]
    | _ => []

end LoadError

/-- The document that the text of a file holds. -/
def ModuleDocument.ofText (l : Location) (text : String) : Except LoadError ModuleDocument :=
  match l.language.parse? text with
  | none => .error (.unreadable l.language)
  | some document =>
    if document.isObject then .ok ⟨document, l.display⟩ else .error (.notAnObject l)

variable {m : Type → Type} [Monad m]

/-- Load the document of a module from a file, behind the documents that are there. -/
def Documents.load (files : FileAccess m) (directory : Location) (documents : Documents)
    (module path : String) : ExceptT LoadError m Documents := do
  let l ← ExceptT.adapt .file (files.locate directory path)
  if documents.has module then throw (.duplicateModule module)
  let text ← ExceptT.adapt .file (files.read l)
  let document ← ExceptT.mk (pure (ModuleDocument.ofText l text))
  return documents.set module document

end ModularTemplates
