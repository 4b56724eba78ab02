import ModularTemplates.CommandLine.Request
import ModularTemplates.Project.Opening
import ModularTemplates.Yaml.Text

/-!
# Running requests

A request prints its answer, or says line by line why there is none. Wherever files are asked for,
the answer comes from the given access.
-/

namespace ModularTemplates

namespace CommandLine

/-- What a program leaves behind. -/
structure Outcome where
  exitCode : Nat
  output : String
  messages : String
deriving DecidableEq, Repr

/-- Lines of text. -/
def lines (texts : List String) : String :=
  "".intercalate (texts.map (· ++ "\n"))

/-- The outcome of a computation that gives an output and messages, or fails with messages. -/
def Outcome.of : Except (List String) (String × List String) → Outcome
  | .ok (output, messages) => ⟨0, output, lines messages⟩
  | .error messages => ⟨1, "", lines messages⟩

/-- The outcome of arguments that are not well formed. -/
def Outcome.refused : Outcome := ⟨2, "", ""⟩

variable {m : Type → Type} [Monad m]

/-- Something that may fail with messages. -/
abbrev Attempt (m : Type → Type) := ExceptT (List String) m

/-- Change to directories one after the other. -/
def changeDirectory (files : FileAccess m) : Location → List String → Attempt m Location
  | directory, [] => return directory
  | directory, path :: paths => do
    let l ← ExceptT.adapt
      (fun e => ["Failed to resolve path for -C/--directory " ++ path, e.message])
      (files.locate directory path)
    if ← files.isDirectory l then changeDirectory files l paths
    else throw ["Failed to set work directory to " ++ l.display, FileError.notADirectory.message]

/-- Open a project that has modules. -/
def openProject (files : FileAccess m) (directory : Location) (manifest : String) :
    Attempt m Project := do
  let p ← ExceptT.adapt OpenError.chain (Project.ofManifest files directory manifest)
  if p.moduleNames.isEmpty then throw ["No modules loaded"] else return p

/-- The text of a document in a format. -/
def OutputFormat.write : OutputFormat → Json → String
  | .json, v => v.indented
  | .yaml, v => Yaml.text v

/-- Compile a module that has no validation errors. -/
def compileModule (p : Project) (module : String) (format : OutputFormat) :
    Except (List String) (String × List String) := do
  let errors ← (p.validate module).mapError ProjectError.chain
  if !errors.isEmpty then
    throw (errors.map LocatedError.display ++
      ["module " ++ module ++ " has " ++ toString errors.length ++ " validation error(s)"])
  let compiled ← ((p.compile module).run []).1.mapError ProjectError.chain
  return (format.write compiled, [])

/-- Validate all modules. -/
def validateModules (p : Project) : Except (List String) (String × List String) := do
  let report ← p.validateAll.mapError ProjectError.chain
  if report.isEmpty then return ("", ["all modules valid"]) else throw [report.display]

/-- The modules of a project with their locations and documents. -/
def documentsText (p : Project) : String :=
  lines (p.families.documents.flatMap fun (module, d) =>
    [match d.location with
      | some location => module ++ " (" ++ location ++ ")"
      | none => module,
     d.document.indented])

/-- The resources of a project with the roots and merged resources of their families. -/
def familiesText (p : Project) : String :=
  lines (p.families.resourceMap.flatMap fun (id, family) =>
    [id.display ++ " -> " ++ family.root.display, family.resource.indented])

/-- Carry out a command on a project. -/
def Command.run (p : Project) : Command → Except (List String) (String × List String)
  | .compile module format => compileModule p module format
  | .validate => validateModules p
  | .listDocuments => .ok (documentsText p, [])
  | .listFamilies => .ok (familiesText p, [])

/-- Carry out an invocation from a directory. -/
def Invocation.run (files : FileAccess m) (directory : Location) (i : Invocation) : m Outcome :=
  Outcome.of <$> (show Attempt m (String × List String) from do
    let directory ← changeDirectory files directory i.directories
    let p ← openProject files directory i.manifest
    ExceptT.mk (pure (i.command.run p))).run

/-- The name and version of the program. -/
def versionText : String := "modstack 0.1.0"

/-- Carry out what arguments ask for. -/
def run (files : FileAccess m) (directory : Location) (args : List String) : m Outcome :=
  match Request.parse? args with
  | none => return .refused
  | some .version => return ⟨0, lines [versionText], ""⟩
  | some (.run i) => i.run files directory

end CommandLine

end ModularTemplates
