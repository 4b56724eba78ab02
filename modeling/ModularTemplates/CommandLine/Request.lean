import ModularTemplates.CommandLine.Arguments

/-!
# Requests

What a command line asks for. A project is named by its manifest, and the working directory can be
changed before anything is done.
-/

namespace ModularTemplates

namespace CommandLine

/-- The formats of a compiled document. -/
inductive OutputFormat where
  | json
  | yaml
deriving DecidableEq, Repr

/-- What can be done with a project. -/
inductive Command where
  | compile (module : String) (format : OutputFormat)
  | validate
  | listDocuments
  | listFamilies
deriving DecidableEq, Repr

/-- A command on the project of a manifest. -/
structure Invocation where
  /-- the directories to change to, one after the other -/
  directories : List String
  manifest : String
  command : Command
deriving DecidableEq, Repr

/-- What a command line asks for. -/
inductive Request where
  | version
  | run (invocation : Invocation)
deriving DecidableEq, Repr

/-! ### Options -/

/-- The option that changes the working directory. -/
def directoryOption : OptionSpec := ⟨'C', "directory", true, (!·.isEmpty)⟩

/-- The option that names the manifest. -/
def manifestOption : OptionSpec := ⟨'m', "manifest", false, (!·.isEmpty)⟩

/-- The option that chooses a format. -/
def formatOption : OptionSpec :=
  ⟨'F', "output-format", false, fun value => ["json", "yaml"].contains value⟩

/-- The manifest of a project if none is named. -/
def standardManifest : String := "modstack.yaml"

/-! ### Levels -/

/-- The level before any command. -/
def topLevel : Level := ⟨[directoryOption], ["compile", "build", "validate", "dev"], 0, true⟩

/-- The level of compilation. -/
def compileLevel : Level := ⟨[directoryOption, manifestOption, formatOption], [], 1, false⟩

/-- The level of validation. -/
def validateLevel : Level := ⟨[directoryOption, manifestOption], [], 0, false⟩

/-- The level before the commands that show what is inside of a project. -/
def devLevel : Level := ⟨[directoryOption, manifestOption], ["documents", "extend"], 0, false⟩

/-- The level of a command that shows something. -/
def showLevel : Level := ⟨[directoryOption], [], 0, false⟩

/-- The manifest that a level names. -/
def Given.manifest (given : Given) : String :=
  (given.valuesOf manifestOption.long).head?.getD standardManifest

/-- The format that a level chooses. -/
def Given.format (given : Given) : OutputFormat :=
  if given.valuesOf formatOption.long = ["json"] then .json else .yaml

/-- The directories of the innermost level that names any. -/
def directoriesOf : List Given → List String
  | [] => []
  | given :: outer =>
    match given.valuesOf directoryOption.long with
    | [] => directoriesOf outer
    | directories => directories

/-- What arguments ask for, if they are well formed. -/
def Request.parse? (args : List String) : Option Request := do
  let top ← topLevel.read false .nothing args
  if top.asksVersion then return .version
  match ← top.next with
  | ("validate", args) =>
    let given ← validateLevel.read false .nothing args
    return .run ⟨directoriesOf [given, top], given.manifest, .validate⟩
  | ("dev", args) =>
    let given ← devLevel.read false .nothing args
    let (command, args) ← given.next
    let innermost ← showLevel.read false .nothing args
    return .run ⟨directoriesOf [innermost, given, top], given.manifest,
      if command = "documents" then .listDocuments else .listFamilies⟩
  | (_, args) =>
    let given ← compileLevel.read false .nothing args
    let module ← given.operands.head?
    return .run ⟨directoriesOf [given, top], given.manifest, .compile module given.format⟩

end CommandLine

end ModularTemplates
