import ModularTemplates.Keyword.Function
import ModularTemplates.Keyword.Parameter
import ModularTemplates.Keyword.Reference
import ModularTemplates.Text.Sha256

/-!
# Projects

A project is a set of modules that are compiled together. Compiling a module leaves out its
extending resources and middlewares, gives every other resource the properties of its whole family,
composes functions, processes all keywords and renames the resources. Functions are composed once;
the functions composed so far are the only state of a project.
-/

namespace ModularTemplates

/-- The first eight hexadecimal digits of the digest of a module name. -/
def standardModuleHash (module : String) : String :=
  hexText ((Sha256.digest module.toUTF8.toList).take 4)

/-- Working with a project, which may compose functions. -/
abbrev Composing := StateM FunctionCache

/-- Why a project or one of its modules can not be worked with. -/
inductive ProjectError where
  | extend (cause : FamilyError)
  | function (cause : FunctionError)
  | process (cause : ProcessError KeywordFailure)
  | unknownModule (module : String)
  | unknownResource (resource : ResourceId)
  | keywordSetup (keyword : String) (cause : String)

/-- The text of an error. -/
def ProjectError.message : ProjectError → String
  | .extend _ => "failed to resolve extensions"
  | .function _ => "failed to compose function"
  | .process _ => "failed to process keywords"
  | .unknownModule module => "unknown module " ++ module
  | .unknownResource r => "resource " ++ r.display ++ " not found"
  | .keywordSetup keyword _ => "keyword " ++ keyword ++ " could not be set up"

/-- The texts of an error and of what caused it, outermost first. -/
def ProjectError.chain (e : ProjectError) : List String :=
  let functionChain (cause : FunctionError) :=
    cause.message :: (match cause with
      | .merge _ cause => [cause.message]
      | _ => [])
  e.message :: match e with
    | .extend cause => cause.message :: (match cause with
      | .merge _ cause => [cause.message]
      | _ => [])
    | .function cause => functionChain cause
    | .process cause => cause.message :: (match cause with
      | .failed _ _ (.message text) => [text]
      | .failed _ _ (.function cause) => functionChain cause
      | _ => [])
    | .keywordSetup _ cause => [cause]
    | _ => []

/-- The keywords that every project understands. -/
def builtinKeywords {m : Type → Type} [Monad m] (schema : Schema) : List (KeywordDefinition m) :=
  [referenceKeyword schema.referenceKeyword, parameterKeyword, functionKeyword schema]

/-- A set of modules with their families, and what is needed to compile them. -/
structure Project where
  composer : Composer
  keywords : List (KeywordDefinition Composing)
  parameters : List String
  rootDir : String
  moduleHash : String → String

/-- Complaints about modules, in module order. -/
abbrev Report := List (String × LocatedError)

/-- The text of a report. -/
def Report.display (report : Report) : String :=
  toString report.length ++ " validation error(s)\n" ++
    "".intercalate (report.map fun (module, e) => "  " ++ module ++ ": " ++ e.display ++ "\n")

namespace Project

/-- A project of documents with the built-in keywords. All extensions are resolved at once. -/
def ofDocuments (documents : Documents) (schema : Schema) (extensions : List Extension) :
    Except ProjectError Project :=
  match Families.ofDocuments documents with
  | .error e => .error (.extend e)
  | .ok families => .ok {
      composer := ⟨families, schema, extensions⟩
      keywords := builtinKeywords schema
      parameters := []
      rootDir := "."
      moduleHash := standardModuleHash }

/-- Register a keyword behind the others, in place of one of the same name. -/
def withKeyword (p : Project) (definition : KeywordDefinition Composing) : Project :=
  { p with keywords := (p.keywords.filter (·.keyword != definition.keyword)) ++ [definition] }

/-- The resolved families. -/
def families (p : Project) : Families :=
  p.composer.families

/-- The modules in document order. -/
def moduleNames (p : Project) : List String :=
  p.families.documents.keys

/-- The document of a module. -/
def document (p : Project) (module : String) : Except ProjectError Json :=
  match p.families.documents.get? module with
  | some found => .ok found.document
  | none => .error (.unknownModule module)

/-- What keywords may ask about the project. -/
def services (p : Project) : Services Composing where
  family := p.families.get?
  moduleHash := p.moduleHash
  parameterNames := p.parameters
  function := p.composer.function

/-- The context of keywords in a module. -/
def context (p : Project) (module : String) : KeywordContext Composing :=
  ⟨p.rootDir, module, p.services⟩

/-- Make something for every keyword; of keywords of one name the last one counts. -/
def setUp {α : Type} (p : Project) (make : KeywordDefinition Composing → Except String α) :
    Except ProjectError (Fields α) :=
  p.keywords.foldlM (fun made definition =>
    match make definition with
    | .ok a => .ok (made.set definition.keyword a)
    | .error e => .error (.keywordSetup definition.keyword e)) []

/-! ### Validation -/

/-- The complaints about the keywords of a module's own document. -/
def validate (p : Project) (module : String) : Except ProjectError (List LocatedError) := do
  let document ← p.document module
  let validators ← p.setUp fun definition => definition.validator (p.context module)
  return validateKeywords validators document

/-- The complaints about all modules. -/
def validateAll (p : Project) : Except ProjectError Report := do
  let reports ← p.moduleNames.mapM fun module => do
    return (← p.validate module).map fun e => (module, e)
  return reports.flatten

/-! ### Compilation -/

/-- The resource that is emitted for a resource of a module, if one is. -/
def expandResource (p : Project) (id : ResourceId) (body : Json) :
    ExceptT ProjectError Composing (Option Json) := do
  if (p.families.target? id).isSome then return none
  let type := body.textField "Type"
  if type = p.composer.schema.middlewareType then return none
  if p.composer.schema.isFunctionType type then
    let composed ← ExceptT.adapt .function (p.composer.function id)
    return some composed.resource
  match p.families.get? id with
  | none => throw (.unknownResource id)
  | some family =>
    return some (match family.resource.field? "Properties" with
      | some properties =>
        family.resource.setField "Properties"
          (qualifyReferences p.composer.schema family.provenance properties)
      | none => family.resource)

/-- The resources that are emitted for resources of a module. -/
def expand (p : Project) (module : String) :
    List (String × Json) → ExceptT ProjectError Composing (List (String × Json))
  | [] => return []
  | (name, body) :: rest => do
    let expanded ← p.expandResource ⟨module, name⟩ body
    let rest ← p.expand module rest
    return match expanded with
      | some body => (name, body) :: rest
      | none => rest

/-- Give resources their compiled names. -/
def rename (p : Project) (module : String) (resources : Fields Json) : Fields Json :=
  Fields.ofList (resources.map fun (name, body) => (p.services.logicalId ⟨module, name⟩, body))

/-- The compiled document of a module. -/
def compile (p : Project) (module : String) : ExceptT ProjectError Composing Json := do
  let document ← ExceptT.mk (pure (p.document module))
  let expanded ← match document.field? "Resources" with
    | some (.object resources) =>
      pure (document.setField "Resources" (.object (← p.expand module resources)))
    | _ => pure document
  let processors ← ExceptT.mk
    (pure (p.setUp fun definition => definition.processor (p.context module)))
  let processed ← ExceptT.adapt .process (processKeywords processors expanded)
  return match processed.field? "Resources" with
    | some (.object resources) =>
      processed.setField "Resources" (.object (p.rename module resources))
    | _ => processed

end Project

end ModularTemplates
