import ModularTemplates.Function.Composition
import ModularTemplates.Keyword.Processing
import ModularTemplates.Keyword.Validation

/-!
# Keyword definitions

Keywords are an open set. A definition names the keyword and makes a validator and a processor
for the module that is worked on; the context tells which module that is and answers questions
about the whole project.
-/

namespace ModularTemplates

/-- Why a processor failed. -/
inductive KeywordFailure where
  | message (text : String)
  | function (cause : FunctionError)

/-- The text of a failure. -/
def KeywordFailure.text : KeywordFailure → String
  | .message text => text
  | .function cause => cause.message

/-- What a keyword may ask about the project. -/
structure Services (m : Type → Type) where
  /-- the family of a resource of any module -/
  family : ResourceId → Option Family
  /-- the short name of a module -/
  moduleHash : String → String
  /-- the declared parameters -/
  parameterNames : List String
  /-- the composed function of a resource -/
  function : ResourceId → ExceptT FunctionError m ComposedFunction

/-- Where a keyword is used. -/
structure KeywordContext (m : Type → Type) where
  rootDir : String
  module : String
  services : Services m

/-- A keyword with its validator and its processor, either of which may fail to be made. -/
structure KeywordDefinition (m : Type → Type) where
  keyword : String
  validator : KeywordContext m → Except String Validator
  processor : KeywordContext m → Except String (Processor KeywordFailure m)

/-- The name of a resource in compiled documents. -/
def Services.logicalId {m : Type → Type} (services : Services m) (id : ResourceId) : String :=
  services.moduleHash id.module ++ id.resource

/-- An address that names a resource and perhaps its module. -/
structure Address where
  module : Option String
  resource : String

/-- Read an address. -/
def Address.ofJson (v : Json) : Except String Address :=
  match v with
  | .object fs =>
    match (Fields.get? fs "resource").bind Json.asString? with
    | none => .error "resource name missing"
    | some resource =>
      match Fields.get? fs "module" with
      | none => .ok ⟨none, resource⟩
      | some (.string module) => .ok ⟨some module, resource⟩
      | some other => .error ("module name must be a string, found " ++ other.text)
  | other => .error ("expected an object with a resource name, found " ++ other.text)

/-- The resource that an address means in a module. -/
def Address.id (a : Address) (module : String) : ResourceId :=
  ⟨a.module.getD module, a.resource⟩

end ModularTemplates
