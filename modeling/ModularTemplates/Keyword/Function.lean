import ModularTemplates.Keyword.Definition

/-!
# Function code

The function keyword stands in the code property of a resource and describes the code of a function.
It becomes the key of the artifact that holds the code of the composed function.
-/

namespace ModularTemplates

variable {m : Type → Type}

/-- Where the code of a function is stored. -/
def CodeIdentity.artifactKey (code : CodeIdentity) (moduleHash : String) : String :=
  "functions/" ++ moduleHash ++ "/" ++ code.name

namespace Schema

/-- The resource whose code property is at a path. -/
def resourceWithCode (schema : Schema) (path : Path) : Except String String :=
  let misplaced :=
    schema.functionKeyword ++ " may only be used in the " ++ schema.codeProperty ++
      " property of a resource"
  match path with
  | [.key "Resources", .key resource, .key "Properties", .key property] =>
    if property = schema.codeProperty then .ok resource else .error misplaced
  | _ => .error misplaced

/-- The complaints about a list of middlewares. -/
def middlewareComplaints (schema : Schema) : Option Json → List String
  | none => []
  | some (.array entries) =>
    entries.mapIdx (fun index entry =>
      match Address.ofJson entry with
      | .ok _ => []
      | .error e => [inContext ("invalid middleware #" ++ toString index) e]) |>.flatten
  | some other => [schema.middlewaresField ++ " must be a list, found " ++ other.text]

/-- The keyword stands in a code property, names the code and may list middlewares. -/
def functionValidator (schema : Schema) : Validator := fun _ node v =>
  let place :=
    match schema.resourceWithCode node.path with
    | .ok _ => []
    | .error e => [e]
  let name :=
    if ((v.field? "name").bind Json.asString?).isNone then ["function name missing"] else []
  place ++ name ++ schema.middlewareComplaints (v.field? schema.middlewaresField)

/-- The code becomes the key of its artifact. -/
def functionProcessor [Monad m] (schema : Schema) (context : KeywordContext m) :
    Processor KeywordFailure m := fun _ node _ => do
  match schema.resourceWithCode node.path with
  | .error e => throw (.message e)
  | .ok resource =>
    let composed ← ExceptT.adapt .function
      (context.services.function ⟨context.module, resource⟩)
    let key := composed.function.artifactKey (context.services.moduleHash composed.function.module)
    return .object (.string key) 0

end Schema

/-- The keyword of function code. -/
def functionKeyword [Monad m] (schema : Schema) : KeywordDefinition m where
  keyword := schema.functionKeyword
  validator _ := .ok schema.functionValidator
  processor context := .ok (schema.functionProcessor context)

end ModularTemplates
