import ModularTemplates.Family.Basic
import ModularTemplates.Function.Extension
import ModularTemplates.Qualification
import ModularTemplates.Text.Escaped

/-!
# Function composition

A function is composed from its family, from the middlewares and layers that extensions contribute
to it, and from the properties of every middleware it uses. The result names the code of the
function and of each of its middlewares; code belongs to the module that supplied its name.
-/

namespace ModularTemplates

/-- A piece of code: its name, and the module that it belongs to. -/
structure CodeIdentity where
  module : String
  name : String
deriving DecidableEq, Repr

/-- A composed function. -/
structure ComposedFunction where
  function : CodeIdentity
  middlewares : List CodeIdentity
  resource : Json
deriving Repr

/-- Why a function can not be composed. -/
inductive FunctionError where
  | notFound (function : ResourceId)
  | notAFunction (resource : ResourceId) (type : String)
  | extendedFunction (function : ResourceId)
  | missingCodeKeyword (resource : ResourceId) (keyword : String)
  | missingCodeName (resource : ResourceId)
  | invalidMiddlewareReference (function : ResourceId) (index : Nat)
  | middlewareNotFound (function middleware : ResourceId)
  | notAMiddleware (resource : ResourceId) (type : String)
  | merge (resource : ResourceId) (cause : MergeError)
deriving DecidableEq, Repr

/-- The text of an error. -/
def FunctionError.message : FunctionError → String
  | .notFound f => "function " ++ f.display ++ " not found"
  | .notAFunction r type =>
    r.display ++ " is of type " ++ Text.visible type ++ " which is not a function type"
  | .extendedFunction f =>
    "function " ++ f.display ++
      " must not extend another resource, use layers or middlewares instead"
  | .missingCodeKeyword r keyword =>
    r.display ++ " has no " ++ keyword ++ " keyword in its code property"
  | .missingCodeName r => r.display ++ " does not name its code"
  | .invalidMiddlewareReference f index =>
    "middleware #" ++ toString index ++ " of function " ++ f.display ++ " is not a resource address"
  | .middlewareNotFound f middleware =>
    "middleware " ++ middleware.display ++ " used by function " ++ f.display ++ " not found"
  | .notAMiddleware r type =>
    r.display ++ " is of type " ++ Text.visible type ++ " which is not a middleware type"
  | .merge r _ => "failed to merge " ++ r.display

/-- Merged properties with their provenance. -/
structure Properties where
  value : Json
  provenance : Provenance

/-! ### Addresses and code -/

/-- An object with one field. -/
def Json.single (key : String) (v : Json) : Json :=
  .object [(key, v)]

/-- The address of a resource as a value. -/
def ResourceId.toJson (id : ResourceId) : Json :=
  .object [("module", .string id.module), ("resource", .string id.resource)]

/-- The resource that a full address names. -/
def Json.resourceId? (v : Json) : Option ResourceId := do
  let module ← (← v.field? "module").asString?
  let resource ← (← v.field? "resource").asString?
  return ⟨module, resource⟩

/-- The code named below a path of merged properties. -/
def Properties.code? (p : Properties) (path : Path) : Option CodeIdentity := do
  let namePath := path ++ [.key "name"]
  let name ← (← namePath.lookup p.value).asString?
  return ⟨(p.provenance.source namePath).owner.module, name⟩

/-- Whether the code property of a resource body carries a keyword. -/
def Json.hasCodeKeyword (body : Json) (schema : Schema) (keyword : String) : Bool :=
  (((body.field? "Properties").bind (Json.field? · schema.codeProperty)).bind
    (Json.field? · keyword)).isSome

/-! ### Lists without repetition -/

/-- Keep the first of values that are the same. -/
def Json.distinctItems : List Json → List Json :=
  List.foldl (fun kept x => if kept.any (Json.same · x) then kept else kept ++ [x]) []

/-- Keep the first of the same items in the array at a path, if there is one. -/
def Json.dropRepeatedAt (path : Path) (v : Json) : Json :=
  (path.modify? (fun
    | .array xs => .array (distinctItems xs)
    | other => other) v).getD v

/-! ### Contributions of extensions -/

/-- A contribution as properties to merge, with its contributor. -/
abbrev Injection := ResourceId × Json

namespace Schema

/-- Properties that list one middleware. -/
def middlewareInjection (schema : Schema) (id : ResourceId) : Injection :=
  (id, .single schema.codeProperty (.single schema.functionKeyword
    (.single schema.middlewaresField (.array [id.toJson]))))

/-- Properties that list one layer. -/
def layerInjection (schema : Schema) (id : ResourceId) : Injection :=
  (id, .single schema.layersProperty (.array [.single schema.referenceKeyword id.toJson]))

/-- What an extension contributes to functions of a type: its middlewares, then its layers. -/
def injections (schema : Schema) (type : String) (extension : Extension) : List Injection :=
  let idOf (c : Contribution) : ResourceId := ⟨extension.module, c.resource⟩
  (extension.middlewares.filter (·.appliesTo type)).map
    (fun c => schema.middlewareInjection (idOf c)) ++
    (extension.layers.filter (·.appliesTo type)).map (fun c => schema.layerInjection (idOf c))

/-- Contributed middlewares and layers come after those that are there. -/
def injectionRules (schema : Schema) : Rules :=
  [(schema.middlewaresPath, .append), (schema.layersPath, .append)]

/-- Layers of a middleware come after those that are there. -/
def middlewareRules (schema : Schema) : Rules :=
  [(schema.layersPath, .append)]

end Schema

/-- Merge one contribution and enter it into the provenance. -/
def Properties.inject (schema : Schema) (function : ResourceId) (p : Properties)
    (injection : Injection) :
    Except FunctionError Properties :=
  match (merge schema.injectionRules p.value injection.2).result with
  | .error e => .error (.merge function e)
  | .ok (value, changes) => .ok ⟨value, p.provenance.enterAll changes injection.1 value⟩

/-! ### Composition -/

/-- What functions are composed from. -/
structure Composer where
  families : Families
  schema : Schema
  extensions : List Extension

namespace Composer

variable (c : Composer)

/-- Something that must be there, or an error. -/
def orError {α : Type} (x : Option α) (e : FunctionError) : Except FunctionError α :=
  match x with
  | some a => .ok a
  | none => .error e

/-- The code of a middleware and the properties it adds to a function. -/
def middleware (function id : ResourceId) : Except FunctionError (CodeIdentity × Json) := do
  let body ← orError (c.families.documents.resource? id) (.middlewareNotFound function id)
  let type := body.textField "Type"
  if type ≠ c.schema.middlewareType then throw (.notAMiddleware id type)
  if !body.hasCodeKeyword c.schema c.schema.middlewareKeyword then
    throw (.missingCodeKeyword id c.schema.middlewareKeyword)
  let family ← orError (c.families.get? id) (.middlewareNotFound function id)
  let properties : Properties := ⟨family.properties, family.provenance⟩
  let code ← orError (properties.code? c.schema.middlewareCodePath) (.missingCodeName id)
  return (code, match qualifyReferences c.schema family.provenance family.properties with
    | .object fs => .object (Fields.erase fs c.schema.codeProperty)
    | other => other)

/-- The entries of the middleware list. -/
def middlewareEntries (properties : Json) : List Json :=
  ((c.schema.middlewaresPath.lookup properties).bind Json.asArray?).getD []

/-- Merge the middlewares of a list, the first of which has an index, into properties. -/
def addMiddlewares (function : ResourceId) :
    Nat → List Json → Json → Except FunctionError (Json × List CodeIdentity)
  | _, [], properties => return (properties, [])
  | index, entry :: entries, properties => do
    let id ← orError entry.resourceId? (.invalidMiddlewareReference function index)
    let (code, added) ← c.middleware function id
    match (merge c.schema.middlewareRules properties added).result with
    | .error e => throw (.merge id e)
    | .ok (properties, _) =>
      let (properties, codes) ← addMiddlewares function (index + 1) entries properties
      return (properties, code :: codes)

/-- Check that a resource is a function that can be composed. -/
def checkFunction (id : ResourceId) (body : Json) : Except FunctionError Unit := do
  let type := body.textField "Type"
  if !c.schema.isFunctionType type then throw (.notAFunction id type)
  if (body.field? "Extend").isSome then throw (.extendedFunction id)
  if !body.hasCodeKeyword c.schema c.schema.functionKeyword then
    throw (.missingCodeKeyword id c.schema.functionKeyword)

/-- The properties of a function with its contributions, qualified and without repeated
middlewares. -/
def prepare (id : ResourceId) (type : String) (family : Family) : Except FunctionError Json := do
  let injections := c.extensions.flatMap (c.schema.injections type)
  let injected ← injections.foldlM (Properties.inject c.schema id)
    ⟨family.properties, family.provenance⟩
  return (qualifyReferences c.schema injected.provenance injected.value).dropRepeatedAt
    c.schema.middlewaresPath

/-- Compose a function. -/
def compose (id : ResourceId) : Except FunctionError ComposedFunction := do
  let body ← orError (c.families.documents.resource? id) (.notFound id)
  c.checkFunction id body
  let family ← orError (c.families.get? id) (.notFound id)
  let properties : Properties := ⟨family.properties, family.provenance⟩
  let code ← orError (properties.code? c.schema.functionCodePath) (.missingCodeName id)
  let prepared ← c.prepare id (body.textField "Type") family
  let (composed, middlewares) ← c.addMiddlewares id 0 (c.middlewareEntries prepared) prepared
  return {
    function := code
    middlewares
    resource :=
      family.resource.setField "Properties" (composed.dropRepeatedAt c.schema.layersPath) }

end Composer

/-! ### Composing once -/

/-- The functions composed so far, in the order of their composition. -/
abbrev FunctionCache := List (ResourceId × ComposedFunction)

/-- The composed function, from the cache if it is there. What can not be composed leaves the
cache as it is. -/
def Composer.function (c : Composer) (id : ResourceId) :
    ExceptT FunctionError (StateM FunctionCache) ComposedFunction := do
  let cache ← get
  match cache.lookup id with
  | some f => return f
  | none =>
    match c.compose id with
    | .error e => throw e
    | .ok f =>
      set (cache ++ [(id, f)])
      return f

end ModularTemplates
