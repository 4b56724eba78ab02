import ModularTemplates.Function.Schema
import ModularTemplates.Function.Extension
import ModularTemplates.Record

/-!
# Declared schemas and extensions

Schemas and extensions are records. Every field of a schema has a default.
-/

namespace ModularTemplates

variable {δ : Type}

/-- Read a schema. -/
def Schema.read? (format : DataFormat δ) (d : δ) : Option Schema := do
  let names := ["function_types", "middleware_type", "code_property", "function_keyword",
    "middleware_keyword", "middlewares_field", "layers_property", "reference_keyword"]
  match ← format.record? false names d with
  | [types, middlewareType, code, function, middleware, middlewares, layers, reference] =>
    let text (default : String) := DataFormat.withDefault default format.string?
    return {
      functionTypes :=
        ← DataFormat.withDefault standard.functionTypes (format.listOf? format.string?) types
      middlewareType := ← text standard.middlewareType middlewareType
      codeProperty := ← text standard.codeProperty code
      functionKeyword := ← text standard.functionKeyword function
      middlewareKeyword := ← text standard.middlewareKeyword middleware
      middlewaresField := ← text standard.middlewaresField middlewares
      layersProperty := ← text standard.layersProperty layers
      referenceKeyword := ← text standard.referenceKeyword reference }
  | _ => none

/-- The schema as a record with all its fields. -/
def Schema.toJson (s : Schema) : Json :=
  .object [
    ("function_types", .array (s.functionTypes.map .string)),
    ("middleware_type", .string s.middlewareType),
    ("code_property", .string s.codeProperty),
    ("function_keyword", .string s.functionKeyword),
    ("middleware_keyword", .string s.middlewareKeyword),
    ("middlewares_field", .string s.middlewaresField),
    ("layers_property", .string s.layersProperty),
    ("reference_keyword", .string s.referenceKeyword)]

/-- Read a contribution. -/
def Contribution.read? (format : DataFormat δ) (d : δ) : Option Contribution := do
  match ← format.record? false ["resource", "types"] d with
  | [resource, types] =>
    return {
      resource := ← DataFormat.required format.string? resource
      types :=
        ← DataFormat.withDefault none (format.nullable? (format.listOf? format.string?)) types }
  | _ => none

/-- The contribution as a record with all its fields. -/
def Contribution.toJson (c : Contribution) : Json :=
  .object [
    ("resource", .string c.resource),
    ("types", match c.types with
      | some types => .array (types.map .string)
      | none => .null)]

/-- Read an extension. -/
def Extension.read? (format : DataFormat δ) (d : δ) : Option Extension := do
  match ← format.record? false ["module", "middlewares", "layers"] d with
  | [module, middlewares, layers] =>
    return {
      module := ← DataFormat.required format.string? module
      middlewares :=
        ← DataFormat.withDefault [] (format.listOf? (Contribution.read? format)) middlewares
      layers := ← DataFormat.withDefault [] (format.listOf? (Contribution.read? format)) layers }
  | _ => none

/-- The extension as a record with all its fields. -/
def Extension.toJson (e : Extension) : Json :=
  .object [
    ("module", .string e.module),
    ("middlewares", .array (e.middlewares.map Contribution.toJson)),
    ("layers", .array (e.layers.map Contribution.toJson))]

end ModularTemplates
