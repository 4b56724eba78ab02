import ModularTemplates.Json.Basic
import ModularTemplates.Merge.Rules

/-!
# Declared merge rules

Rules are declared by an object from dotted paths to operations. An operation is its keyword, or an
object with the keyword as its only key and null as the value.
-/

namespace ModularTemplates

/-- The operation that a value declares. -/
def Operation.ofJson? : Json → Option Operation
  | .string word => Operation.ofKeyword? word
  | .object [(word, .null)] => Operation.ofKeyword? word
  | _ => none

/-- The rules that a value declares. -/
def Rules.ofJson? : Json → Option Rules
  | .object fs => fs.mapM fun field => do
    return (Path.parse field.1, ← Operation.ofJson? field.2)
  | _ => none

end ModularTemplates
