import ModularTemplates.Json.Text

/-!
# Objects from entries

An object can be made of entries whose keys are any values: text is a key as it is, numbers and
truth values are keys by their text, and nothing else can be a key.
-/

namespace ModularTemplates

/-- Why a value has no JSON form. -/
inductive JsonError where
  /-- the value can not be a key -/
  | invalidKey (key : Json)

/-- The text of an error. -/
def JsonError.message : JsonError → String
  | .invalidKey _ => "value can not be represented as json"

namespace Json

/-- The key that a value is. -/
def asKey? : Json → Option String
  | .string s => some s
  | .number n => some n.text
  | .bool b => some (if b then "true" else "false")
  | _ => none

/-- The object of some entries; a later entry of the same key changes the value of the earlier
one. -/
def ofEntries (entries : List (Json × Json)) : Except JsonError Json := do
  let fields ← entries.mapM fun (key, v) =>
    match key.asKey? with
    | some k => Except.ok (k, v)
    | none => .error (.invalidKey key)
  return .object (Fields.ofList fields)

end Json

end ModularTemplates
