import ModularTemplates.Json.Basic

/-!
# Records in data files

Records with named fields are read from data of several formats. A format says how its data is taken
apart; the reader of a record is then the same for all formats. A field that is absent takes its
default, if it has one; a field that is present must be readable.
-/

namespace ModularTemplates

/-- How data of a format is taken apart. -/
structure DataFormat (δ : Type) where
  string? : δ → Option String
  list? : δ → Option (List δ)
  isNull : δ → Bool
  /-- the values of the named fields, in the order of the names; a strict record has no other
  fields -/
  record? : (strict : Bool) → (names : List String) → δ → Option (List (Option δ))

namespace DataFormat

variable {δ α : Type} (format : DataFormat δ)

/-- A field that must be there. -/
def required (read : δ → Option α) (field : Option δ) : Option α :=
  field.bind read

/-- A field with a default. -/
def withDefault (default : α) (read : δ → Option α) : Option δ → Option α
  | some d => read d
  | none => some default

/-- A list of things of one kind. -/
def listOf? (read : δ → Option α) (d : δ) : Option (List α) := do
  (← format.list? d).mapM read

/-- Null, or a thing of some kind. -/
def nullable? (read : δ → Option α) (d : δ) : Option (Option α) :=
  if format.isNull d then some none else (read d).map some

end DataFormat

/-- A JSON record is an object, or the array of its first fields. -/
def Json.format : DataFormat Json where
  string? := Json.asString?
  list? := Json.asArray?
  isNull v := v == .null
  record? strict names v :=
    match v with
    | .object fs =>
      if strict && fs.any fun field => !names.contains field.1 then none
      else some (names.map (Fields.get? fs))
    | .array xs =>
      if names.length < xs.length then none
      else some (xs.map some ++ List.replicate (names.length - xs.length) none)
    | _ => none

end ModularTemplates
