import ModularTemplates.Fields
import ModularTemplates.Number.Binary64

/-!
# Documents

A document is a JSON value. Objects remember the order of their keys, and an integer is never a
float, however the float is written. Two documents are *the same* when they differ at most in the
key order of objects.
-/

namespace ModularTemplates

/-- A JSON number: an integer, or a finite float. -/
inductive Number where
  | int (value : Int)
  | float (value : Binary64)
deriving DecidableEq, Repr

/-- Numeric equality within one kind of number. -/
def Number.same : Number → Number → Bool
  | .int a, .int b => a == b
  | .float x, .float y => x.same y
  | _, _ => false

/-- A JSON value. -/
inductive Json where
  | null
  | bool (value : Bool)
  | number (value : Number)
  | string (value : String)
  | array (items : List Json)
  | object (fields : List (String × Json))
deriving Repr, Inhabited

namespace Json

/-! ### Structural equality -/

mutual
/-- Structural equality, key order included. -/
def decEq : (v w : Json) → Decidable (v = w)
  | .null, .null => isTrue rfl
  | .bool a, .bool b => decidable_of_iff (a = b) (by simp)
  | .number a, .number b => decidable_of_iff (a = b) (by simp)
  | .string a, .string b => decidable_of_iff (a = b) (by simp)
  | .array xs, .array ys =>
    let _ := decEqItems xs ys
    decidable_of_iff (xs = ys) (by simp)
  | .object fs, .object gs =>
    let _ := decEqFields fs gs
    decidable_of_iff (fs = gs) (by simp)
  | .null, .bool _ | .null, .number _ | .null, .string _ | .null, .array _ | .null, .object _
  | .bool _, .null | .bool _, .number _ | .bool _, .string _ | .bool _, .array _
  | .bool _, .object _
  | .number _, .null | .number _, .bool _ | .number _, .string _ | .number _, .array _
  | .number _, .object _
  | .string _, .null | .string _, .bool _ | .string _, .number _ | .string _, .array _
  | .string _, .object _
  | .array _, .null | .array _, .bool _ | .array _, .number _ | .array _, .string _
  | .array _, .object _
  | .object _, .null | .object _, .bool _ | .object _, .number _ | .object _, .string _
  | .object _, .array _ => isFalse (by simp)

/-- Structural equality of items. -/
def decEqItems : (xs ys : List Json) → Decidable (xs = ys)
  | [], [] => isTrue rfl
  | [], _ :: _ | _ :: _, [] => isFalse (by simp)
  | x :: xs, y :: ys =>
    let _ := decEq x y
    let _ := decEqItems xs ys
    decidable_of_iff (x = y ∧ xs = ys) (by simp)

/-- Structural equality of fields. -/
def decEqFields : (fs gs : List (String × Json)) → Decidable (fs = gs)
  | [], [] => isTrue rfl
  | [], _ :: _ | _ :: _, [] => isFalse (by simp)
  | (k, v) :: fs, (l, w) :: gs =>
    let _ := decEq v w
    let _ := decEqFields fs gs
    decidable_of_iff ((k = l ∧ v = w) ∧ fs = gs) (by simp)
end

instance : DecidableEq Json := decEq

/-! ### Equality apart from key order -/

mutual
/-- Equality apart from the key order of objects. -/
def same : Json → Json → Bool
  | .null, .null => true
  | .bool a, .bool b => a == b
  | .number a, .number b => a.same b
  | .string a, .string b => a == b
  | .array xs, .array ys => sameItems xs ys
  | .object fs, .object gs => fs.length == gs.length && sameFields fs gs
  | _, _ => false

/-- Items that are the same one by one. -/
def sameItems : List Json → List Json → Bool
  | [], [] => true
  | x :: xs, y :: ys => same x y && sameItems xs ys
  | _, _ => false

/-- Whether every field of the first list has a field of the second with the same value. -/
def sameFields : List (String × Json) → List (String × Json) → Bool
  | [], _ => true
  | (k, v) :: fs, gs =>
    (match Fields.get? gs k with
      | some w => same v w
      | none => false) && sameFields fs gs
end

/-! ### Reading a value -/

/-- The text of a string. -/
def asString? : Json → Option String
  | .string s => some s
  | _ => none

/-- The items of an array. -/
def asArray? : Json → Option (List Json)
  | .array xs => some xs
  | _ => none

/-- The fields of an object. -/
def asObject? : Json → Option (Fields Json)
  | .object fs => some fs
  | _ => none

/-- Whether the value is an object. -/
def isObject (v : Json) : Bool :=
  v.asObject?.isSome

/-- The value under a key of an object. -/
def field? (v : Json) (key : String) : Option Json :=
  v.asObject?.bind (Fields.get? · key)

/-- The text under a key, empty if there is none. -/
def textField (v : Json) (key : String) : String :=
  ((v.field? key).bind asString?).getD ""

/-- Put a value under a key of an object; other values stay as they are. -/
def setField (v : Json) (key : String) (w : Json) : Json :=
  match v with
  | .object fs => .object (Fields.set fs key w)
  | other => other

/-! ### Well-formed documents -/

mutual
/-- No object of the value lists a key twice. -/
def WellFormed : Json → Prop
  | .array xs => WellFormedItems xs
  | .object fs => Fields.Distinct fs ∧ WellFormedFields fs
  | _ => True

/-- All items are well-formed. -/
def WellFormedItems : List Json → Prop
  | [] => True
  | x :: xs => WellFormed x ∧ WellFormedItems xs

/-- All values of the fields are well-formed. -/
def WellFormedFields : List (String × Json) → Prop
  | [] => True
  | (_, v) :: fs => WellFormed v ∧ WellFormedFields fs
end

theorem wellFormedItems_iff {xs : List Json} :
    WellFormedItems xs ↔ ∀ x ∈ xs, x.WellFormed := by
  induction xs with
  | nil => simp [WellFormedItems]
  | cons x xs ih => simp [WellFormedItems, ih]

theorem wellFormedFields_iff {fs : List (String × Json)} :
    WellFormedFields fs ↔ ∀ field ∈ fs, field.2.WellFormed := by
  induction fs with
  | nil => simp [WellFormedFields]
  | cons field fs ih => simp [WellFormedFields, ih]

end Json

end ModularTemplates
