import ModularTemplates.Json.Basic
import ModularTemplates.Number.Decimal

/-!
# Reading JSON text

A reader takes characters from the front of a list and gives back the rest. Containers may be nested
127 deep. The digits of a number are read as one whole number of at most 64 bits, further digits
being dropped, which is then scaled by a power of ten.
-/

namespace ModularTemplates

namespace Json

/-- A reader of the front of a text. -/
abbrev Reader (α : Type) := List Char → Option (α × List Char)

/-- The characters between tokens. -/
def isBlank (c : Char) : Bool :=
  c == ' ' || c == '\n' || c == '\t' || c == '\r'

/-- The text from its first token on. -/
def skipBlank (cs : List Char) : List Char :=
  cs.dropWhile isBlank

/-! ### Strings -/

/-- The value of a hexadecimal digit. -/
def hexValue? (c : Char) : Option Nat :=
  if '0' ≤ c ∧ c ≤ '9' then some (c.toNat - '0'.toNat)
  else if 'a' ≤ c ∧ c ≤ 'f' then some (c.toNat - 'a'.toNat + 10)
  else if 'A' ≤ c ∧ c ≤ 'F' then some (c.toNat - 'A'.toNat + 10)
  else none

/-- The value of four hexadecimal digits. -/
def hexUnit? (a b c d : Char) : Option Nat := do
  let a ← hexValue? a
  let b ← hexValue? b
  let c ← hexValue? c
  let d ← hexValue? d
  return ((a * 16 + b) * 16 + c) * 16 + d

/-- The character that a letter stands for after a backslash. -/
def unescape? (c : Char) : Option Char :=
  match c with
  | '"' => some '"'
  | '\\' => some '\\'
  | '/' => some '/'
  | 'b' => some '\x08'
  | 'f' => some '\x0c'
  | 'n' => some '\n'
  | 'r' => some '\r'
  | 't' => some '\t'
  | _ => none

/-- Whether a 16-bit unit is the first half of a pair. -/
def isHighUnit (n : Nat) : Bool := 0xD800 ≤ n && n < 0xDC00

/-- Whether a 16-bit unit is the second half of a pair. -/
def isLowUnit (n : Nat) : Bool := 0xDC00 ≤ n && n < 0xE000

/-- The rest of a string after its opening quote. A half of a pair must not stand alone. -/
def stringTail : Reader (List Char)
  | [] => none
  | '"' :: rest => some ([], rest)
  | '\\' :: 'u' :: a :: b :: c :: d :: '\\' :: 'u' :: e :: f :: g :: h :: rest => do
    let first ← hexUnit? a b c d
    if isHighUnit first then
      let second ← hexUnit? e f g h
      if isLowUnit second then
        let (cs, rest) ← stringTail rest
        some (Char.ofNat (0x10000 + (first - 0xD800) * 0x400 + (second - 0xDC00)) :: cs, rest)
      else none
    else if isLowUnit first then none
    else
      let (cs, rest) ← stringTail ('\\' :: 'u' :: e :: f :: g :: h :: rest)
      some (Char.ofNat first :: cs, rest)
  | '\\' :: 'u' :: a :: b :: c :: d :: rest => do
    let unit ← hexUnit? a b c d
    if isHighUnit unit || isLowUnit unit then none
    else
      let (cs, rest) ← stringTail rest
      some (Char.ofNat unit :: cs, rest)
  | '\\' :: c :: rest => do
    let c ← unescape? c
    let (cs, rest) ← stringTail rest
    some (c :: cs, rest)
  | c :: rest => do
    if c.toNat < 0x20 || c == '\\' then none
    else
      let (cs, rest) ← stringTail rest
      some (c :: cs, rest)

/-! ### Numbers -/

/-- The greatest whole number that the digits of a number may make up. -/
def greatestWord : Nat := Nat.pow 2 64 - 1

/-- Digits read so far: their value, the power of ten it is scaled by, and whether a
digit was dropped. -/
structure Significand where
  value : Nat
  power : Int
  full : Bool

/-- Take up a digit before the point. -/
def Significand.whole (s : Significand) (c : Char) : Significand :=
  let value := 10 * s.value + (c.toNat - '0'.toNat)
  if s.full || greatestWord < value then { s with power := s.power + 1, full := true }
  else { s with value }

/-- Take up a digit behind the point. -/
def Significand.fraction (s : Significand) (c : Char) : Significand :=
  let value := 10 * s.value + (c.toNat - '0'.toNat)
  if s.full || greatestWord < value then { s with full := true }
  else { s with value, power := s.power - 1 }

/-- Scale by a negative power of ten, at most 308 powers at a time. -/
def scaleDown : Nat → Binary64 → Nat → Option Binary64
  | 0, x, _ => some x
  | steps + 1, x, power =>
    if power ≤ 308 then
      (Binary64.ofDecimal? 1 power).bind x.div?
    else if x.isZero then some x
    else do
      let unit ← Binary64.ofDecimal? 1 308
      scaleDown steps (← x.div? unit) (power - 308)

/-- The float of a significand, or nothing if it is too great. -/
def Significand.toFloat? (s : Significand) : Option Binary64 := do
  let x ← Binary64.ofDecimal? s.value 0
  if 0 ≤ s.power then
    if s.power ≤ 308 then
      x.mul? (← Binary64.ofDecimal? 1 s.power)
    else if x.isZero then some x
    else none
  else scaleDown (s.power.natAbs / 308 + 1) x s.power.natAbs

/-- The exponent part of a number, zero if there is none. -/
def exponentPart : Reader Int
  | 'e' :: rest | 'E' :: rest =>
    let (negative, rest) :=
      match rest with
      | '-' :: rest => (true, rest)
      | '+' :: rest => (false, rest)
      | rest => (false, rest)
    let digits := rest.takeWhile Char.isDigit
    if digits.isEmpty then none
    else
      let n : Int := Decimal.ofDigitChars digits
      some (if negative then -n else n, rest.dropWhile Char.isDigit)
  | rest => some (0, rest)

/-- A signed float. -/
def signedFloat (negative : Bool) (x : Binary64) : Number :=
  .float (if negative then x.neg else x)

/-- A number without fraction and exponent: an integer if it fits 64 bits, signed or not,
and is not `-0`. -/
def wholeNumber? (negative : Bool) (s : Significand) : Option Number :=
  if s.full then (s.toFloat?).map (signedFloat negative)
  else if !negative then some (.int s.value)
  else if 0 < s.value ∧ s.value ≤ Nat.pow 2 63 then some (.int (-s.value))
  else (s.toFloat?).map (signedFloat negative)

/-- A number after its sign. -/
def unsignedNumber (negative : Bool) : Reader Number := fun cs =>
  let digits := cs.takeWhile Char.isDigit
  let rest := cs.dropWhile Char.isDigit
  if digits.isEmpty || (digits.length > 1 && digits.head? == some '0') then none
  else
    let whole := digits.foldl Significand.whole ⟨0, 0, false⟩
    match rest with
    | '.' :: rest => do
      let digits := rest.takeWhile Char.isDigit
      if digits.isEmpty then none
      else
        let s := digits.foldl Significand.fraction { whole with full := false }
        let (e, rest) ← exponentPart (rest.dropWhile Char.isDigit)
        let x ← Significand.toFloat? { s with power := s.power + e }
        some (signedFloat negative x, rest)
    | 'e' :: _ | 'E' :: _ => do
      let (e, rest) ← exponentPart rest
      let x ← Significand.toFloat? { whole with power := whole.power + e }
      some (signedFloat negative x, rest)
    | rest => (wholeNumber? negative whole).map (·, rest)

/-! ### Values -/

/-- A value that is no container. -/
def scalar : Reader Json
  | 'n' :: 'u' :: 'l' :: 'l' :: rest => some (.null, rest)
  | 't' :: 'r' :: 'u' :: 'e' :: rest => some (.bool true, rest)
  | 'f' :: 'a' :: 'l' :: 's' :: 'e' :: rest => some (.bool false, rest)
  | '"' :: rest => (stringTail rest).map fun (s, rest) => (.string (String.ofList s), rest)
  | '-' :: rest => (unsignedNumber true rest).map fun (n, rest) => (.number n, rest)
  | rest => (unsignedNumber false rest).map fun (n, rest) => (.number n, rest)

/-- The items of an array from one item on; there are at most as many as the bound says. -/
def itemsFrom (value : Reader Json) : Nat → Reader (List Json)
  | 0, _ => none
  | bound + 1, cs => do
    let (x, rest) ← value (skipBlank cs)
    match skipBlank rest with
    | ',' :: rest =>
      let (xs, rest) ← itemsFrom value bound rest
      some (x :: xs, rest)
    | ']' :: rest => some ([x], rest)
    | _ => none

/-- The fields of an object from one field on; there are at most as many as the bound says. -/
def fieldsFrom (value : Reader Json) : Nat → Reader (List (String × Json))
  | 0, _ => none
  | bound + 1, cs => do
    match skipBlank cs with
    | '"' :: rest =>
      let (k, rest) ← stringTail rest
      match skipBlank rest with
      | ':' :: rest =>
        let (v, rest) ← value (skipBlank rest)
        match skipBlank rest with
        | ',' :: rest =>
          let (fs, rest) ← fieldsFrom value bound rest
          some ((String.ofList k, v) :: fs, rest)
        | '}' :: rest => some ([(String.ofList k, v)], rest)
        | _ => none
      | _ => none
    | _ => none

/-- A value in which containers are nested at most `depth` deep. -/
def valueWithin : (depth : Nat) → Reader Json
  | 0, cs => match cs with
    | '[' :: _ | '{' :: _ => none
    | cs => scalar cs
  | depth + 1, cs =>
    match cs with
    | '[' :: rest =>
      match skipBlank rest with
      | ']' :: rest => some (.array [], rest)
      | rest =>
        (itemsFrom (valueWithin depth) rest.length rest).map fun (xs, rest) => (.array xs, rest)
    | '{' :: rest =>
      match skipBlank rest with
      | '}' :: rest => some (.object [], rest)
      | rest =>
        (fieldsFrom (valueWithin depth) rest.length rest).map fun (fs, rest) =>
          (.object (Fields.ofList fs), rest)
    | cs => scalar cs

/-- How deep containers may be nested. -/
def depthLimit : Nat := 127

/-- The value that a text denotes. A repeated key keeps its first place and takes its last value. -/
def parse? (text : String) : Option Json := do
  let (v, rest) ← valueWithin depthLimit (skipBlank text.toList)
  if (skipBlank rest).isEmpty then some v else none

end Json

end ModularTemplates
