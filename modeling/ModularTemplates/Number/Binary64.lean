/-!
# Finite binary floating point numbers

A finite number of the 64-bit binary format is `±mantissa · 2^exponent`. All arithmetic is exact
on natural numbers and rounded once, to the nearest number and, half way between two, to the one
with an even mantissa.
-/

namespace ModularTemplates

/-- `±mantissa · 2^exponent`. Rounding yields the form with `mantissa < 2^53` and the least
exponent from `-1074` on, so that equal numbers but for the two zeros have equal fields. -/
structure Binary64 where
  negative : Bool
  mantissa : Nat
  exponent : Int
deriving DecidableEq, Repr

namespace Binary64

/-- The least exponent of the format. -/
def leastExponent : Int := -1074

/-- The greatest exponent of the format. -/
def greatestExponent : Int := 971

/-- Zero, with a sign. -/
def zero (negative : Bool) : Binary64 :=
  ⟨negative, 0, leastExponent⟩

/-- Whether the number is zero of either sign. -/
def isZero (x : Binary64) : Bool :=
  x.mantissa == 0

/-- Numeric equality: the two zeros are equal, all else is equal to itself only. -/
def same (x y : Binary64) : Bool :=
  (x.isZero && y.isZero) || x == y

/-- The same number with the other sign. -/
def neg (x : Binary64) : Binary64 :=
  { x with negative := !x.negative }

/-- `num / den` rounded to a natural number, a half to the even neighbour. -/
def roundQuotient (num den : Nat) : Nat :=
  let q := num / den
  let r := num % den
  if den < 2 * r || (2 * r == den && q % 2 == 1) then q + 1 else q

/-- `num · 2^shift / den` rounded to a natural number. -/
def roundShifted (num den : Nat) (shift : Int) : Nat :=
  roundQuotient (num * Nat.pow 2 shift.toNat) (den * Nat.pow 2 (-shift).toNat)

/-- The greatest `k` with `2^k ≤ num / den`, for positive `num` and `den`. -/
def binaryOrder (num den : Nat) : Int :=
  let k : Int := (num.log2 : Int) - den.log2
  if num * Nat.pow 2 (-k).toNat < den * Nat.pow 2 k.toNat then k - 1 else k

/-- The nonnegative number nearest to `num / den`, unless that is too great for the format. -/
def ofRatio? (num den : Nat) : Option Binary64 :=
  if num = 0 then some (zero false)
  else
    let e := max (binaryOrder num den - 52) leastExponent
    let m := roundShifted num den (-e)
    let x : Binary64 :=
      if m = Nat.pow 2 53 then ⟨false, Nat.pow 2 52, e + 1⟩ else ⟨false, m, e⟩
    if greatestExponent < x.exponent then none else some x

/-- The number nearest to `digits · 10^power`, unless that is too great. Powers far outside the
format are settled without computing them. -/
def ofDecimal? (digits : Nat) (power : Int) : Option Binary64 :=
  if digits = 0 then some (zero false)
  else if 400 < power then none
  else if power < -400 - (digits.log2 : Int) then some (zero false)
  else ofRatio? (digits * Nat.pow 10 power.toNat) (Nat.pow 10 (-power).toNat)

/-- The product of two magnitudes, rounded. -/
def mul? (x y : Binary64) : Option Binary64 :=
  let e := x.exponent + y.exponent
  ofRatio? (x.mantissa * y.mantissa * Nat.pow 2 e.toNat) (Nat.pow 2 (-e).toNat)

/-- The quotient of two magnitudes, rounded. -/
def div? (x y : Binary64) : Option Binary64 :=
  let e := x.exponent - y.exponent
  ofRatio? (x.mantissa * Nat.pow 2 e.toNat) (y.mantissa * Nat.pow 2 (-e).toNat)

/-- Numeric equality is reflexive. -/
@[simp] theorem same_self (x : Binary64) : x.same x = true := by
  simp [same]

end Binary64

end ModularTemplates
