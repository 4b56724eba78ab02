import ModularTemplates.Number.Binary64

/-!
# Decimal text of floating point numbers

A number is written with the fewest digits that read back as the same number; of several such
decimals the nearest is taken. The digits are found on the decimal grids of one, two, … digits:
the first grid that has a point in the interval of reals rounding to the number wins.
-/

namespace ModularTemplates

/-- `digits · 10^power`. -/
structure Decimal where
  digits : Nat
  power : Int
deriving DecidableEq, Repr

/-- How a float is written where positional notation ends. -/
structure FloatFormat where
  /-- whether a positive exponent carries a sign -/
  plusSign : Bool

namespace Decimal

/-- The decimal digits of a natural number. -/
def digitChars (n : Nat) : List Char :=
  Nat.toDigits 10 n

/-- The value of a list of decimal digits. -/
def ofDigitChars (cs : List Char) : Nat :=
  cs.foldl (fun n c => 10 * n + (c.toNat - '0'.toNat)) 0

/-- The greatest `p` with `10^p ≤ num / den`, for positive `num` and `den`. -/
def decimalOrder (num den : Nat) : Int :=
  if den ≤ num then ((digitChars (num / den)).length : Int) - 1
  else
    let t := (digitChars (den / num)).length
    if den ≤ num * Nat.pow 10 (t - 1) then -((t - 1 : Nat) : Int) else -(t : Int)

/-- The interval of reals that round to a number, with its middle, as numerators over
one denominator. -/
structure Interval where
  low : Nat
  middle : Nat
  high : Nat
  den : Nat
  /-- whether the ends belong to the interval -/
  closed : Bool

/-- The interval of a positive number. Below a power of two the neighbour is only half as far
away. -/
def interval (x : Binary64) : Interval :=
  let below := if x.mantissa = Nat.pow 2 52 ∧ Binary64.leastExponent < x.exponent then 1 else 2
  let unit := Nat.pow 2 (x.exponent - 2).toNat
  { low := (4 * x.mantissa - below) * unit
    middle := 4 * x.mantissa * unit
    high := (4 * x.mantissa + 2) * unit
    den := Nat.pow 2 (2 - x.exponent).toNat
    closed := x.mantissa % 2 == 0 }

/-- Whether `digits · 10^power` lies in the interval. -/
def Interval.contains (i : Interval) (d : Decimal) : Bool :=
  let point := d.digits * Nat.pow 10 d.power.toNat * i.den
  let low := i.low * Nat.pow 10 (-d.power).toNat
  let high := i.high * Nat.pow 10 (-d.power).toNat
  if i.closed then low ≤ point && point ≤ high else low < point && point < high

/-- The point of the grid of step `10^power` that lies in the interval and nearest to its middle. -/
def Interval.onGrid? (i : Interval) (power : Int) : Option Decimal :=
  let num := i.middle * Nat.pow 10 (-power).toNat
  let den := i.den * Nat.pow 10 power.toNat
  let below : Decimal := ⟨num / den, power⟩
  let above : Decimal := ⟨num / den + 1, power⟩
  let twice := 2 * (num % den)
  let first := twice < den || (twice == den && below.digits % 2 == 0)
  match i.contains below, i.contains above with
  | true, true => if first then some below else some above
  | true, false => some below
  | false, true => some above
  | false, false => none

/-- The first point found on the grids of `10^power`, `10^(power-1)`, … -/
def Interval.shortest (i : Interval) : Nat → Int → Decimal
  | 0, power => ⟨i.middle * Nat.pow 10 (-power).toNat / (i.den * Nat.pow 10 power.toNat), power⟩
  | n + 1, power =>
    match i.onGrid? power with
    | some d => d
    | none => i.shortest n (power - 1)

/-- The shortest decimal that reads back as a positive number. -/
def ofBinary (x : Binary64) : Decimal :=
  let i := interval x
  i.shortest 17 (decimalOrder i.middle i.den)

/-- Digits without trailing zeros, and the exponent of the leading one. -/
def significant (d : Decimal) : List Char × Int :=
  let cs := digitChars d.digits
  let trimmed := (cs.reverse.dropWhile (· == '0')).reverse
  (trimmed, d.power + cs.length - 1)

/-- Written out for exponents from `-5` to `15`, always with a fraction; otherwise with an
exponent. -/
def text (format : FloatFormat) (d : Decimal) : List Char :=
  let (cs, order) := d.significant
  if -5 ≤ order ∧ order < 0 then
    ['0', '.'] ++ List.replicate (-order - 1).toNat '0' ++ cs
  else if 0 ≤ order ∧ order < 16 then
    let whole := order.toNat + 1
    let fraction := cs.drop whole
    cs.take whole ++ List.replicate (whole - cs.length) '0' ++ ['.'] ++
      (if fraction.isEmpty then ['0'] else fraction)
  else
    let sign := if order < 0 then ['-'] else if format.plusSign then ['+'] else []
    cs.take 1 ++ (if cs.length ≤ 1 then [] else '.' :: cs.drop 1) ++ ['e'] ++ sign ++
      digitChars order.natAbs

end Decimal

/-- The text of a float. -/
def Binary64.text (format : FloatFormat) (x : Binary64) : String :=
  let sign := if x.negative then ['-'] else []
  let body := if x.isZero then ['0', '.', '0'] else (Decimal.ofBinary x).text format
  String.ofList (sign ++ body)

end ModularTemplates
