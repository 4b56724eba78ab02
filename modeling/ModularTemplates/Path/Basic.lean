import ModularTemplates.Number.Decimal

/-!
# Property paths

A path leads from the root of a document to one of its values. Each segment is an object key or an
array index. Paths are written with dots between the segments; a written segment that reads as a
machine word is an index, every other one is a key.
-/

namespace ModularTemplates

/-- One step of a path. -/
inductive Segment where
  | key (name : String)
  | index (position : Nat)
deriving DecidableEq, Repr

/-- The segments from the root on. -/
abbrev Path := List Segment

/-! ### Indices in text -/

/-- The greatest index that a written segment can name. -/
def greatestIndex : Nat := Nat.pow 2 64 - 1

/-- The number that a text spells: digits, after at most one plus sign, of a value within a
machine word. -/
def readIndex? (text : List Char) : Option Nat :=
  let digits := match text with
    | '+' :: rest => rest
    | cs => cs
  if digits.isEmpty || !digits.all Char.isDigit then none
  else
    let n := Decimal.ofDigitChars digits
    if n ≤ greatestIndex then some n else none

/-! ### Segments -/

namespace Segment

/-- The segment that a text between two dots stands for. -/
def ofChars (cs : List Char) : Segment :=
  match readIndex? cs with
  | some i => .index i
  | none => .key (String.ofList cs)

/-- The text of a segment. -/
def chars : Segment → List Char
  | .key name => name.toList
  | .index i => Decimal.digitChars i

/-- Equality, except that a key also matches the index that it spells. -/
def «matches» : Segment → Segment → Bool
  | .key a, .key b => a == b
  | .index i, .index j => i == j
  | .key k, .index i => readIndex? k.toList == some i
  | .index i, .key k => readIndex? k.toList == some i

end Segment

/-! ### Paths -/

/-- The pieces of a text between its dots. -/
def splitDots : List Char → List (List Char)
  | [] => [[]]
  | c :: cs =>
    if c = '.' then [] :: splitDots cs
    else match splitDots cs with
      | piece :: pieces => (c :: piece) :: pieces
      | [] => [[c]]

/-- The pieces joined by dots. -/
def joinDots : List (List Char) → List Char
  | [] => []
  | [piece] => piece
  | piece :: next :: pieces => piece ++ '.' :: joinDots (next :: pieces)

namespace Path

/-- The path that a text denotes. The empty text is the root. -/
def parse (text : String) : Path :=
  if text.isEmpty then [] else (splitDots text.toList).map Segment.ofChars

/-- The text of a path. -/
def display (p : Path) : String :=
  if p.isEmpty then "<root>" else String.ofList (joinDots (p.map Segment.chars))

/-- Segment by segment matching of two paths of one length. -/
def «matches» : Path → Path → Bool
  | [], [] => true
  | a :: p, b :: q => a.matches b && Path.matches p q
  | _, _ => false

/-- Whether a path strictly extends another, up to matching of segments. -/
def reachesBelow : Path → Path → Bool
  | _ :: _, [] => true
  | a :: p, b :: q => a.matches b && reachesBelow p q
  | [], _ => false

@[simp] theorem matches_nil : Path.matches [] [] = true := rfl

@[simp] theorem matches_cons (a b : Segment) (p q : Path) :
    Path.matches (a :: p) (b :: q) = (a.matches b && Path.matches p q) := rfl

/-- Matching paths have one length. -/
theorem length_eq_of_matches {p q : Path} (h : Path.matches p q = true) : p.length = q.length := by
  induction p generalizing q with
  | nil => cases q with
    | nil => rfl
    | cons b q => simp [Path.matches] at h
  | cons a p ih => cases q with
    | nil => simp [Path.matches] at h
    | cons b q =>
      simp only [matches_cons, Bool.and_eq_true] at h
      simp [ih h.2]

end Path

end ModularTemplates
