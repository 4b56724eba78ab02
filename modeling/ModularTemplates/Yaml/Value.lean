import ModularTemplates.Json.Reader
import ModularTemplates.Record
import ModularTemplates.Yaml.Node

/-!
# YAML values

A plain scalar is null, a truth value, a number or a text, by its spelling; a quoted scalar is
a text. Digits behind a leading zero are a text. A mapping is an object whose keys are the
texts of scalars.
-/

namespace ModularTemplates

namespace Yaml

/-! ### Plain scalars -/

/-- Whether a plain scalar is null. -/
def isNull (cs : List Char) : Bool :=
  ["", "~", "null", "Null", "NULL"].any fun word => word.toList == cs

/-- The truth value that a plain scalar spells. -/
def truth? (cs : List Char) : Option Bool :=
  if ["true", "True", "TRUE"].any fun word => word.toList == cs then some true
  else if ["false", "False", "FALSE"].any fun word => word.toList == cs then some false
  else none

/-- The number that digits of a base spell, if they are digits of that base and there are any. -/
def digitsValue? (base : Nat) (cs : List Char) : Option Nat :=
  if cs.isEmpty then none
  else cs.foldlM (fun n c => do
    let d ← hexValue? c
    if d < base then some (base * n + d) else none) 0

/-- Whether a text is a zero followed by further digits, after at most one sign. -/
def hasLeadingZero (cs : List Char) : Bool :=
  let digits := match cs with
    | '-' :: rest | '+' :: rest => rest
    | cs => cs
  digits.length > 1 && digits.head? == some '0' && digits.all Char.isDigit

/-- The natural number that a text spells in base ten, or in another base behind its mark. -/
def natural? (cs : List Char) : Option Nat :=
  match cs with
  | '0' :: 'x' :: digits => digitsValue? 16 digits
  | '0' :: 'o' :: digits => digitsValue? 8 digits
  | '0' :: 'b' :: digits => digitsValue? 2 digits
  | cs => if hasLeadingZero cs then none else digitsValue? 10 cs

/-- The integer that a plain scalar spells. -/
def integer? (cs : List Char) : Option Int :=
  match cs with
  | '-' :: digits => (natural? digits).map fun n => -(n : Int)
  | '+' :: digits => (natural? digits).map Int.ofNat
  | digits => (natural? digits).map Int.ofNat

/-- The digits of a decimal fraction and of its exponent, as a whole number and a power of ten. -/
def fraction? (cs : List Char) : Option (Nat × Int) := do
  let whole := cs.takeWhile Char.isDigit
  let rest := cs.dropWhile Char.isDigit
  let (behind, rest) := match rest with
    | '.' :: rest => (rest.takeWhile Char.isDigit, rest.dropWhile Char.isDigit)
    | rest => ([], rest)
  let (exponent, rest) ← Json.exponentPart rest
  if (whole.isEmpty && behind.isEmpty) || !rest.isEmpty then none
  else some (Decimal.ofDigitChars (whole ++ behind), exponent - behind.length)

/-- The finite float that a plain scalar spells. -/
def float? (cs : List Char) : Option Binary64 := do
  let (negative, digits) := match cs with
    | '-' :: rest => (true, rest)
    | '+' :: rest => (false, rest)
    | rest => (false, rest)
  let (n, power) ← fraction? digits
  let x ← Binary64.ofDecimal? n power
  return if negative then x.neg else x

/-- Whether a plain scalar spells an infinity or no number at all, which have no JSON form. -/
def isUnbounded (cs : List Char) : Bool :=
  [".inf", ".Inf", ".INF", "+.inf", "+.Inf", "+.INF", "-.inf", "-.Inf", "-.INF", ".nan", ".NaN",
    ".NAN"].any
    fun word => word.toList == cs

/-- Whether an integer fits 64 bits, signed or not. -/
def fitsWord (n : Int) : Bool :=
  -(Nat.pow 2 63 : Nat) ≤ n && n < (Nat.pow 2 64 : Nat)

/-- The value that a plain scalar spells. Integers must fit 64 bits, signed or not, unless they have
more than 128 bits and are read as floats. -/
def plainValue? (text : String) : Option Json :=
  let cs := text.toList
  if isNull cs then some .null
  else if let some b := truth? cs then some (.bool b)
  else
    let float : Option Json :=
      if hasLeadingZero cs then some (.string text)
      else if isUnbounded cs then some .null
      else match float? cs with
        | some x => some (.number (.float x))
        | none => some (.string text)
    match integer? cs with
    | some n =>
      if fitsWord n then some (.number (.int n))
      else if -(Nat.pow 2 127 : Nat) ≤ n ∧ n < (Nat.pow 2 128 : Nat) then none
      else float
    | none => float

/-! ### Values -/

/-- Whether a tag names a type of the language itself. -/
def isCoreTag (name : String) : Bool :=
  name.toList.take 2 == ['!', '!'] && name.length > 2

/-- The value of a scalar. A tag may name a type; the other types of the language are read as texts,
and types of its users are refused. -/
def scalarValue? (tag : Option String) (style : Style) (text : String) : Option Json :=
  let cs := text.toList
  match tag.filter (· != "!") with
  | none => if style = .plain then plainValue? text else some (.string text)
  | some "!!null" => if isNull cs then some .null else none
  | some "!!bool" => (truth? cs).map .bool
  | some "!!int" => do
    let n ← integer? cs
    if fitsWord n then some (.number (.int n)) else none
  | some "!!float" => (float? cs).map fun x => .number (.float x)
  | some name => if isCoreTag name then some (.string text) else none

/-- Whether the tag of a collection leaves it what it is. -/
def isPlainTag (tag : Option String) : Bool :=
  tag.all fun name => name == "!" || isCoreTag name

/-- The text of a scalar, whatever its type. -/
def Node.text? : Node → Option String
  | .scalar _ _ text => some text
  | _ => none

mutual
/-- The JSON value of a tree. A repeated key keeps its first place and takes its last value. -/
def Node.toJson? : Node → Option Json
  | .scalar tag style text => scalarValue? tag style text
  | .sequence tag xs => if isPlainTag tag then (itemsToJson? xs).map .array else none
  | .mapping tag es =>
    if isPlainTag tag then (entriesToJson? es).map fun fs => .object (Fields.ofList fs) else none

/-- The values of items. -/
def itemsToJson? : List Node → Option (List Json)
  | [] => some []
  | x :: xs => do
    let v ← x.toJson?
    let vs ← itemsToJson? xs
    return v :: vs

/-- The fields of entries. -/
def entriesToJson? : List (Node × Node) → Option (List (String × Json))
  | [] => some []
  | (k, x) :: es => do
    let key ← k.text?
    let v ← x.toJson?
    let fs ← entriesToJson? es
    return (key, v) :: fs
end

/-! ### Records -/

/-- Whether a node is left out. -/
def Node.isLeftOut : Node → Bool
  | .scalar _ .plain "" => true
  | _ => false

/-- The value under a name, unless the name is repeated. -/
def fieldOnce? (entries : List (String × Node)) (name : String) : Option (Option Node) :=
  match entries.filter fun entry => entry.1 == name with
  | [] => some none
  | [entry] => some (some entry.2)
  | _ => none

/-- A YAML record is a mapping that does not repeat a field. A text may be any scalar, and where a
list or a record is left out it is empty. -/
def format : DataFormat Node where
  string? := Node.text?
  list? node :=
    match node with
    | .sequence _ xs => some xs
    | node => if node.isLeftOut then some [] else none
  isNull node :=
    match node with
    | .scalar _ .plain text => isNull text.toList
    | _ => false
  record? strict names node :=
    match node with
    | .mapping _ es => do
      let entries ← es.mapM fun (k, v) => do return (← k.text?, v)
      if strict && entries.any fun entry => !names.contains entry.1 then none
      else names.mapM (fieldOnce? entries)
    | node => if node.isLeftOut then some (names.map fun _ => none) else none

/-- The JSON value of a text. -/
def parse? (text : String) : Option Json := do
  (← Node.ofText? text).toJson?

end Yaml

end ModularTemplates
