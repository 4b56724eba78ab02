import ModularTemplates.Yaml.Value

/-!
# Written YAML scalars

A text is written plain where it is then read as the same text. Otherwise it is put in single
quotes, or in double quotes if it has characters that must be escaped. A text of several lines is
written as a literal block.
-/

namespace ModularTemplates

namespace Yaml

/-- The forms of a written text. -/
inductive Form where
  | plain
  | singleQuoted
  | doubleQuoted
  | literal
deriving DecidableEq, Repr

/-- Words that some readers take for truth values. -/
def truthWords : List String :=
  ["y", "Y", "yes", "Yes", "YES", "n", "N", "no", "No", "NO", "on", "On", "ON", "off", "Off", "OFF"]

/-- Whether a plain scalar is a text for every reader. -/
def readsAsText (text : String) : Bool :=
  !hasLeadingZero text.toList && !truthWords.contains text &&
    plainValue? text == some (.string text)

/-! ### What a text admits -/

/-- Whether a character is written as it is. -/
def isPrintable (c : Char) : Bool :=
  let n := c.toNat
  c == '\n' || (0x20 ≤ n && n ≤ 0x7E) ||
    (0xA0 ≤ n && n != 0xFEFF && n != 0xFFFE && n != 0xFFFF)

/-- Whether two kinds of characters follow each other somewhere. -/
def hasAdjacent (p q : Char → Bool) : List Char → Bool
  | a :: b :: cs => (p a && q b) || hasAdjacent p q (b :: cs)
  | _ => false

/-- Whether a line ends with a blank, or some character can not be written as it is. -/
def needsEscapes (cs : List Char) : Bool :=
  !cs.all isPrintable || hasAdjacent (· == ' ') isBreak cs

/-- Whether a text can stand in a literal block. -/
def admitsLiteral (cs : List Char) : Bool :=
  !needsEscapes cs && cs.getLast? != some ' '

/-- Whether a text can stand in single quotes. -/
def admitsSingleQuotes (cs : List Char) : Bool :=
  !needsEscapes cs && !hasAdjacent isBreak (· == ' ') cs

/-- Whether the beginning of a text would be taken for a mark. -/
def beginsWithMark (cs : List Char) : Bool :=
  cs.take 3 == ['-', '-', '-'] || cs.take 3 == ['.', '.', '.'] ||
    match cs with
    | [] => false
    | c :: rest =>
      "\x60#,[]\x7b\x7d&*!|>'\"%@".toList.contains c || ("?-".toList.contains c && endsWord rest)

/-- Whether a colon or a comment would be found in a text. -/
def containsMark : List Char → Bool
  | [] => false
  | ':' :: cs => endsWord cs || containsMark cs
  | ' ' :: '#' :: _ => true
  | _ :: cs => containsMark cs

/-- Whether a text can stand plain. -/
def admitsPlain (cs : List Char) : Bool :=
  !needsEscapes cs && !cs.any isBreak && cs.head? != some ' ' && cs.getLast? != some ' ' &&
    !beginsWithMark cs && !containsMark cs

/-- The form in which a text is written. -/
def Form.of (text : String) : Form :=
  let cs := text.toList
  if cs.contains '\n' then (if admitsLiteral cs then .literal else .doubleQuoted)
  else if readsAsText text && admitsPlain cs then .plain
  else if admitsSingleQuotes cs then .singleQuoted
  else .doubleQuoted

/-! ### Writing -/

/-- Upper-case hexadecimal digits of a number. -/
def hexDigits (width n : Nat) : List Char :=
  (List.range width).reverse.map fun k => (Nat.digitChar (n / Nat.pow 16 k % 16)).toUpper

/-- A character inside double quotes. -/
def escaped (c : Char) : List Char :=
  match c with
  | '"' => ['\\', '"']
  | '\\' => ['\\', '\\']
  | '\x00' => ['\\', '0']
  | '\x07' => ['\\', 'a']
  | '\x08' => ['\\', 'b']
  | '\t' => ['\\', 't']
  | '\n' => ['\\', 'n']
  | '\x0b' => ['\\', 'v']
  | '\x0c' => ['\\', 'f']
  | '\r' => ['\\', 'r']
  | '\x1b' => ['\\', 'e']
  | '\u0085' => ['\\', 'N']
  | '\u2028' => ['\\', 'L']
  | '\u2029' => ['\\', 'P']
  | c =>
    if isPrintable c then [c]
    else if c.toNat ≤ 0xFF then '\\' :: 'x' :: hexDigits 2 c.toNat
    else if c.toNat ≤ 0xFFFF then '\\' :: 'u' :: hexDigits 4 c.toNat
    else '\\' :: 'U' :: hexDigits 8 c.toNat

/-- The inside of single quotes. A line goes on behind the indentation. -/
def insideSingleQuotes (indentation : List Char) : (afterBreak : Bool) → List Char → List Char
  | true, [] => indentation
  | false, [] => []
  | afterBreak, c :: cs =>
    if isBreak c then c :: insideSingleQuotes indentation true cs
    else
      (if afterBreak then indentation else []) ++ (if c = '\'' then [c, c] else [c]) ++
        insideSingleQuotes indentation false cs

/-- The lines of a literal block behind their indentation. Empty lines have none. -/
def literalLines (indentation : List Char) : (afterBreak : Bool) → List Char → List Char
  | _, [] => []
  | afterBreak, c :: cs =>
    if isBreak c then c :: literalLines indentation true cs
    else (if afterBreak then indentation else []) ++ c :: literalLines indentation false cs

/-- The marks behind the indicator of a literal block: the width of its indentation if that can not
be seen, and what becomes of the breaks at its end. -/
def literalHints (cs : List Char) : List Char :=
  let width := if cs.head?.any fun c => c == ' ' || isBreak c then ['2'] else []
  let chomping := match cs.reverse with
    | [] => ['-']
    | [c] => if isBreak c then ['+'] else ['-']
    | c :: d :: _ => if !isBreak c then ['-'] else if isBreak d then ['+'] else []
  width ++ chomping

/-- A text in a form, inside a collection of some indentation. -/
def Form.write (indent : Nat) (cs : List Char) : Form → List Char
  | .plain => cs
  | .singleQuoted => '\'' :: insideSingleQuotes (List.replicate (indent + 2) ' ') false cs ++ ['\'']
  | .doubleQuoted => '"' :: cs.flatMap escaped ++ ['"']
  | .literal =>
    '|' :: literalHints cs ++ '\n' :: literalLines (List.replicate (indent + 2) ' ') true cs

/-- A written text. -/
def textOf (indent : Nat) (text : String) : List Char :=
  (Form.of text).write indent text.toList

end Yaml

end ModularTemplates
