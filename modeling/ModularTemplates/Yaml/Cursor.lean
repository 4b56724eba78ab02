/-!
# Positions in YAML text

A cursor holds the characters still to be read and the place of the next one. Line breaks are made
uniform before reading, so that a break is one character.
-/

namespace ModularTemplates

namespace Yaml

/-- Whether a character ends a line. -/
def isBreak (c : Char) : Bool :=
  c == '\n' || c == '\u2028' || c == '\u2029'

/-- Whether a character separates words within a line. -/
def isBlank (c : Char) : Bool :=
  c == ' ' || c == '\t'

/-- Whether the text is at the end of a word: at a blank, a break or its own end. -/
def endsWord : List Char → Bool
  | [] => true
  | c :: _ => isBlank c || isBreak c

/-- Whether the text is at the end of a line. -/
def endsLine : List Char → Bool
  | [] => true
  | c :: _ => isBreak c

/-- Whether a character may occur in a text at all. -/
def isAllowed (c : Char) : Bool :=
  let n := c.toNat
  n == 0x09 || n == 0x0A || n == 0x0D || n == 0x85 || (0x20 ≤ n && n ≤ 0x7E) ||
    (0xA0 ≤ n && n ≤ 0xD7FF) || (0xE000 ≤ n && n ≤ 0xFFFD) || 0x10000 ≤ n

/-- Write all breaks of a line by one character; line and paragraph separators stay as they are. -/
def uniformBreaks : List Char → List Char
  | '\r' :: '\n' :: cs => '\n' :: uniformBreaks cs
  | '\r' :: cs => '\n' :: uniformBreaks cs
  | '\u0085' :: cs => '\n' :: uniformBreaks cs
  | c :: cs => c :: uniformBreaks cs
  | [] => []

/-- A place in a text. -/
structure Cursor where
  rest : List Char
  line : Nat
  column : Nat
  offset : Nat

namespace Cursor

/-- The start of a text. -/
def start (cs : List Char) : Cursor :=
  ⟨cs, 0, 0, 0⟩

/-- Pass a number of characters of a line. -/
def advance (c : Cursor) (n : Nat) : Cursor :=
  { c with rest := c.rest.drop n, column := c.column + n, offset := c.offset + n }

/-- Pass a line break. -/
def nextLine (c : Cursor) : Cursor :=
  ⟨c.rest.drop 1, c.line + 1, 0, c.offset + 1⟩

/-- Pass the characters of a line that satisfy a condition. -/
def passWhile (c : Cursor) (p : Char → Bool) : Cursor :=
  c.advance (c.rest.takeWhile p).length

/-- Whether three marks, with a word's end behind them, stand at the start of the line. -/
def atMarks (c : Cursor) (mark : Char) : Bool :=
  c.column == 0 && c.rest.take 3 == [mark, mark, mark] && endsWord (c.rest.drop 3)

/-- Whether the cursor is at a mark between documents. -/
def atDocumentMark (c : Cursor) : Bool :=
  c.atMarks '-' || c.atMarks '.'

end Cursor

end Yaml

end ModularTemplates
