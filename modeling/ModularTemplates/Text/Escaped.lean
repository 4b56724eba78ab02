import ModularTemplates.Text.Printable

/-!
# Escaped text

Text of unknown content is shown in quotes with everything escaped that would not be seen as itself:
quotes, backslashes, control characters, combining marks and characters that are not printable.
-/

namespace ModularTemplates

namespace Text

/-- The escape with the code point of a character. -/
def codePointEscape (c : Char) : List Char :=
  ['\\', 'u', '{'] ++ Nat.toDigits 16 c.toNat ++ ['}']

/-- The visible form of a character. -/
def visibleChar (c : Char) : List Char :=
  match c with
  | '\x00' => ['\\', '0']
  | '\t' => ['\\', 't']
  | '\n' => ['\\', 'n']
  | '\r' => ['\\', 'r']
  | '"' => ['\\', '"']
  | '\\' => ['\\', '\\']
  | c => if isCombining c || !isPrintable c then codePointEscape c else [c]

/-- A text in quotes with all its characters visible. -/
def visible (s : String) : String :=
  String.ofList ('"' :: s.toList.flatMap visibleChar ++ ['"'])

end Text

end ModularTemplates
