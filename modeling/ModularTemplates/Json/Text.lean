import ModularTemplates.Json.Basic
import ModularTemplates.Number.Decimal

/-!
# JSON text

A value is written compactly, or indented by two blanks a level with empty containers closed at
once. Only quotes, backslashes and control characters are escaped.
-/

namespace ModularTemplates

/-- The lower-case hexadecimal digit of a number below sixteen. -/
def hexDigit (n : Nat) : Char :=
  Nat.digitChar n

/-- A float in JSON text carries the sign of a positive exponent. -/
def Json.floatFormat : FloatFormat := ⟨true⟩

/-- The text of a number. -/
def Number.text : Number → String
  | .int n => toString n
  | .float x => x.text Json.floatFormat

namespace Json

/-- The escaped form of a character inside quotes. -/
def escapeChar (c : Char) : List Char :=
  match c with
  | '"' => ['\\', '"']
  | '\\' => ['\\', '\\']
  | '\n' => ['\\', 'n']
  | '\r' => ['\\', 'r']
  | '\t' => ['\\', 't']
  | '\x08' => ['\\', 'b']
  | '\x0c' => ['\\', 'f']
  | c =>
    if c.toNat < 0x20 then ['\\', 'u', '0', '0', hexDigit (c.toNat / 16), hexDigit (c.toNat % 16)]
    else [c]

/-- A string in quotes. -/
def quote (s : String) : String :=
  String.ofList ('"' :: s.toList.flatMap escapeChar ++ ['"'])

mutual
/-- The compact text of a value. -/
def text : Json → String
  | .null => "null"
  | .bool b => if b then "true" else "false"
  | .number n => n.text
  | .string s => quote s
  | .array xs => "[" ++ itemsText xs ++ "]"
  | .object fs => "\x7b" ++ fieldsText fs ++ "\x7d"

/-- Items separated by commas. -/
def itemsText : List Json → String
  | [] => ""
  | [x] => text x
  | x :: y :: xs => text x ++ "," ++ itemsText (y :: xs)

/-- Fields separated by commas. -/
def fieldsText : List (String × Json) → String
  | [] => ""
  | [(k, v)] => quote k ++ ":" ++ text v
  | (k, v) :: field :: fs => quote k ++ ":" ++ text v ++ "," ++ fieldsText (field :: fs)
end

/-- A line break followed by the blanks of a level. -/
def newLine (level : Nat) : String :=
  String.ofList ('\n' :: List.replicate (2 * level) ' ')

mutual
/-- The indented text of a value that starts at a level. -/
def indentedAt (level : Nat) : Json → String
  | .array (x :: xs) =>
    "[" ++ newLine (level + 1) ++ indentedItems (level + 1) (x :: xs) ++ newLine level ++ "]"
  | .object (f :: fs) =>
    "\x7b" ++ newLine (level + 1) ++ indentedFields (level + 1) (f :: fs) ++ newLine level ++ "\x7d"
  | .array [] => "[]"
  | .object [] => "\x7b\x7d"
  | .null => "null"
  | .bool b => if b then "true" else "false"
  | .number n => n.text
  | .string s => quote s

/-- Items on lines of their own. -/
def indentedItems (level : Nat) : List Json → String
  | [] => ""
  | [x] => indentedAt level x
  | x :: y :: xs => indentedAt level x ++ "," ++ newLine level ++ indentedItems level (y :: xs)

/-- Fields on lines of their own. -/
def indentedFields (level : Nat) : List (String × Json) → String
  | [] => ""
  | [(k, v)] => quote k ++ ": " ++ indentedAt level v
  | (k, v) :: field :: fs =>
    quote k ++ ": " ++ indentedAt level v ++ "," ++ newLine level ++
      indentedFields level (field :: fs)
end

/-- The indented text of a value. -/
def indented (v : Json) : String :=
  indentedAt 0 v

end Json

end ModularTemplates
