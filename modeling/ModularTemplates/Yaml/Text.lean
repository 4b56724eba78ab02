import ModularTemplates.Json.Text
import ModularTemplates.Yaml.ScalarText

/-!
# YAML text

A value is written as a block. The entries of a mapping are indented by two blanks a level,
and the items of a sequence stand below the key that they belong to. Empty collections are
written in brackets.
-/

namespace ModularTemplates

namespace Yaml

/-- A positive exponent of a float has no sign. -/
def floatFormat : FloatFormat := ⟨false⟩

/-- A line of its own. A text that ends with a break is one already. -/
def line (cs : List Char) : List Char :=
  if cs.getLast?.any isBreak then cs else cs ++ ['\n']

/-- The written form of a value without members. -/
def leafText (indent : Nat) : Json → List Char
  | .null => "null".toList
  | .bool b => (if b then "true" else "false").toList
  | .number (.int n) => (toString n).toList
  | .number (.float x) => (x.text floatFormat).toList
  | .string s => textOf indent s
  | .array _ => ['[', ']']
  | .object _ => ['{', '}']

/-- The greatest number of bytes in a key that stands in front of a colon. -/
def simpleKeyLimit : Nat := 128

/-- Whether a key can stand in front of a colon. -/
def isSimpleKey (key : String) : Bool :=
  key.utf8ByteSize ≤ simpleKeyLimit && !key.toList.any isBreak

/-- Blanks. -/
def blanks (n : Nat) : List Char :=
  List.replicate n ' '

mutual
/-- A value behind a mark, whose place indents what follows. -/
def behindMark (indent : Nat) : Json → List Char
  | .array (x :: xs) => ' ' :: itemsText (indent + 2) [] (x :: xs)
  | .object (f :: fs) => ' ' :: entriesText (indent + 2) [] (f :: fs)
  | v => ' ' :: line (leafText indent v)

/-- A value behind a key and its colon. -/
def behindKey (indent : Nat) : Json → List Char
  | .array (x :: xs) => '\n' :: itemsText indent (blanks indent) (x :: xs)
  | .object (f :: fs) => '\n' :: entriesText (indent + 2) (blanks (indent + 2)) (f :: fs)
  | v => ' ' :: line (leafText indent v)

/-- The items of a sequence. `lead` stands in front of the first one. -/
def itemsText (indent : Nat) (lead : List Char) : List Json → List Char
  | [] => []
  | x :: xs => lead ++ '-' :: behindMark indent x ++ itemsText indent (blanks indent) xs

/-- The entries of a mapping. `lead` stands in front of the first one. -/
def entriesText (indent : Nat) (lead : List Char) : List (String × Json) → List Char
  | [] => []
  | (key, v) :: fs =>
    lead ++
      (if isSimpleKey key then textOf indent key ++ ':' :: behindKey indent v
      else '?' :: ' ' :: line (textOf indent key) ++ blanks indent ++ ':' :: behindMark indent v) ++
      entriesText indent (blanks indent) fs
end

/-- The text of a value. -/
def text (v : Json) : String :=
  String.ofList <| match v with
    | .array (x :: xs) => itemsText 0 [] (x :: xs)
    | .object (f :: fs) => entriesText 0 [] (f :: fs)
    | v => line (leafText 0 v)

end Yaml

end ModularTemplates
