import ModularTemplates.Yaml.Scalar

/-!
# YAML tokens

A text is cut into tokens. Indentation opens and closes block collections, and a word that turns
out to stand before a colon is marked as a key afterwards: until then it is a possible key.
Directives are not read.
-/

namespace ModularTemplates

namespace Yaml

/-- How a scalar is written. -/
inductive Style where
  | plain
  | quoted
deriving DecidableEq, Repr

/-- A token. -/
inductive Token where
  | documentStart
  | documentEnd
  | blockSequenceStart
  | blockMappingStart
  | blockEnd
  | flowSequenceStart
  | flowSequenceEnd
  | flowMappingStart
  | flowMappingEnd
  | blockEntry
  | flowEntry
  | key
  | value
  | «alias» (name : String)
  | anchor (name : String)
  | tag (name : String)
  | scalar (style : Style) (text : String)
deriving DecidableEq, Repr

/-- A place where a key may turn out to begin. -/
structure PossibleKey where
  /-- a block mapping can not go on without it -/
  required : Bool
  /-- the number of tokens before it -/
  position : Nat
  cursor : Cursor

/-- A text that is cut so far. -/
structure Lexer where
  cursor : Cursor
  /-- the tokens so far, the latest first -/
  tokens : List Token
  count : Nat
  /-- the column of the innermost block collection, `-1` outside of all -/
  indent : Int
  /-- the columns of the block collections around it -/
  outer : List Int
  /-- the possible key inside the innermost brackets -/
  possibleKey : Option PossibleKey
  /-- the possible keys around these brackets and all others -/
  outerKeys : List (Option PossibleKey)
  /-- whether a key may begin here -/
  keyAllowed : Bool

namespace Lexer

/-- Nothing is cut yet. -/
def start (cs : List Char) : Lexer :=
  { cursor := .start cs, tokens := [], count := 0, indent := -1, outer := [], possibleKey := none,
    outerKeys := [], keyAllowed := true }

/-- Whether the cursor is inside brackets. -/
def inFlow (l : Lexer) : Bool :=
  !l.outerKeys.isEmpty

/-- Add a token. -/
def emit (l : Lexer) (t : Token) : Lexer :=
  { l with tokens := t :: l.tokens, count := l.count + 1 }

/-- Add a token behind a number of tokens. -/
def emitAt (l : Lexer) (position : Nat) (t : Token) : Lexer :=
  let later := l.count - position
  { l with tokens := l.tokens.take later ++ t :: l.tokens.drop later, count := l.count + 1 }

/-- Pass characters. -/
def advance (l : Lexer) (n : Nat) : Lexer :=
  { l with cursor := l.cursor.advance n }

/-- Allow or forbid keys. -/
def allowKey (l : Lexer) (allowed : Bool) : Lexer :=
  { l with keyAllowed := allowed }

/-! ### Indentation -/

/-- Open a block collection at a column if it is indented; its start comes behind a
number of tokens. -/
def openBlock (l : Lexer) (column position : Nat) (t : Token) : Lexer :=
  if !l.inFlow && l.indent < column then
    { l.emitAt position t with indent := column, outer := l.indent :: l.outer }
  else l

/-- Close the block collections that are indented further than a column. -/
def closeBlocks (column : Int) : List Int → Lexer → Lexer
  | [], l => l
  | i :: outer, l =>
    if column < l.indent then
      closeBlocks column outer { l.emit .blockEnd with indent := i, outer }
    else l

/-- Close block collections outside of brackets. -/
def unroll (l : Lexer) (column : Int) : Lexer :=
  if l.inFlow then l else closeBlocks column l.outer l

/-! ### Possible keys -/

/-- Give up the possible key, unless it is required. -/
def dropKey (l : Lexer) : Option Lexer :=
  if l.possibleKey.any (·.required) then none else some { l with possibleKey := none }

/-- Note that a key may begin here. -/
def noteKey (l : Lexer) : Option Lexer :=
  if l.keyAllowed then do
    let required := !l.inFlow && l.indent == l.cursor.column
    return { ← l.dropKey with possibleKey := some ⟨required, l.count, l.cursor⟩ }
  else some l

/-- A key must be on one line and not too far away. Others are given up, unless they are
required. -/
def isStale (l : Lexer) (key : PossibleKey) : Bool :=
  key.cursor.line < l.cursor.line || key.cursor.offset + 1024 < l.cursor.offset

/-- Give up all stale keys. -/
def dropStaleKeys (l : Lexer) : Option Lexer := do
  let fresh (key : Option PossibleKey) : Option (Option PossibleKey) :=
    match key with
    | some k => if l.isStale k then (if k.required then none else some none) else some key
    | none => some none
  return { l with possibleKey := ← fresh l.possibleKey, outerKeys := ← l.outerKeys.mapM fresh }

/-! ### Tokens -/

/-- Pass blanks, comments and line breaks. Tabs are passed only where no key may begin. -/
def passSpace : (fuel : Nat) → Lexer → Lexer
  | 0, l => l
  | fuel + 1, l =>
    let l := { l with cursor := l.cursor.passWhile fun c =>
      c == ' ' || (c == '\t' && (l.inFlow || !l.keyAllowed)) }
    let l := if l.cursor.rest.head? == some '#' then
        { l with cursor := l.cursor.passWhile (!isBreak ·) }
      else l
    match l.cursor.rest with
    | c :: _ =>
      if isBreak c then
        passSpace fuel
          { l with cursor := l.cursor.nextLine, keyAllowed := l.keyAllowed || !l.inFlow }
      else l
    | [] => l

/-- A mark between documents. -/
def documentMark (l : Lexer) (t : Token) : Option Lexer := do
  return (((← (l.unroll (-1)).dropKey).allowKey false).emit t).advance 3

/-- An opening bracket. -/
def openBracket (l : Lexer) (t : Token) : Option Lexer := do
  let l ← l.noteKey
  return (({ l with
    possibleKey := none,
    outerKeys := l.possibleKey :: l.outerKeys }.allowKey true).emit t).advance 1

/-- A closing bracket. Outside of brackets it is a token as well. -/
def closeBracket (l : Lexer) (t : Token) : Option Lexer := do
  let l ← l.dropKey
  let l := match l.outerKeys with
    | key :: outer => { l with possibleKey := key, outerKeys := outer }
    | [] => l
  return ((l.allowKey false).emit t).advance 1

/-- A comma inside brackets. -/
def comma (l : Lexer) : Option Lexer := do
  return (((← l.dropKey).allowKey true).emit .flowEntry).advance 1

/-- A dash before an item of a block sequence. -/
def dash (l : Lexer) : Option Lexer := do
  if !l.inFlow && !l.keyAllowed then none
  else
    let l := l.openBlock l.cursor.column l.count .blockSequenceStart
    return (((← l.dropKey).allowKey true).emit .blockEntry).advance 1

/-- A question mark before a key. -/
def questionMark (l : Lexer) : Option Lexer := do
  if !l.inFlow && !l.keyAllowed then none
  else
    let l := l.openBlock l.cursor.column l.count .blockMappingStart
    return (((← l.dropKey).allowKey (!l.inFlow)).emit .key).advance 1

/-- A colon before a value. -/
def colon (l : Lexer) : Option Lexer :=
  match l.possibleKey with
  | some key =>
    let l :=
      (l.emitAt key.position .key).openBlock key.cursor.column key.position .blockMappingStart
    some ((({ l with possibleKey := none }.allowKey false).emit .value).advance 1)
  | none =>
    if !l.inFlow && !l.keyAllowed then none
    else
      let l := l.openBlock l.cursor.column l.count .blockMappingStart
      some (((l.allowKey (!l.inFlow)).emit .value).advance 1)

/-- The characters of the name of an anchor. -/
def isNameChar (c : Char) : Bool :=
  c.isAlphanum || c == '_' || c == '-'

/-- An anchor or an alias. -/
def named (l : Lexer) (t : String → Token) : Option Lexer := do
  let l ← l.noteKey
  let name := (l.cursor.rest.drop 1).takeWhile isNameChar
  let rest := l.cursor.rest.drop (name.length + 1)
  let ended := endsWord rest || (rest.head?.any fun c => "?:,]\x7d%@\x60".toList.contains c)
  if name.isEmpty || !ended then none
  else some (((l.allowKey false).emit (t (String.ofList name))).advance (name.length + 1))

/-- A tag. -/
def tagged (l : Lexer) : Option Lexer := do
  let l ← l.noteKey
  let name := l.cursor.rest.takeWhile fun c => !isBlank c && !isBreak c && !isFlowMark c
  let rest := l.cursor.rest.drop name.length
  if endsWord rest || (l.inFlow && rest.head? == some ',') then
    some (((l.allowKey false).emit (.tag (String.ofList name))).advance name.length)
  else none

/-- A block scalar. -/
def block (l : Lexer) (literal : Bool) : Option Lexer := do
  let l := (← l.dropKey).allowKey true
  let (text, cursor) ← blockScalar literal l.indent l.cursor
  return { l.emit (.scalar .quoted (String.ofList text)) with cursor }

/-- A scalar in quotes. -/
def quoted (l : Lexer) (double : Bool) : Option Lexer := do
  let l := (← l.noteKey).allowKey false
  let (text, cursor) ← quotedFrom double (l.cursor.rest.length + 1) (l.cursor.advance 1) []
  return { l.emit (.scalar .quoted (String.ofList text)) with cursor }

/-- A plain scalar. Behind its last line break a key may begin again. -/
def plain (l : Lexer) : Option Lexer := do
  let l := (← l.noteKey).allowKey false
  let (text, broken, cursor) ←
    plainFrom (l.indent + 1).toNat l.inFlow (l.cursor.rest.length + 1) l.cursor [] (.blanks [])
  return { (l.allowKey broken).emit (.scalar .plain (String.ofList text)) with cursor }

/-- Whether a plain scalar can begin with the characters. -/
def beginsPlain (inFlow : Bool) : List Char → Bool
  | [] => false
  | c :: cs =>
    let marks := "\x60-?:,[]\x7b\x7d#&*!|>'\"%@".toList
    (!isBlank c && !isBreak c && !marks.contains c) ||
      (c == '-' && !(cs.head?.any isBlank)) ||
      (!inFlow && (c == '?' || c == ':') && !endsWord cs)

/-- The next token. -/
def next (l : Lexer) : Option Lexer :=
  let cs := l.cursor.rest
  let l := l.unroll l.cursor.column
  if l.cursor.column = 0 ∧ cs.head? = some '%' then none
  else if l.cursor.atMarks '-' then l.documentMark .documentStart
  else if l.cursor.atMarks '.' then l.documentMark .documentEnd
  else
    match cs with
    | [] => some l
    | '[' :: _ => l.openBracket .flowSequenceStart
    | '{' :: _ => l.openBracket .flowMappingStart
    | ']' :: _ => l.closeBracket .flowSequenceEnd
    | '}' :: _ => l.closeBracket .flowMappingEnd
    | ',' :: _ => l.comma
    | '*' :: _ => l.named .alias
    | '&' :: _ => l.named .anchor
    | '!' :: _ => l.tagged
    | '\'' :: _ => l.quoted false
    | '"' :: _ => l.quoted true
    | c :: rest =>
      if c = '-' ∧ endsWord rest then l.dash
      else if c = '?' ∧ (l.inFlow ∨ endsWord rest) then l.questionMark
      else if c = ':' ∧ (l.inFlow ∨ endsWord rest) then l.colon
      else if c = '|' ∧ !l.inFlow then l.block true
      else if c = '>' ∧ !l.inFlow then l.block false
      else if beginsPlain l.inFlow cs then l.plain
      else none

/-- The tokens of the text, up to its end. Every token but the ends of blocks takes up a
character. -/
def run : (fuel : Nat) → Lexer → Option (List Token)
  | 0, _ => none
  | fuel + 1, l => do
    let l ← (passSpace (l.cursor.rest.length + 1) l).dropStaleKeys
    if l.cursor.rest.isEmpty then
      let l ← (l.unroll (-1)).dropKey
      return l.tokens.reverse
    else run fuel (← l.next)

end Lexer

/-- The tokens of a text. -/
def Token.ofText? (text : String) : Option (List Token) :=
  let cs := match text.toList with
    | '\uFEFF' :: cs => cs
    | cs => cs
  if cs.all isAllowed then Lexer.run (cs.length + 1) (.start (uniformBreaks cs)) else none

end Yaml

end ModularTemplates
