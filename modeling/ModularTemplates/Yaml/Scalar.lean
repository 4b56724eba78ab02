import ModularTemplates.Yaml.Cursor

/-!
# Scalar text

Scalars are written plain, in quotes, or as indented blocks. In plain and quoted scalars line breaks
are folded: one break is a blank, and of several breaks the first one is dropped. Every function
here reads a scalar at a cursor and gives its text and the cursor behind it.
-/

namespace ModularTemplates

namespace Yaml

/-! ### Gaps -/

/-- What stands between two words of a scalar: blanks, or line breaks of which the first
is told apart. -/
inductive Gap where
  | blanks (cs : List Char)
  | breaks (first : Option Char) (more : List Char)

namespace Gap

/-- The text that a gap stands for. -/
def folded : Gap → List Char
  | .blanks cs => cs
  | .breaks (some '\n') [] => [' ']
  | .breaks (some '\n') more => more
  | .breaks (some c) more => c :: more
  | .breaks none more => more

/-- Whether the gap contains a line break. -/
def isBroken : Gap → Bool
  | .blanks _ => false
  | .breaks _ _ => true

end Gap

/-- Read blanks and breaks. Behind a break no tab may stand left of the indentation. -/
def scanGap (indent : Nat) : (fuel : Nat) → Cursor → Gap → Option (Gap × Cursor)
  | 0, _, _ => none
  | fuel + 1, c, gap =>
    match c.rest with
    | [] => some (gap, c)
    | d :: _ =>
      if isBlank d then
        match gap with
        | .blanks cs => scanGap indent fuel (c.advance 1) (.blanks (cs ++ [d]))
        | gap =>
          if d = '\t' ∧ c.column < indent then none
          else scanGap indent fuel (c.advance 1) gap
      else if isBreak d then
        scanGap indent fuel c.nextLine (match gap with
          | .blanks _ => .breaks (some d) []
          | .breaks first more => .breaks first (more ++ [d]))
      else some (gap, c)

/-! ### Plain scalars -/

/-- The characters that end a plain scalar inside brackets. -/
def isFlowMark (c : Char) : Bool :=
  c == ',' || c == '[' || c == ']' || c == '{' || c == '}'

/-- The longest run of characters of a plain scalar. Inside brackets a colon must not
touch a mark. -/
def plainRun (inFlow : Bool) : List Char → Option (List Char)
  | [] => some []
  | c :: cs =>
    if isBlank c || isBreak c then some []
    else if inFlow && c == ':' && (cs.head?.any fun d => isFlowMark d || d == '?') then none
    else if (c == ':' && endsWord cs) || (inFlow && isFlowMark c) then some []
    else (plainRun inFlow cs).map (c :: ·)

/-- A plain scalar. The flag tells whether it ends behind a line break. -/
def plainFrom (indent : Nat) (inFlow : Bool) :
    (fuel : Nat) → Cursor → List Char → Gap → Option (List Char × Bool × Cursor)
  | 0, _, _, _ => none
  | fuel + 1, c, text, gap =>
    if c.atDocumentMark || c.rest.head? == some '#' then some (text, gap.isBroken, c)
    else do
      let run ← plainRun inFlow c.rest
      let (text, gap) :=
        if run.isEmpty then (text, gap) else (text ++ gap.folded ++ run, .blanks [])
      let c := c.advance run.length
      match c.rest with
      | [] => some (text, gap.isBroken, c)
      | d :: _ =>
        if isBlank d || isBreak d then
          let (gap, c) ← scanGap indent (c.rest.length + 1) c gap
          if !inFlow && c.column < indent then some (text, gap.isBroken, c)
          else plainFrom indent inFlow fuel c text gap
        else some (text, gap.isBroken, c)

/-! ### Quoted scalars -/

/-- The value of a hexadecimal digit. -/
def hexValue? (c : Char) : Option Nat :=
  if '0' ≤ c ∧ c ≤ '9' then some (c.toNat - '0'.toNat)
  else if 'a' ≤ c ∧ c ≤ 'f' then some (c.toNat - 'a'.toNat + 10)
  else if 'A' ≤ c ∧ c ≤ 'F' then some (c.toNat - 'A'.toNat + 10)
  else none

/-- The character of a code point that is written with a number of hexadecimal digits. -/
def codePoint? (count : Nat) (cs : List Char) : Option Char := do
  let digits ← (cs.take count).mapM hexValue?
  if digits.length < count then none
  else
    let n := digits.foldl (fun n d => 16 * n + d) 0
    if h : n.isValidChar then some (Char.ofNatAux n h) else none

/-- The character that an escape stands for, and the number of characters behind the backslash. -/
def escape? : List Char → Option (Char × Nat)
  | [] => none
  | c :: cs =>
    match c with
    | '0' => some ('\x00', 1)
    | 'a' => some ('\x07', 1)
    | 'b' => some ('\x08', 1)
    | 't' | '\t' => some ('\t', 1)
    | 'n' => some ('\n', 1)
    | 'v' => some ('\x0b', 1)
    | 'f' => some ('\x0c', 1)
    | 'r' => some ('\r', 1)
    | 'e' => some ('\x1b', 1)
    | ' ' | '"' | '/' | '\\' => some (c, 1)
    | 'N' => some ('\u0085', 1)
    | '_' => some ('\u00a0', 1)
    | 'L' => some ('\u2028', 1)
    | 'P' => some ('\u2029', 1)
    | 'x' => (codePoint? 2 cs).map (·, 3)
    | 'u' => (codePoint? 4 cs).map (·, 5)
    | 'U' => (codePoint? 8 cs).map (·, 9)
    | _ => none

/-- Read the characters between two gaps of a quoted scalar. The flag tells whether they end with an
escaped line break. -/
def quotedRun (double : Bool) : (fuel : Nat) → Cursor → Option (List Char × Bool × Cursor)
  | 0, _ => none
  | fuel + 1, c =>
    match c.rest with
    | [] => none
    | d :: cs =>
      if isBlank d || isBreak d then some ([], false, c)
      else if double then
        if d = '"' then some ([], false, c)
        else if d = '\\' then
          if cs.head?.any isBreak then some ([], true, (c.advance 1).nextLine)
          else do
            let (e, n) ← escape? cs
            let (run, broken, c) ← quotedRun double fuel (c.advance (n + 1))
            return (e :: run, broken, c)
        else do
          let (run, broken, c) ← quotedRun double fuel (c.advance 1)
          return (d :: run, broken, c)
      else if d = '\'' then
        if cs.head? == some '\'' then do
          let (run, broken, c) ← quotedRun double fuel (c.advance 2)
          return (d :: run, broken, c)
        else some ([], false, c)
      else do
        let (run, broken, c) ← quotedRun double fuel (c.advance 1)
        return (d :: run, broken, c)

/-- A quoted scalar behind its opening quote. No document mark may stand in it. -/
def quotedFrom (double : Bool) :
    (fuel : Nat) → Cursor → List Char → Option (List Char × Cursor)
  | 0, _, _ => none
  | fuel + 1, c, text => do
    if c.atDocumentMark then none
    else
      let (run, broken, c) ← quotedRun double (c.rest.length + 1) c
      let text := text ++ run
      if c.rest.head? == some (if double then '"' else '\'') && !broken then
        some (text, c.advance 1)
      else
        let gap := if broken then Gap.breaks none [] else .blanks []
        let (gap, c) ← scanGap 0 (c.rest.length + 1) c gap
        quotedFrom double fuel c (text ++ gap.folded)

/-! ### Block scalars -/

/-- What becomes of the line breaks at the end of a block. -/
inductive Chomping where
  | strip
  | clip
  | keep
deriving DecidableEq

/-- The marks behind the indicator of a block: its chomping and the width of its
indentation, if given. -/
def blockHeader : List Char → Option (Chomping × Option Nat × Nat)
  | '+' :: d :: _ => if d.isDigit then widthOf d .keep 2 else some (.keep, none, 1)
  | '-' :: d :: _ => if d.isDigit then widthOf d .strip 2 else some (.strip, none, 1)
  | ['+'] => some (.keep, none, 1)
  | ['-'] => some (.strip, none, 1)
  | d :: '+' :: _ => if d.isDigit then widthOf d .keep 2 else some (.clip, none, 0)
  | d :: '-' :: _ => if d.isDigit then widthOf d .strip 2 else some (.clip, none, 0)
  | d :: _ => if d.isDigit then widthOf d .clip 1 else some (.clip, none, 0)
  | [] => some (.clip, none, 0)
where
  widthOf (d : Char) (chomping : Chomping) (length : Nat) :
    Option (Chomping × Option Nat × Nat) :=
    if d = '0' then none else some (chomping, some (d.toNat - '0'.toNat), length)

/-- Read empty lines and the indentation behind them. Without a known indentation the
widest line counts. -/
def blockBreaks (indent : Option Nat) :
    (fuel : Nat) → Cursor → (widest : Nat) → Option (List Char × Nat × Cursor)
  | 0, _, _ => none
  | fuel + 1, c, widest =>
    let blanks := (c.rest.takeWhile (· == ' ')).length
    let c := c.advance (match indent with
      | some n => min blanks (n - c.column)
      | none => blanks)
    let widest := max widest c.column
    match c.rest with
    | d :: _ =>
      if d = '\t' ∧ (indent.all fun n => c.column < n) then none
      else if isBreak d then do
        let (breaks, widest, c) ← blockBreaks indent fuel c.nextLine widest
        return (d :: breaks, widest, c)
      else some ([], widest, c)
    | [] => some ([], widest, c)

/-- The lines of a block. `before` is the break in front of the next line, `breaks` are the empty
lines behind it. -/
def blockLines (literal : Bool) (chomping : Chomping) (indent : Nat) :
    (fuel : Nat) → Cursor → (text before breaks : List Char) → (afterBlank : Bool) →
      Option (List Char × Cursor)
  | 0, _, _, _, _, _ => none
  | fuel + 1, c, text, before, breaks, afterBlank =>
    if c.column = indent ∧ !c.rest.isEmpty then do
      let blank := c.rest.head?.any isBlank
      let joined :=
        if !literal && before == ['\n'] && !afterBlank && !blank then
          if breaks.isEmpty then [' '] else breaks
        else before ++ breaks
      let line := c.rest.takeWhile (!isBreak ·)
      let c := c.advance line.length
      let before := (c.rest.take 1)
      let c := if before.isEmpty then c else c.nextLine
      let (breaks, _, c) ← blockBreaks (some indent) (c.rest.length + 1) c 0
      blockLines literal chomping indent fuel c (text ++ joined ++ line) before breaks blank
    else
      some (text ++ (match chomping with
        | .strip => []
        | .clip => before
        | .keep => before ++ breaks), c)

/-- A block scalar at its indicator, inside a block of some indentation (`-1` at the
outermost level). -/
def blockScalar (literal : Bool) (outer : Int) (c : Cursor) : Option (List Char × Cursor) := do
  let c := c.advance 1
  let (chomping, width, length) ← blockHeader c.rest
  let c := (c.advance length).passWhile isBlank
  let c := if c.rest.head? == some '#' then c.passWhile (!isBreak ·) else c
  if !endsLine c.rest then none
  else
    let c := if c.rest.isEmpty then c else c.nextLine
    let known := width.map fun n => if 0 ≤ outer then outer.toNat + n else n
    let (breaks, widest, c) ← blockBreaks known (c.rest.length + 1) c 0
    let indent := known.getD (max (max widest (outer + 1).toNat) 1)
    blockLines literal chomping indent (c.rest.length + 1) c [] [] breaks false

end Yaml

end ModularTemplates
