import ModularTemplates.Yaml.Token

/-!
# YAML trees

The tokens of a text make up one tree of scalars, sequences and mappings. A node without content is
an empty plain scalar. An alias stands for the node that bears its anchor.
-/

namespace ModularTemplates

namespace Yaml

/-- A tree. Scalars may bear a tag. -/
inductive Node where
  | scalar (tag : Option String) (style : Style) (text : String)
  | sequence (tag : Option String) (items : List Node)
  | mapping (tag : Option String) (entries : List (Node × Node))

namespace Node

/-- A node without content. -/
def empty : Node :=
  .scalar none .plain ""

/-- The nodes that bear anchors, the latest first. -/
abbrev Anchors := List (String × Node)

/-- The part of the tokens that is still to be read, with the anchors met so far. -/
structure Input where
  tokens : List Token
  anchors : Anchors

/-- The next token. -/
def Input.head? (i : Input) : Option Token :=
  i.tokens.head?

/-- Pass a token. -/
def Input.pass (i : Input) : Input :=
  { i with tokens := i.tokens.drop 1 }

/-- Where a node stands: inside brackets, in a block, or as the value of a mapping, where the items
of a sequence need no further indentation. -/
inductive Place where
  | flow
  | block
  | mappingValue
deriving DecidableEq

/-- The anchor and the tag before a node. -/
def properties (i : Input) : Option String × Option String × Input :=
  match i.tokens with
  | .anchor a :: .tag t :: _ => (some a, some t, i.pass.pass)
  | .tag t :: .anchor a :: _ => (some a, some t, i.pass.pass)
  | .anchor a :: _ => (some a, none, i.pass)
  | .tag t :: _ => (none, some t, i.pass)
  | _ => (none, none, i)

/-- A reader of nodes. -/
abbrev Parser (α : Type) := Input → Option (α × Input)

/-- A node, unless one of some tokens shows that it is left out. -/
def optionalNode (stops : List Token) (node : Parser Node) : Parser Node := fun i =>
  if i.head?.any stops.contains then some (empty, i) else node i

/-- The items of a block sequence behind its start. -/
def blockItems (node : Parser Node) : (fuel : Nat) → Parser (List Node)
  | 0, _ => none
  | fuel + 1, i =>
    match i.head? with
    | some .blockEntry => do
      let (x, i) ← optionalNode [.blockEntry, .blockEnd] node i.pass
      let (xs, i) ← blockItems node fuel i
      return (x :: xs, i)
    | some .blockEnd => some ([], i.pass)
    | _ => none

/-- The items of a sequence that is no further indented than the mapping around it. -/
def indentlessItems (node : Parser Node) : (fuel : Nat) → Parser (List Node)
  | 0, _ => none
  | fuel + 1, i =>
    match i.head? with
    | some .blockEntry => do
      let (x, i) ← optionalNode [.blockEntry, .key, .value, .blockEnd] node i.pass
      let (xs, i) ← indentlessItems node fuel i
      return (x :: xs, i)
    | _ => some ([], i)

/-- The value behind a key, which may be left out. -/
def valueAfter (stops : List Token) (node : Parser Node) : Parser Node := fun i =>
  match i.head? with
  | some .value => optionalNode stops node i.pass
  | _ => some (empty, i)

/-- The entries of a block mapping behind its start. -/
def blockEntries (node : Parser Node) : (fuel : Nat) → Parser (List (Node × Node))
  | 0, _ => none
  | fuel + 1, i =>
    match i.head? with
    | some .key => do
      let (k, i) ← optionalNode [.key, .value, .blockEnd] node i.pass
      let (v, i) ← valueAfter [.key, .value, .blockEnd] node i
      let (rest, i) ← blockEntries node fuel i
      return ((k, v) :: rest, i)
    | some .blockEnd => some ([], i.pass)
    | _ => none

/-- The comma before a member in brackets, unless it is the first one. -/
def passComma (first : Bool) (i : Input) : Option Input :=
  if first then some i
  else if i.head? = some .flowEntry then some i.pass
  else none

/-- The key of an entry among the items of a sequence in brackets. The mark behind a key that is
left out counts as part of the key. -/
def keyInSequence (node : Parser Node) : Parser Node := fun i =>
  if i.head?.any [Token.value, .flowEntry, .flowSequenceEnd].contains then
    some (empty, i.pass)
  else node i

/-- The items of a sequence in brackets. A key makes a mapping of one entry. -/
def flowItems (node : Parser Node) : (fuel : Nat) → (first : Bool) → Parser (List Node)
  | 0, _, _ => none
  | fuel + 1, first, i =>
    if i.head? = some .flowSequenceEnd then some ([], i.pass)
    else do
      let i ← passComma first i
      if i.head? = some .flowSequenceEnd then some ([], i.pass)
      else
        let (x, i) ←
          if i.head? = some .key then do
            let (k, i) ← keyInSequence node i.pass
            let (v, i) ← valueAfter [.flowEntry, .flowSequenceEnd] node i
            pure (.mapping none [(k, v)], i)
          else node i
        let (xs, i) ← flowItems node fuel false i
        return (x :: xs, i)

/-- The entries of a mapping in brackets. -/
def flowEntries (node : Parser Node) :
    (fuel : Nat) → (first : Bool) → Parser (List (Node × Node))
  | 0, _, _ => none
  | fuel + 1, first, i =>
    if i.head? = some .flowMappingEnd then some ([], i.pass)
    else do
      let i ← passComma first i
      if i.head? = some .flowMappingEnd then some ([], i.pass)
      else
        let (entry, i) ←
          if i.head? = some .key then do
            let (k, i) ← optionalNode [.value, .flowEntry, .flowMappingEnd] node i.pass
            let (v, i) ← valueAfter [.flowEntry, .flowMappingEnd] node i
            pure ((k, v), i)
          else do
            let (k, i) ← node i
            pure ((k, empty), i)
        let (rest, i) ← flowEntries node fuel false i
        return (entry :: rest, i)

/-- A node in which fewer than `depth` collections are nested. -/
def within : (depth : Nat) → Place → Parser Node
  | 0, _, _ => none
  | depth + 1, place, i =>
    match i.tokens with
    | .alias name :: _ => (i.anchors.lookup name).map (·, i.pass)
    | _ => do
      let (anchor, tag, i) := properties i
      let fuel := i.tokens.length + 1
      let block := within depth .block
      let flow := within depth .flow
      let isInFlow := place = .flow
      let canNest := depth ≠ 0
      let (node, i) ←
        match i.head? with
        | some (.scalar style text) => some (.scalar tag style text, i.pass)
        | some .flowSequenceStart => do
          guard canNest
          let (xs, i) ← flowItems flow fuel true i.pass
          pure (.sequence tag xs, i)
        | some .flowMappingStart => do
          guard canNest
          let (es, i) ← flowEntries flow fuel true i.pass
          pure (.mapping tag es, i)
        | some .blockSequenceStart => do
          guard (canNest ∧ ¬isInFlow)
          let (xs, i) ← blockItems block fuel i.pass
          pure (.sequence tag xs, i)
        | some .blockMappingStart => do
          guard (canNest ∧ ¬isInFlow)
          let (es, i) ← blockEntries (within depth .mappingValue) fuel i.pass
          pure (.mapping tag es, i)
        | next =>
          if next = some .blockEntry ∧ place = .mappingValue then do
            guard canNest
            let (xs, i) ← indentlessItems block fuel i
            pure (.sequence tag xs, i)
          else if anchor.isSome || tag.isSome then some (.scalar tag .plain "", i)
          else none
      let anchors := match anchor with
        | some name => (name, node) :: i.anchors
        | none => i.anchors
      return (node, { i with anchors })

/-- How many collections may be nested. -/
def depthLimit : Nat := 128

/-- The tree of the only document of some tokens. A document that is not there, or is empty behind
its start, is an empty node. -/
def ofTokens? (tokens : List Token) : Option Node :=
  let isEnd (tokens : List Token) := tokens.all (· == .documentEnd)
  let content (tokens : List Token) := do
    let (node, i) ← within (depthLimit + 1) .block ⟨tokens, []⟩
    if isEnd i.tokens then some node else none
  match tokens with
  | [] => some empty
  | .documentStart :: tokens => if isEnd tokens then some empty else content tokens
  | tokens => content tokens

/-- The tree of a text. -/
def ofText? (text : String) : Option Node := do
  ofTokens? (← Token.ofText? text)

end Node

end Yaml

end ModularTemplates
