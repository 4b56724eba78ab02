import ModularTemplates.Path.Lookup

/-!
# Trees of numbered nodes

All nodes of a document stand in one list, and the place of a node in this list is its number. A
node knows the numbers of its parts, the number of its parent and the segment under which the parent
holds it. Inserting a value first takes its number, then inserts its parts, and at last writes down
what the node holds. So a parent has a smaller number than its parts.
-/

namespace ModularTemplates

/-- What a node holds: the numbers of its parts, or a value that has none. -/
inductive NodeContent where
  | object (fields : Fields Nat)
  | array (items : List Nat)
  | primitive (value : Json)

/-- A node with the segment under which its parent holds it and the number of the parent. -/
structure NodeEntry where
  content : NodeContent
  parent? : Option (Segment × Nat)

namespace NodeContent

/-- The numbers of all parts. -/
def parts : NodeContent → List Nat
  | .object fields => fields.map Prod.snd
  | .array items => items
  | .primitive _ => []

/-- The number of the part under a segment. -/
def child? : NodeContent → Segment → Option Nat
  | .object fields, .key k => Fields.get? fields k
  | .array items, .index i => items[i]?
  | _, _ => none

end NodeContent

/-! ### Insertion -/

/-- A node of which nothing but the parent is known. -/
def NodeEntry.placeholder (parent? : Option (Segment × Nat)) : NodeEntry :=
  ⟨.primitive .null, parent?⟩

/-- Write down what a node holds. -/
def fillIn (entries : List NodeEntry) (id : Nat) (content : NodeContent) : List NodeEntry :=
  entries.modify id fun entry => { entry with content }

mutual
/-- Insert a value behind the nodes that are there. The result comes with the number of
the new node. -/
def insertValue (entries : List NodeEntry) (parent? : Option (Segment × Nat)) :
    Json → List NodeEntry × Nat
  | .object fs =>
    let id := entries.length
    let (entries, fields) := insertFields (entries ++ [.placeholder parent?]) id fs
    (fillIn entries id (.object fields), id)
  | .array xs =>
    let id := entries.length
    let (entries, items) := insertItems (entries ++ [.placeholder parent?]) id 0 xs
    (fillIn entries id (.array items), id)
  | v =>
    let id := entries.length
    (fillIn (entries ++ [.placeholder parent?]) id (.primitive v), id)

/-- Insert the fields of an object. -/
def insertFields (entries : List NodeEntry) (parent : Nat) :
    List (String × Json) → List NodeEntry × Fields Nat
  | [] => (entries, [])
  | (k, v) :: fs =>
    let (entries, id) := insertValue entries (some (.key k, parent)) v
    let (entries, fields) := insertFields entries parent fs
    (entries, (k, id) :: fields)

/-- Insert the items of an array from a position on. -/
def insertItems (entries : List NodeEntry) (parent i : Nat) :
    List Json → List NodeEntry × List Nat
  | [] => (entries, [])
  | x :: xs =>
    let (entries, id) := insertValue entries (some (.index i, parent)) x
    let (entries, items) := insertItems entries parent (i + 1) xs
    (entries, id :: items)
end

/-! ### The nodes of a value -/

mutual
/-- The nodes of a value, the first of which has a number. -/
def entriesFrom (parent? : Option (Segment × Nat)) (id : Nat) : Json → List NodeEntry
  | .object fs =>
    ⟨.object (fieldEntries id (id + 1) fs).1, parent?⟩ :: (fieldEntries id (id + 1) fs).2
  | .array xs =>
    ⟨.array (itemEntries id (id + 1) 0 xs).1, parent?⟩ :: (itemEntries id (id + 1) 0 xs).2
  | v => [⟨.primitive v, parent?⟩]

/-- The numbers of fields and all nodes of their values, the first of which has a number. -/
def fieldEntries (parent next : Nat) : List (String × Json) → Fields Nat × List NodeEntry
  | [] => ([], [])
  | (k, v) :: fs =>
    let part := entriesFrom (some (.key k, parent)) next v
    let rest := fieldEntries parent (next + part.length) fs
    ((k, next) :: rest.1, part ++ rest.2)

/-- The numbers of items and all their nodes, the first of which has a number. -/
def itemEntries (parent next i : Nat) : List Json → List Nat × List NodeEntry
  | [] => ([], [])
  | x :: xs =>
    let part := entriesFrom (some (.index i, parent)) next x
    let rest := itemEntries parent (next + part.length) (i + 1) xs
    (next :: rest.1, part ++ rest.2)
end

/-- The parts were inserted behind the place that is filled in. -/
theorem fillIn_append (entries rest : List NodeEntry) (parent? : Option (Segment × Nat))
    (content : NodeContent) :
    fillIn (entries ++ .placeholder parent? :: rest) entries.length content =
      entries ++ ⟨content, parent?⟩ :: rest := by
  induction entries with
  | nil => rfl
  | cons entry entries ih => simpa [fillIn] using ih

mutual
/-- Whatever was inserted before, a value adds its nodes and nothing else. -/
theorem insertValue_eq (entries : List NodeEntry) (parent? : Option (Segment × Nat)) (v : Json) :
    insertValue entries parent? v =
      (entries ++ entriesFrom parent? entries.length v, entries.length) := by
  match v with
  | .object fs =>
    rw [insertValue, insertFields_eq, entriesFrom]
    simp [fillIn_append]
  | .array xs =>
    rw [insertValue, insertItems_eq, entriesFrom]
    simp [fillIn_append]
  | .null | .bool _ | .number _ | .string _ =>
    simp [insertValue, entriesFrom, fillIn_append]

theorem insertFields_eq (entries : List NodeEntry) (parent : Nat) (fs : List (String × Json)) :
    insertFields entries parent fs =
      (entries ++ (fieldEntries parent entries.length fs).2,
        (fieldEntries parent entries.length fs).1) := by
  match fs with
  | [] => simp [insertFields, fieldEntries]
  | (k, v) :: fs =>
    rw [insertFields, insertValue_eq, fieldEntries]
    simp [insertFields_eq]

theorem insertItems_eq (entries : List NodeEntry) (parent i : Nat) (xs : List Json) :
    insertItems entries parent i xs =
      (entries ++ (itemEntries parent entries.length i xs).2,
        (itemEntries parent entries.length i xs).1) := by
  match xs with
  | [] => simp [insertItems, itemEntries]
  | x :: xs =>
    rw [insertItems, insertValue_eq, itemEntries]
    simp [insertItems_eq]
end

/-! ### Numbers of parents and parts -/

/-- A node with a number has a parent with a smaller number, if any, and parts with greater ones
below a bound. -/
structure NodeEntry.Numbered (bound id : Nat) (entry : NodeEntry) : Prop where
  parent_lt : ∀ seg parent, entry.parent? = some (seg, parent) → parent < id
  lt_part : ∀ part ∈ entry.content.parts, id < part ∧ part < bound

/-- All nodes of a list, the first of which has a number. -/
def NumberedFrom (bound next : Nat) (entries : List NodeEntry) : Prop :=
  ∀ (i : Nat) (entry : NodeEntry), entries[i]? = some entry → entry.Numbered bound (next + i)

section Numbered

variable {bound : Nat} {entries rest : List NodeEntry}

theorem NumberedFrom.append {next : Nat} (h : NumberedFrom bound next entries)
    (hrest : NumberedFrom bound (next + entries.length) rest) :
    NumberedFrom bound next (entries ++ rest) := by
  intro i entry hentry
  by_cases hi : i < entries.length
  · rw [List.getElem?_append_left hi] at hentry
    exact h i entry hentry
  · rw [List.getElem?_append_right (by omega)] at hentry
    have hnumbered := hrest _ entry hentry
    rwa [show next + entries.length + (i - entries.length) = next + i by omega] at hnumbered

theorem numberedFrom_cons {next : Nat} {entry : NodeEntry} (h : entry.Numbered bound next)
    (hrest : NumberedFrom bound (next + 1) rest) : NumberedFrom bound next (entry :: rest) := by
  have hfirst : NumberedFrom bound next [entry] := by
    intro i other hother
    cases i with
    | zero =>
      cases hother
      exact h
    | succ i => simp at hother
  exact hfirst.append hrest

theorem length_entriesFrom_pos (parent? : Option (Segment × Nat)) (id : Nat) (v : Json) :
    0 < (entriesFrom parent? id v).length := by
  cases v <;> simp [entriesFrom]

mutual
theorem numbered_entriesFrom (parent? : Option (Segment × Nat)) (id : Nat) (v : Json)
    (hparent : ∀ seg parent, parent? = some (seg, parent) → parent < id)
    (hbound : id + (entriesFrom parent? id v).length ≤ bound) :
    NumberedFrom bound id (entriesFrom parent? id v) := by
  match v with
  | .object fs =>
    rw [entriesFrom, List.length_cons] at hbound
    have hfields := numbered_fieldEntries id (id + 1) fs (Nat.lt_add_one id) (by omega)
    rw [entriesFrom]
    refine numberedFrom_cons ⟨hparent, fun part hpart => ?_⟩ hfields.1
    obtain ⟨field, hfield, rfl⟩ := List.mem_map.1 hpart
    exact hfields.2 field hfield
  | .array xs =>
    rw [entriesFrom, List.length_cons] at hbound
    have hitems := numbered_itemEntries id (id + 1) 0 xs (Nat.lt_add_one id) (by omega)
    rw [entriesFrom]
    exact numberedFrom_cons ⟨hparent, hitems.2⟩ hitems.1
  | .null | .bool _ | .number _ | .string _ =>
    rw [entriesFrom]
    · exact numberedFrom_cons ⟨hparent, by simp [NodeContent.parts]⟩ (by simp [NumberedFrom])
    all_goals simp

theorem numbered_fieldEntries (parent next : Nat) (fs : List (String × Json))
    (hparent : parent < next) (hbound : next + (fieldEntries parent next fs).2.length ≤ bound) :
    NumberedFrom bound next (fieldEntries parent next fs).2 ∧
      ∀ field ∈ (fieldEntries parent next fs).1, parent < field.2 ∧ field.2 < bound := by
  match fs with
  | [] => simp [fieldEntries, NumberedFrom]
  | (k, v) :: fs =>
    rw [fieldEntries, List.length_append] at hbound
    have hpositive := length_entriesFrom_pos (some (.key k, parent)) next v
    have hpart : NumberedFrom bound next (entriesFrom (some (.key k, parent)) next v) := by
      refine numbered_entriesFrom _ next _ ?_ (by omega)
      rintro _ _ ⟨⟩
      exact hparent
    have hrest := numbered_fieldEntries parent
      (next + (entriesFrom (some (.key k, parent)) next v).length) fs (by omega) (by omega)
    rw [fieldEntries]
    refine ⟨hpart.append hrest.1, fun field hfield => ?_⟩
    rcases List.mem_cons.1 hfield with rfl | hfield
    · exact ⟨hparent, by dsimp only; omega⟩
    · exact hrest.2 field hfield

theorem numbered_itemEntries (parent next i : Nat) (xs : List Json) (hparent : parent < next)
    (hbound : next + (itemEntries parent next i xs).2.length ≤ bound) :
    NumberedFrom bound next (itemEntries parent next i xs).2 ∧
      ∀ part ∈ (itemEntries parent next i xs).1, parent < part ∧ part < bound := by
  match xs with
  | [] => simp [itemEntries, NumberedFrom]
  | x :: xs =>
    rw [itemEntries, List.length_append] at hbound
    have hpositive := length_entriesFrom_pos (some (.index i, parent)) next x
    have hpart : NumberedFrom bound next (entriesFrom (some (.index i, parent)) next x) := by
      refine numbered_entriesFrom _ next _ ?_ (by omega)
      rintro _ _ ⟨⟩
      exact hparent
    have hrest := numbered_itemEntries parent
      (next + (entriesFrom (some (.index i, parent)) next x).length) (i + 1) xs
        (by omega) (by omega)
    rw [itemEntries]
    refine ⟨hpart.append hrest.1, fun part hpart => ?_⟩
    rcases List.mem_cons.1 hpart with rfl | hpart
    · exact ⟨hparent, by omega⟩
    · exact hrest.2 part hpart
end

end Numbered

/-! ### Trees -/

/-- The nodes of a document. -/
structure JsonTree where
  entries : List NodeEntry
  root : Nat
  root_lt : root < entries.length
  numbered : ∀ (id : Nat) (entry : NodeEntry), entries[id]? = some entry →
    entry.Numbered entries.length id

namespace JsonTree

/-- The tree of a document. -/
def parse (v : Json) : JsonTree where
  entries := (insertValue [] none v).1
  root := (insertValue [] none v).2
  root_lt := by
    simpa [insertValue_eq] using length_entriesFrom_pos none 0 v
  numbered id entry h := by
    have hnumbered : NumberedFrom (entriesFrom none 0 v).length 0 (entriesFrom none 0 v) :=
      numbered_entriesFrom none 0 v (by simp) (by omega)
    simp only [insertValue_eq, List.nil_append, List.length_nil] at h ⊢
    simpa using hnumbered id entry h

variable (t : JsonTree)

/-- How many nodes there are; their numbers are those below. -/
def size : Nat :=
  t.entries.length

/-- The segment under which the parent holds a node, and the number of the parent. -/
def parent? (id : Nat) : Option (Segment × Nat) :=
  (t.entries[id]?).bind NodeEntry.parent?

/-- The number of the node below under a segment. -/
def child? (id : Nat) (seg : Segment) : Option Nat :=
  (t.entries[id]?).bind fun entry => entry.content.child? seg

/-- The number of the node at the end of a path. -/
def navigate (p : Path) : Option Nat :=
  p.foldlM t.child? t.root

theorem lt_of_parent? {t : JsonTree} {id parent : Nat} {seg : Segment}
    (h : t.parent? id = some (seg, parent)) :
    parent < id := by
  obtain ⟨entry, hentry, hparent⟩ := Option.bind_eq_some_iff.1 h
  exact (t.numbered id entry hentry).parent_lt seg parent hparent

/-- The steps from a node up to the root: the segments under which parents hold their parts,
and the parents. -/
def wayUp (id : Nat) : List (Segment × Nat) :=
  match _h : t.parent? id with
  | none => []
  | some (seg, parent) => (seg, parent) :: wayUp parent
termination_by id
decreasing_by exact lt_of_parent? _h

/-- The numbers of all nodes around a node, nearest first. -/
def ancestors (id : Nat) : List Nat :=
  (t.wayUp id).map Prod.snd

/-- The segments from the root to a node. -/
def path (id : Nat) : Path :=
  ((t.wayUp id).map Prod.fst).reverse

/-- The value that is made of a node and all nodes inside of it; there is none without a node. -/
def toJson (id : Nat) : Json :=
  match _h : t.entries[id]? with
  | none => .null
  | some entry =>
    match _hcontent : entry.content with
    | .primitive v => v
    | .array items => .array (items.attach.map fun ⟨part, _⟩ => toJson part)
    | .object fields => .object (fields.attach.map fun ⟨(k, part), _⟩ => (k, toJson part))
termination_by t.size - id
decreasing_by
  all_goals
    have hpart := (t.numbered id entry _h).lt_part part (by
      simp only [_hcontent, NodeContent.parts]
      first | assumption | exact List.mem_map.2 ⟨(k, part), ‹_›, rfl⟩)
    simp only [size]
    omega

end JsonTree

end ModularTemplates
