import Mathlib.Data.List.Infix
import Mathlib.Tactic.Lemma
import ModularTemplates.JsonTree
import ModularTemplates.Proofs.PreOrder

/-!
# Trees and their documents

The numbers of a tree stand for the places of the document that it was made from. The nodes of a
part of the document lie behind one another in the tree, so what is said about a part can be
proved part by part.
-/

namespace ModularTemplates

/-! ### The first node of a value and those behind it -/

/-- What the node of a value holds if it has a number. -/
def contentFrom (id : Nat) : Json → NodeContent
  | .object fs => .object (fieldEntries id (id + 1) fs).1
  | .array xs => .array (itemEntries id (id + 1) 0 xs).1
  | v => .primitive v

/-- The nodes behind the node of a value that has a number. -/
def insideFrom (id : Nat) : Json → List NodeEntry
  | .object fs => (fieldEntries id (id + 1) fs).2
  | .array xs => (itemEntries id (id + 1) 0 xs).2
  | _ => []

lemma entriesFrom_eq_cons (parent? : Option (Segment × Nat)) (id : Nat) (v : Json) :
    entriesFrom parent? id v = ⟨contentFrom id v, parent?⟩ :: insideFrom id v := by
  cases v <;> simp [entriesFrom, contentFrom, insideFrom]

namespace JsonTree

variable {t : JsonTree} {id next : Nat} {parent? : Option (Segment × Nat)} {v w : Json}
  {seg : Segment}

/-- From a number on, a tree has certain nodes. -/
def Has (t : JsonTree) (next : Nat) (entries : List NodeEntry) : Prop :=
  entries <+: t.entries.drop next

/-- From a number on, a tree has the nodes of a value. -/
def Stands (t : JsonTree) (parent? : Option (Segment × Nat)) (id : Nat) (v : Json) : Prop :=
  t.Has id (entriesFrom parent? id v)

lemma Has.left {entries rest : List NodeEntry} (h : t.Has next (entries ++ rest)) :
    t.Has next entries :=
  (List.prefix_append entries rest).trans h

lemma Has.right {entries rest : List NodeEntry} (h : t.Has next (entries ++ rest)) :
    t.Has (next + entries.length) rest := by
  obtain ⟨after, hafter⟩ := h
  refine ⟨after, ?_⟩
  rw [← List.drop_drop, ← hafter, List.append_assoc, List.drop_left]

lemma Stands.getElem? (h : t.Stands parent? id v) :
    t.entries[id]? = some ⟨contentFrom id v, parent?⟩ := by
  obtain ⟨after, hafter⟩ := h
  rw [entriesFrom_eq_cons, List.cons_append] at hafter
  rw [← List.head?_drop, ← hafter, List.head?_cons]

lemma Stands.inside (h : t.Stands parent? id v) : t.Has (id + 1) (insideFrom id v) := by
  rw [Stands, entriesFrom_eq_cons, ← List.singleton_append] at h
  exact h.right

lemma Stands.parent?_eq (h : t.Stands parent? id v) : t.parent? id = parent? := by
  rw [JsonTree.parent?, h.getElem?, Option.bind_some]

lemma Stands.child?_eq (h : t.Stands parent? id v) (seg : Segment) :
    t.child? id seg = (contentFrom id v).child? seg := by
  rw [JsonTree.child?, h.getElem?, Option.bind_some]

/-! ### Parts -/

lemma stands_of_fields {parent : Nat} {fs : Fields Json}
    (h : t.Has next (fieldEntries parent next fs).2) {k : String} (hw : fs.get? k = some w) :
    ∃ id, Fields.get? (fieldEntries parent next fs).1 k = some id ∧
      t.Stands (some (.key k, parent)) id w := by
  induction fs generalizing next with
  | nil => cases hw
  | cons field fs ih =>
    obtain ⟨l, u⟩ := field
    rw [fieldEntries] at h ⊢
    by_cases hkey : l = k
    · subst hkey
      rw [Fields.get?_cons_self] at hw
      cases hw
      exact ⟨next, Fields.get?_cons_self _ _ _, h.left⟩
    · rw [Fields.get?_cons_of_ne hkey] at hw
      obtain ⟨id, hid, hstands⟩ := ih h.right hw
      exact ⟨id, by rwa [Fields.get?_cons_of_ne hkey], hstands⟩

lemma keys_fieldEntries (parent next : Nat) (fs : Fields Json) :
    Fields.keys (fieldEntries parent next fs).1 = fs.keys := by
  induction fs generalizing next with
  | nil => simp [fieldEntries]
  | cons field fs ih =>
    obtain ⟨k, v⟩ := field
    rw [fieldEntries, Fields.keys_cons, Fields.keys_cons, ih]

lemma stands_of_items {parent i : Nat} {xs : List Json}
    (h : t.Has next (itemEntries parent next i xs).2) {j : Nat} (hw : xs[j]? = some w) :
    ∃ id, (itemEntries parent next i xs).1[j]? = some id ∧
      t.Stands (some (.index (i + j), parent)) id w := by
  induction xs generalizing next i j with
  | nil => simp at hw
  | cons x xs ih =>
    rw [itemEntries] at h ⊢
    cases j with
    | zero =>
      cases hw
      exact ⟨next, rfl, h.left⟩
    | succ j =>
      obtain ⟨id, hid, hstands⟩ := ih h.right hw
      exact ⟨id, hid, by rwa [Nat.add_right_comm] at hstands⟩

lemma length_itemEntries (parent next i : Nat) (xs : List Json) :
    (itemEntries parent next i xs).1.length = xs.length := by
  induction xs generalizing next i with
  | nil => simp [itemEntries]
  | cons x xs ih => rw [itemEntries, List.length_cons, List.length_cons, ih]

/-- The parts of a node stand for the parts of its value. -/
lemma Stands.exists_child (h : t.Stands parent? id v) (hw : v.child? seg = some w) :
    ∃ part, t.child? id seg = some part ∧ t.Stands (some (seg, id)) part w := by
  rw [h.child?_eq]
  have hinside := h.inside
  rcases Json.exists_of_child? hw with ⟨fs, k, rfl, rfl, hk⟩ | ⟨xs, i, rfl, rfl, hi⟩
  · exact stands_of_fields hinside hk
  · obtain ⟨part, hpart, hstands⟩ := stands_of_items hinside hi
    exact ⟨part, hpart, by rwa [Nat.zero_add] at hstands⟩

lemma Stands.child?_eq_none (h : t.Stands parent? id v) (hnone : v.child? seg = none) :
    t.child? id seg = none := by
  rw [h.child?_eq]
  cases v with
  | object fs =>
    cases seg with
    | key k =>
      rw [Json.child?, Fields.get?_eq_none_iff] at hnone
      rw [contentFrom, NodeContent.child?, Fields.get?_eq_none_iff, keys_fieldEntries]
      exact hnone
    | index i => rfl
  | array xs =>
    cases seg with
    | key k => rfl
    | index i =>
      rw [Json.child?, List.getElem?_eq_none_iff] at hnone
      rw [contentFrom, NodeContent.child?, List.getElem?_eq_none_iff, length_itemEntries]
      exact hnone
  | _ => rfl

/-! ### The value of a node -/

lemma toJson_of_getElem? {content : NodeContent}
    (h : t.entries[id]? = some ⟨content, parent?⟩) : t.toJson id =
    match content with
    | .primitive v => v
    | .array items => .array (items.map t.toJson)
    | .object fields => .object (fields.map fun field => (field.1, t.toJson field.2)) := by
  rw [toJson]
  split
  · simp_all
  · rename_i entry hentry
    obtain rfl := Option.some.inj (hentry.symm.trans h)
    cases content with
    | object fields =>
      exact congrArg Json.object
        (List.attach_map_val (f := fun field : String × Nat => (field.1, t.toJson field.2)))
    | array items => exact congrArg Json.array (List.attach_map_val (f := t.toJson))
    | primitive v => rfl

mutual
/-- The value of a node is the one that it stands for. -/
lemma toJson_of_stands {parent? : Option (Segment × Nat)} {id : Nat} {v : Json}
    (h : t.Stands parent? id v) :
    t.toJson id = v := by
  rw [toJson_of_getElem? h.getElem?]
  have hinside := h.inside
  match v with
  | .object fs => exact congrArg Json.object (map_toJson_fields hinside)
  | .array xs => exact congrArg Json.array (map_toJson_items hinside)
  | .null | .bool _ | .number _ | .string _ => rfl

lemma map_toJson_fields {parent next : Nat} {fs : List (String × Json)}
    (h : t.Has next (fieldEntries parent next fs).2) :
    (fieldEntries parent next fs).1.map (fun field => (field.1, t.toJson field.2)) = fs := by
  match fs with
  | [] => simp [fieldEntries]
  | (k, v) :: fs =>
    rw [fieldEntries] at h ⊢
    have hpart : t.Stands (some (.key k, parent)) next v := h.left
    rw [List.map_cons, toJson_of_stands hpart, map_toJson_fields h.right]

lemma map_toJson_items {parent next i : Nat} {xs : List Json}
    (h : t.Has next (itemEntries parent next i xs).2) :
    (itemEntries parent next i xs).1.map t.toJson = xs := by
  match xs with
  | [] => simp [itemEntries]
  | x :: xs =>
    rw [itemEntries] at h ⊢
    have hpart : t.Stands (some (.index i, parent)) next x := h.left
    rw [List.map_cons, toJson_of_stands hpart, map_toJson_items h.right]
end

/-! ### Nodes of the document -/

/-- The node of the document that a number stands for. -/
def node (t : JsonTree) (id : Nat) : Node where
  value := t.toJson id
  above := (t.wayUp id).map fun step => ⟨step.1, t.toJson step.2⟩

lemma wayUp_of_none (h : t.parent? id = none) : t.wayUp id = [] := by
  rw [wayUp]
  split <;> simp_all

lemma wayUp_of_some {parent : Nat} (h : t.parent? id = some (seg, parent)) :
    t.wayUp id = (seg, parent) :: t.wayUp parent := by
  rw [wayUp]
  split <;> simp_all

lemma node_of_root (h : t.Stands none id v) : t.node id = Node.root v := by
  rw [node, wayUp_of_none h.parent?_eq, toJson_of_stands h]
  rfl

/-- A part stands in its container. -/
lemma node_of_part {parent : Nat} (h : t.Stands (some (seg, parent)) id w) :
    t.node id = ⟨w, ⟨seg, (t.node parent).value⟩ :: (t.node parent).above⟩ := by
  rw [node, wayUp_of_some h.parent?_eq, toJson_of_stands h]
  rfl

lemma path_node (t : JsonTree) (id : Nat) : (t.node id).path = t.path id := by
  rw [Node.path, path, node, List.map_map]
  rfl

mutual
/-- The nodes of a value have the numbers from the one of the value on. -/
lemma map_node_of_stands {parent? : Option (Segment × Nat)} {id : Nat} {v : Json}
    (h : t.Stands parent? id v) :
    (List.range' id (entriesFrom parent? id v).length).map t.node =
      Node.allFrom (t.node id).above v := by
  have hnode : t.node id = ⟨v, (t.node id).above⟩ := by
    rw [Node.mk.injEq]
    exact ⟨toJson_of_stands h, rfl⟩
  have hinside := h.inside
  rw [entriesFrom_eq_cons, List.length_cons, List.range'_succ, List.map_cons, hnode]
  match v with
  | .object fs =>
    rw [Node.allFrom]
    exact congrArg _ (map_node_fields hnode hinside)
  | .array xs =>
    rw [Node.allFrom]
    exact congrArg _ (map_node_items hnode hinside)
  | .null | .bool _ | .number _ | .string _ => rfl

lemma map_node_fields {parent next : Nat} {v : Json} {above : List Crumb}
    {fs : List (String × Json)} (hparent : t.node parent = ⟨v, above⟩)
    (h : t.Has next (fieldEntries parent next fs).2) :
    (List.range' next (fieldEntries parent next fs).2.length).map t.node =
      Node.allFields v above fs := by
  match fs with
  | [] => simp [fieldEntries, Node.allFields]
  | (k, w) :: fs =>
    rw [fieldEntries] at h ⊢
    have hpart : t.Stands (some (.key k, parent)) next w := h.left
    rw [List.length_append, ← List.range'_append_1, List.map_append, map_node_of_stands hpart,
      map_node_fields hparent h.right, node_of_part hpart, hparent, Node.allFields]

lemma map_node_items {parent next i : Nat} {v : Json} {above : List Crumb} {xs : List Json}
    (hparent : t.node parent = ⟨v, above⟩) (h : t.Has next (itemEntries parent next i xs).2) :
    (List.range' next (itemEntries parent next i xs).2.length).map t.node =
      Node.allItems v above i xs := by
  match xs with
  | [] => simp [itemEntries, Node.allItems]
  | x :: xs =>
    rw [itemEntries] at h ⊢
    have hpart : t.Stands (some (.index i, parent)) next x := h.left
    rw [List.length_append, ← List.range'_append_1, List.map_append, map_node_of_stands hpart,
      map_node_items hparent h.right, node_of_part hpart, hparent, Node.allItems]
end

/-! ### Going down -/

lemma stands_of_navigate (h : t.Stands parent? id v) {p : Path} (hw : p.lookup v = some w) :
    ∃ parent? m, p.foldlM t.child? id = some m ∧ t.Stands parent? m w ∧
      Node.navigate (t.node id) p = some (t.node m) := by
  induction p generalizing parent? id v with
  | nil =>
    cases hw
    exact ⟨parent?, id, rfl, h, rfl⟩
  | cons seg p ih =>
    obtain ⟨u, hu, hw⟩ := Option.bind_eq_some_iff.mp hw
    obtain ⟨part, hpart, hstands⟩ := h.exists_child hu
    obtain ⟨above, m, hm, hstandsm, hnode⟩ := ih hstands hw
    refine ⟨above, m, ?_, hstandsm, ?_⟩
    · rw [List.foldlM_cons, hpart]
      exact hm
    · have hvalue : (t.node id).value = v := toJson_of_stands h
      rw [Node.navigate, Node.child?, hvalue, hu, Option.map_some, Option.bind_some, ← hnode,
        node_of_part hstands, hvalue]

lemma navigate_eq_none (h : t.Stands parent? id v) {p : Path} (hnone : p.lookup v = none) :
    p.foldlM t.child? id = none := by
  induction p generalizing parent? id v with
  | nil => cases hnone
  | cons seg p ih =>
    rw [List.foldlM_cons]
    cases hchild : v.child? seg with
    | none =>
      rw [h.child?_eq_none hchild]
      rfl
    | some u =>
      obtain ⟨part, hpart, hstands⟩ := h.exists_child hchild
      rw [Path.lookup_cons, hchild, Option.bind_some] at hnone
      rw [hpart]
      exact ih hstands hnone

/-! ### The tree of a document -/

lemma stands_root (v : Json) : (parse v).Stands none (parse v).root v := by
  have hentries : (parse v).entries = entriesFrom none 0 v := by simp [parse, insertValue_eq]
  have hroot : (parse v).root = 0 := by simp [parse, insertValue_eq]
  rw [Stands, Has, hentries, hroot]
  exact List.prefix_rfl

lemma dropLast_inits_concat (p : Path) (seg : Segment) : (p ++ [seg]).inits.dropLast = p.inits := by
  simp [List.inits_append]

lemma reverse_inits (p : Path) : p.inits.reverse = p :: p.inits.dropLast.reverse := by
  rcases List.eq_nil_or_concat p with rfl | ⟨q, seg, rfl⟩
  · rfl
  · simp [List.inits_append]

section Numbers

variable (hv : v.WellFormed) (h : t.Stands none t.root v)
  (hnodes : (List.range t.size).map t.node = Node.all v)

include hv hnodes

/-- A number that comes before another one stands for a place that is reached earlier. -/
lemma earlier_of_lt {other : Nat} (hother : other < t.size) (hlt : id < other) :
    v.Earlier (t.path id) (t.path other) := by
  have hpairwise := Node.pairwise_all hv
  rw [← hnodes, List.pairwise_map, List.pairwise_iff_getElem] at hpairwise
  have hpair := hpairwise id other (by simp; omega) (by simpa using hother) hlt
  simpa only [List.getElem_range, path_node] using hpair

lemma lt_iff_earlier {other : Nat} (hid : id < t.size) (hother : other < t.size) :
    id < other ↔ v.Earlier (t.path id) (t.path other) := by
  refine ⟨earlier_of_lt hv hnodes hother, fun hearlier => ?_⟩
  rcases Nat.lt_trichotomy id other with hlt | rfl | hgt
  · exact hlt
  · exact absurd hearlier (hearlier.asymm hv)
  · exact absurd hearlier ((earlier_of_lt hv hnodes hid hgt).asymm hv)

include h

/-- The path of a node leads to it, and to its value in the document. -/
lemma navigate_path (hid : id < t.size) :
    t.navigate (t.path id) = some id ∧ (t.path id).lookup v = some (t.toJson id) := by
  have hmem : t.node id ∈ Node.all v := hnodes ▸ List.mem_map_of_mem (List.mem_range.mpr hid)
  have hnode := (Node.mem_all_iff hv).mp hmem
  have hlookup := Node.lookup_path hnode
  rw [path_node] at hnode hlookup
  refine ⟨?_, hlookup⟩
  obtain ⟨_, other, hother, hstands, hnavigate⟩ := stands_of_navigate h hlookup
  rw [node_of_root h, hnode, Option.some.injEq] at hnavigate
  have hsize : other < t.size := (List.getElem?_eq_some_iff.mp hstands.getElem?).1
  have hpath : t.path id = t.path other := by
    rw [← path_node, ← path_node, hnavigate]
  have hnot : ∀ a b : Nat, a < t.size → b < t.size → t.path a = t.path b → ¬ a < b := by
    intro a b ha hb hab hlt
    have hearlier := (lt_iff_earlier hv hnodes ha hb).mp hlt
    rw [hab] at hearlier
    exact hearlier.asymm hv hearlier
  have hle := hnot id other hid hsize hpath
  have hge := hnot other id hsize hid hpath.symm
  rw [navigate, hother, Option.some.injEq]
  omega

/-- The ancestors of a node are found at the beginnings of its path. -/
lemma map_some_ancestors {id : Nat} (hid : id < t.size) :
    (t.ancestors id).map some = (t.path id).inits.dropLast.reverse.map t.navigate := by
  induction id using Nat.strongRecOn with
  | ind id ih =>
    cases hparent : t.parent? id with
    | none => simp [ancestors, path, wayUp_of_none hparent]
    | some step =>
      obtain ⟨seg, parent⟩ := step
      have hlt := lt_of_parent? hparent
      have hrest := ih parent hlt (hlt.trans hid)
      have hnavigate := (navigate_path hv h hnodes (hlt.trans hid)).1
      have hancestors : t.ancestors id = parent :: t.ancestors parent := by
        rw [ancestors, wayUp_of_some hparent]
        rfl
      have hpath : t.path id = t.path parent ++ [seg] := by
        rw [path, wayUp_of_some hparent, List.map_cons, List.reverse_cons]
        rfl
      rw [hancestors, hpath, dropLast_inits_concat, reverse_inits, List.map_cons, List.map_cons,
        hrest, hnavigate]

end Numbers

/-- A tree says what the document says that it was made from. -/
structure Faithful (t : JsonTree) (v : Json) : Prop where
  /-- the document is got back with its key order -/
  toJson_root : t.toJson t.root = v
  /-- there is one node for every place of the document -/
  existsUnique_node : ∀ p w, p.lookup v = some w → ∃! id, id < t.size ∧ t.path id = p
  /-- the nodes are numbered in pre-order -/
  lt_iff : ∀ id < t.size, ∀ other < t.size, id < other ↔ v.Earlier (t.path id) (t.path other)
  parent_lt : ∀ id seg parent, t.parent? id = some (seg, parent) → parent < id
  navigate_path : ∀ id < t.size, t.navigate (t.path id) = some id
  lookup_path : ∀ id < t.size, (t.path id).lookup v = some (t.toJson id)
  /-- the ancestors are the nodes at the proper prefixes of the path, the longest of
  which comes first -/
  ancestors : ∀ id < t.size,
    (t.ancestors id).map some = (t.path id).inits.dropLast.reverse.map t.navigate
  /-- there is a node at the end of a path exactly if there is a value, and it has this value -/
  map_navigate : ∀ p, (t.navigate p).map t.toJson = p.lookup v
  /-- the numbers stand for the nodes of the document in their order -/
  map_node : (List.range t.size).map t.node = Node.all v

/-- Whatever the document is, its tree says the same: its nodes stand for the places of the document
in pre-order, and the ways up and down agree with the paths of the document. -/
theorem parse_faithful (hv : v.WellFormed) : (parse v).Faithful v := by
  have h := stands_root v
  have hnodes : (List.range (parse v).size).map (parse v).node = Node.all v := by
    have hmap := map_node_of_stands h
    have hroot : (parse v).root = 0 := by simp [parse, insertValue_eq]
    have hsize : (parse v).size = (entriesFrom none 0 v).length := by
      simp [size, parse, insertValue_eq]
    rw [node_of_root h, hroot, ← List.range_eq_range'] at hmap
    rw [hsize, hmap]
    rfl
  refine
    { toJson_root := toJson_of_stands h
      existsUnique_node := fun p w hw => ?_
      lt_iff := fun id hid other hother => lt_iff_earlier hv hnodes hid hother
      parent_lt := fun id seg parent hparent => lt_of_parent? hparent
      navigate_path := fun id hid => (navigate_path hv h hnodes hid).1
      lookup_path := fun id hid => (navigate_path hv h hnodes hid).2
      ancestors := fun id hid => map_some_ancestors hv h hnodes hid
      map_navigate := fun p => ?_
      map_node := hnodes }
  · obtain ⟨_, id, hid, hstands, hnavigate⟩ := stands_of_navigate h hw
    rw [node_of_root h] at hnavigate
    have hpath : (parse v).path id = p := by
      rw [← path_node, Node.path_of_navigate_root hnavigate]
    refine ⟨id, ⟨(List.getElem?_eq_some_iff.mp hstands.getElem?).1, hpath⟩, ?_⟩
    rintro other ⟨hother, rfl⟩
    have hfound := (navigate_path hv h hnodes hother).1
    exact Option.some.inj (hfound.symm.trans hid)
  · cases hlookup : p.lookup v with
    | none =>
      rw [navigate, navigate_eq_none h hlookup]
      rfl
    | some w =>
      obtain ⟨_, id, hid, hstands, -⟩ := stands_of_navigate h hlookup
      rw [navigate, hid, Option.map_some, toJson_of_stands hstands]

/-- A key that looks like an index beside an array. The index does not lead to it, and it does not
lead to an item. -/
theorem parse_faithful_numeric_key :
    let v : Json :=
      .object [("items", .array [.object [("1", .null)], .bool true]), ("0", .string "zero")]
    v.WellFormed ∧ (parse v).Faithful v ∧
      (List.range (parse v).size).map (parse v).path =
        [[], [.key "items"], [.key "items", .index 0],
        [.key "items", .index 0, .key "1"], [.key "items", .index 1], [.key "0"]] ∧
      (parse v).navigate [.key "items", .key "0"] = none ∧
      (parse v).navigate [.index 0] = none := by
  intro v
  have hv : v.WellFormed := by decide
  have hfaithful := parse_faithful hv
  have hpaths : (List.range (parse v).size).map (parse v).path = (Node.all v).map Node.path := by
    rw [← hfaithful.map_node, List.map_map]
    exact List.map_congr_left fun id _ => (path_node _ id).symm
  exact ⟨hv, hfaithful, hpaths, by decide, by decide⟩

end JsonTree

end ModularTemplates
