import Mathlib.Data.List.Infix
import Mathlib.Tactic.Lemma
import ModularTemplates.Proofs.Json
import ModularTemplates.Proofs.Keyword.Answers

/-!
# Replacing a container around an object

The first object in post-order that carries a keyword is the first one that is asked. If it wants a
container around itself replaced, nothing inside that container is asked any more: the replacement
goes up one container at a time, and takes effect as many steps above the object as was asked for.
-/

namespace ModularTemplates

namespace Processors

variable {σ ε : Type} {ps : Processors ε (StateM σ)} {node : Node} {s s' : σ} {w : Json}
  {level : Nat}

/-- From the state `s` on the object at a node wants the container `level` steps above it to become
`w`, and leaves the state `s'`. -/
structure Raises (ps : Processors ε (StateM σ)) (node : Node) (s : σ) (w : Json) (level : Nat)
    (s' : σ) : Prop where
  here : level = 0 → (settle (ps.value node.above node.value)).run.run s = (.ok w, s')
  above : ∀ l, level = l + 1 →
    (settle (ps.value node.above node.value)).run.run s =
      (.error (.pending l w node.path level), s')

/-! ### The first object with a keyword -/

/-- The first object with a keyword is inside the fields of an object, or it is the
object itself. -/
lemma find?_object {above : List Crumb} {fs : Fields Json}
    (h : (Node.postorderFrom above (.object fs)).find? ps.carries = some node) :
    (Node.postorderFields (.object fs) above fs).find? ps.carries = some node ∨
      (∀ n ∈ Node.postorderFields (.object fs) above fs, ps.carries n = false) ∧
        node = ⟨.object fs, above⟩ := by
  rw [Node.postorderFrom, List.find?_append, Option.or_eq_some_iff] at h
  rcases h with h | ⟨hnone, h⟩
  · exact .inl h
  · exact .inr ⟨by simpa using hnone, by simpa using List.mem_of_find?_eq_some h⟩

lemma find?_array {above : List Crumb} {xs : List Json}
    (h : (Node.postorderFrom above (.array xs)).find? ps.carries = some node) :
    (Node.postorderItems (.array xs) above 0 xs).find? ps.carries = some node := by
  rw [Node.postorderFrom, List.find?_append, Option.or_eq_some_iff] at h
  rcases h with h | ⟨-, h⟩
  · exact h
  · obtain rfl : node = ⟨.array xs, above⟩ := by simpa using List.mem_of_find?_eq_some h
    simp [carries, Node.propertyNames] at h

/-- Either it is inside the value of the first field, or that value holds no keyword. -/
lemma find?_fields_cons {parent : Json} {above : List Crumb} {k : String} {v : Json}
    {fs : List (String × Json)}
    (h : (Node.postorderFields parent above ((k, v) :: fs)).find? ps.carries = some node) :
    (Node.postorderFrom (⟨.key k, parent⟩ :: above) v).find? ps.carries = some node ∨
      (∀ n ∈ Node.postorderFrom (⟨.key k, parent⟩ :: above) v, ps.carries n = false) ∧
        (Node.postorderFields parent above fs).find? ps.carries = some node := by
  rw [Node.postorderFields, List.find?_append, Option.or_eq_some_iff] at h
  rcases h with h | ⟨hnone, h⟩
  · exact .inl h
  · exact .inr ⟨by simpa using hnone, h⟩

lemma find?_items_cons {parent : Json} {above : List Crumb} {i : Nat} {x : Json} {xs : List Json}
    (h : (Node.postorderItems parent above i (x :: xs)).find? ps.carries = some node) :
    (Node.postorderFrom (⟨.index i, parent⟩ :: above) x).find? ps.carries = some node ∨
      (∀ n ∈ Node.postorderFrom (⟨.index i, parent⟩ :: above) x, ps.carries n = false) ∧
        (Node.postorderItems parent above (i + 1) xs).find? ps.carries = some node := by
  rw [Node.postorderItems, List.find?_append, Option.or_eq_some_iff] at h
  rcases h with h | ⟨hnone, h⟩
  · exact .inl h
  · exact .inr ⟨by simpa using hnone, h⟩

/-- The way down to it starts with the segment of the field or item that it is inside of. -/
lemma exists_cons_of_find? {v parent : Json} {above : List Crumb} {seg : Segment} {p : Path}
    (h : (Node.postorderFrom (⟨seg, parent⟩ :: above) v).find? ps.carries = some node)
    (hpath : node.path = Node.path ⟨parent, above⟩ ++ p) :
    ∃ q, p = seg :: q ∧ node.path = Node.path ⟨v, ⟨seg, parent⟩ :: above⟩ ++ q := by
  have hprefix := Node.prefix_path_of_mem (List.mem_of_find?_eq_some h)
  rw [hpath, Node.path_cons, List.prefix_append_right_inj] at hprefix
  obtain ⟨q, rfl⟩ := hprefix
  exact ⟨q, rfl, by rw [hpath, Node.path_cons, List.append_assoc]⟩

mutual
/-- No keyword stands inside the fields of the first object with a keyword. -/
lemma plain_inside {above : List Crumb} {v : Json}
    (h : (Node.postorderFrom above v).find? ps.carries = some node) :
    ∃ fs, node.value = .object fs ∧
      ∀ n ∈ Node.postorderFields (.object fs) node.above fs, ps.carries n = false := by
  match v with
  | .object fs =>
    rcases find?_object h with h | ⟨hplain, rfl⟩
    · exact plain_inside_fields h
    · exact ⟨fs, rfl, hplain⟩
  | .array xs => exact plain_inside_items (find?_array h)
  | .null | .bool _ | .number _ | .string _ =>
    simp [Node.postorderFrom, carries, Node.propertyNames] at h

lemma plain_inside_fields {parent : Json} {above : List Crumb} {fs : List (String × Json)}
    (h : (Node.postorderFields parent above fs).find? ps.carries = some node) :
    ∃ fs, node.value = .object fs ∧
      ∀ n ∈ Node.postorderFields (.object fs) node.above fs, ps.carries n = false := by
  match fs with
  | [] => simp [Node.postorderFields] at h
  | (k, v) :: fs =>
    rcases find?_fields_cons h with h | ⟨-, h⟩
    · exact plain_inside h
    · exact plain_inside_fields h

lemma plain_inside_items {parent : Json} {above : List Crumb} {i : Nat} {xs : List Json}
    (h : (Node.postorderItems parent above i xs).find? ps.carries = some node) :
    ∃ fs, node.value = .object fs ∧
      ∀ n ∈ Node.postorderFields (.object fs) node.above fs, ps.carries n = false := by
  match xs with
  | [] => simp [Node.postorderItems] at h
  | x :: xs =>
    rcases find?_items_cons h with h | ⟨-, h⟩
    · exact plain_inside h
    · exact plain_inside_items h
end

/-! ### Containers below the one that is replaced -/

mutual
/-- A container fewer steps above the object is not rebuilt, and the replacement goes on up. -/
lemma run_first (hnode : ps.Raises node s w level s') {above : List Crumb} {v : Json} {p : Path}
    (hfirst : (Node.postorderFrom above v).find? ps.carries = some node)
    (hpath : node.path = Node.path ⟨v, above⟩ ++ p) (hlevel : p.length < level) :
    (settle (ps.value above v)).run.run s =
      (.error (.pending (level - p.length - 1) w node.path level), s') := by
  match v with
  | .object fs =>
    rcases find?_object hfirst with hfields | ⟨-, rfl⟩
    · obtain ⟨l, hl⟩ : ∃ l, level - p.length = l + 1 := ⟨level - p.length - 1, by omega⟩
      have hrun := run_first_fields hnode hfields hpath hlevel.le
      rw [hl] at hrun ⊢
      exact run_settle_of_above (run_object_of_error hrun)
    · obtain ⟨l, rfl⟩ : ∃ l, level = l + 1 := ⟨level - 1, by omega⟩
      obtain rfl : p = [] := by simpa using hpath
      exact hnode.above l rfl
  | .array xs =>
    obtain ⟨l, hl⟩ : ∃ l, level - p.length = l + 1 := ⟨level - p.length - 1, by omega⟩
    have hrun := run_first_items hnode (find?_array hfirst) hpath hlevel.le
    rw [hl] at hrun ⊢
    exact run_settle_of_above (run_array_of_error hrun)
  | .null | .bool _ | .number _ | .string _ =>
    simp [Node.postorderFrom, carries, Node.propertyNames] at hfirst

lemma run_first_fields (hnode : ps.Raises node s w level s') {parent : Json} {above : List Crumb}
    {fs : List (String × Json)} {p : Path}
    (hfirst : (Node.postorderFields parent above fs).find? ps.carries = some node)
    (hpath : node.path = Node.path ⟨parent, above⟩ ++ p) (hlevel : p.length ≤ level) :
    (ps.fields parent above fs).run.run s =
      (.error (.pending (level - p.length) w node.path level), s') := by
  match fs with
  | [] => simp [Node.postorderFields] at hfirst
  | (k, v) :: fs =>
    rcases find?_fields_cons hfirst with hv | ⟨hplain, hfs⟩
    · obtain ⟨q, rfl, hq⟩ := exists_cons_of_find? hv hpath
      have hrun := run_first hnode hv hq hlevel
      rw [Nat.sub_sub] at hrun
      exact run_fields_cons_of_error hrun
    · exact run_fields_cons_of_rest (run_plain_value hplain s)
        (run_first_fields hnode hfs hpath hlevel)

lemma run_first_items (hnode : ps.Raises node s w level s') {parent : Json} {above : List Crumb}
    {i : Nat} {xs : List Json} {p : Path}
    (hfirst : (Node.postorderItems parent above i xs).find? ps.carries = some node)
    (hpath : node.path = Node.path ⟨parent, above⟩ ++ p) (hlevel : p.length ≤ level) :
    (ps.items parent above i xs).run.run s =
      (.error (.pending (level - p.length) w node.path level), s') := by
  match xs with
  | [] => simp [Node.postorderItems] at hfirst
  | x :: xs =>
    rcases find?_items_cons hfirst with hx | ⟨hplain, hxs⟩
    · obtain ⟨q, rfl, hq⟩ := exists_cons_of_find? hx hpath
      have hrun := run_first hnode hx hq hlevel
      rw [Nat.sub_sub] at hrun
      exact run_items_cons_of_error hrun
    · exact run_items_cons_of_rest (run_plain_value hplain s)
        (run_first_items hnode hxs hpath hlevel)
end

/-- The container as many steps above the object as was asked for is replaced. -/
lemma run_first_here (hnode : ps.Raises node s w level s') {above : List Crumb} {v : Json}
    {p : Path} (hfirst : (Node.postorderFrom above v).find? ps.carries = some node)
    (hpath : node.path = Node.path ⟨v, above⟩ ++ p) (hlevel : p.length = level) :
    (settle (ps.value above v)).run.run s = (.ok w, s') := by
  match v with
  | .object fs =>
    rcases find?_object hfirst with hfields | ⟨-, rfl⟩
    · have hrun := run_first_fields hnode hfields hpath hlevel.le
      rw [hlevel, Nat.sub_self] at hrun
      exact run_settle_of_here (run_object_of_error hrun)
    · obtain rfl : p = [] := by simpa using hpath
      exact hnode.here hlevel.symm
  | .array xs =>
    have hrun := run_first_items hnode (find?_array hfirst) hpath hlevel.le
    rw [hlevel, Nat.sub_self] at hrun
    exact run_settle_of_here (run_array_of_error hrun)
  | .null | .bool _ | .number _ | .string _ =>
    simp [Node.postorderFrom, carries, Node.propertyNames] at hfirst

/-! ### Containers around the one that is replaced -/

/-- What lies at or below a place inside one field or item is not inside another one. -/
lemma not_carries_of_prefix {nodes : List Node} {base q : Path} {seg : Segment}
    (hothers : ∀ other ∈ nodes, ps.carries other = true → base ++ seg :: q <+: other.path)
    (hnodes : ∀ other ∈ nodes, ∃ seg', seg' ≠ seg ∧ base ++ [seg'] <+: other.path) :
    ∀ other ∈ nodes, ps.carries other = false := by
  intro other hother
  rw [Bool.eq_false_iff]
  intro hcarries
  obtain ⟨seg', hne, hseg'⟩ := hnodes other hother
  have hbase : base ++ [seg] <+: base ++ seg :: q :=
    (List.prefix_append_right_inj base).mpr ⟨q, rfl⟩
  have hseg := hbase.trans (hothers other hother hcarries)
  have heq := (List.prefix_of_prefix_length_le hseg' hseg (by simp)).eq_of_length (by simp)
  exact hne (by simpa using heq)

lemma not_carries_self {above : List Crumb} {v : Json} {seg : Segment} {q : Path}
    (hothers : ∀ other ∈ Node.postorderFrom above v, ps.carries other = true →
      Node.path ⟨v, above⟩ ++ seg :: q <+: other.path)
    (hv : ⟨v, above⟩ ∈ Node.postorderFrom above v) :
    ps.carries ⟨v, above⟩ = false := by
  rw [Bool.eq_false_iff]
  intro hcarries
  have hlength := (hothers _ hv hcarries).length_le
  rw [List.length_append, List.length_cons] at hlength
  omega

mutual
/-- If no keyword stands outside the container that is replaced, everything around it
stays as it is. -/
lemma run_replaced (hnode : ps.Raises node s w level s') {above : List Crumb} {v : Json} {p : Path}
    (hfirst : (Node.postorderFrom above v).find? ps.carries = some node)
    (hpath : node.path = Node.path ⟨v, above⟩ ++ p) (hlevel : level ≤ p.length)
    (hv : v.WellFormed)
    (hothers : ∀ other ∈ Node.postorderFrom above v, ps.carries other = true →
      Node.path ⟨v, above⟩ ++ p.take (p.length - level) <+: other.path) :
    ∃ v', Path.assign? (p.take (p.length - level)) v w = some v' ∧
      (settle (ps.value above v)).run.run s = (.ok v', s') := by
  -- this container is the one that is replaced, or it lies around that one
  rcases hlevel.eq_or_lt with rfl | hlevel
  · rw [Nat.sub_self]
    exact ⟨w, rfl, run_first_here hnode hfirst hpath rfl⟩
  match v with
  | .object fs =>
    rw [Json.WellFormed, Json.wellFormedFields_iff] at hv
    have hfields : (Node.postorderFields (.object fs) above fs).find? ps.carries = some node := by
      refine (find?_object hfirst).resolve_right ?_
      rintro ⟨-, rfl⟩
      obtain rfl : p = [] := by simpa using hpath
      exact absurd hlevel (Nat.not_lt_zero level)
    obtain ⟨key, q, below, below', rfl, hget, hbelow, hrun⟩ :=
      run_replaced_fields hnode hfields hpath hlevel
        hv.1 hv.2 fun other hother => hothers other (by simp [Node.postorderFrom, hother])
    rw [List.length_cons, Nat.succ_sub (Nat.le_of_lt_succ hlevel),
      List.take_succ_cons] at hothers ⊢
    refine ⟨_, Path.assign?_cons_eq_some_iff.mpr ⟨_, _, hget, hbelow, rfl⟩,
      run_settle_of_ok ?_⟩
    exact run_plain_object (not_carries_self hothers (by simp [Node.postorderFrom])) hrun
  | .array xs =>
    rw [Json.WellFormed, Json.wellFormedItems_iff] at hv
    obtain ⟨j, q, below, below', rfl, hget, hbelow, hrun⟩ :=
      run_replaced_items hnode (find?_array hfirst) hpath
        hlevel hv fun other hother => hothers other (by simp [Node.postorderFrom, hother])
    rw [List.length_cons, Nat.succ_sub (Nat.le_of_lt_succ hlevel), List.take_succ_cons,
      Nat.zero_add]
    exact ⟨_, Path.assign?_cons_eq_some_iff.mpr ⟨_, _, hget, hbelow, rfl⟩,
      run_settle_of_ok (run_array hrun)⟩
  | .null | .bool _ | .number _ | .string _ =>
    simp [Node.postorderFrom, carries, Node.propertyNames] at hfirst

lemma run_replaced_fields (hnode : ps.Raises node s w level s') {parent : Json} {above : List Crumb}
    {fs : List (String × Json)} {p : Path}
    (hfirst : (Node.postorderFields parent above fs).find? ps.carries = some node)
    (hpath : node.path = Node.path ⟨parent, above⟩ ++ p) (hlevel : level < p.length)
    (hdistinct : Fields.Distinct fs) (hfs : ∀ field ∈ fs, field.2.WellFormed)
    (hothers : ∀ other ∈ Node.postorderFields parent above fs, ps.carries other = true →
      Node.path ⟨parent, above⟩ ++ p.take (p.length - level) <+: other.path) :
    ∃ key q below below', p = .key key :: q ∧ Fields.get? fs key = some below ∧
      Path.assign? (q.take (q.length - level)) below w = some below' ∧
      (ps.fields parent above fs).run.run s = (.ok (Fields.set fs key below'), s') := by
  match fs with
  | [] => simp [Node.postorderFields] at hfirst
  | (k, v) :: fs =>
    rw [Fields.Distinct, Fields.keys_cons, List.nodup_cons] at hdistinct
    rw [List.forall_mem_cons] at hfs
    rw [Node.postorderFields, List.forall_mem_append] at hothers
    rcases find?_fields_cons hfirst with hv | ⟨hplain, hfirst⟩
    · obtain ⟨q, rfl, hq⟩ := exists_cons_of_find? hv hpath
      rw [List.length_cons, Nat.succ_sub (Nat.le_of_lt_succ hlevel), List.take_succ_cons] at hothers
      obtain ⟨v', hv', hrun⟩ :=
        run_replaced hnode hv hq (Nat.le_of_lt_succ hlevel) hfs.1 (by simpa using hothers.1)
      have hrest := not_carries_of_prefix hothers.2 fun other hother => by
        obtain ⟨field, hfield, hn⟩ := Node.prefix_path_of_mem_fields hother
        refine ⟨_, ?_, hn⟩
        simp only [ne_eq, Segment.key.injEq]
        rintro rfl
        exact hdistinct.1 (List.mem_map.mpr ⟨field, hfield, rfl⟩)
      refine ⟨k, q, v, v', rfl, Fields.get?_cons_self k v fs, hv', ?_⟩
      rw [Fields.set, if_pos rfl]
      exact run_fields_cons hrun (run_plain_fields hrest s')
    · obtain ⟨key, q, below, below', rfl, hget, hbelow, hrun⟩ :=
        run_replaced_fields hnode hfirst hpath hlevel hdistinct.2 hfs.2 hothers.2
      have hne : k ≠ key := by
        rintro rfl
        exact hdistinct.1 (Fields.mem_keys_of_get? hget)
      refine ⟨key, q, below, below', rfl, ?_, hbelow, ?_⟩
      · rw [Fields.get?_cons_of_ne hne, hget]
      · rw [Fields.set, if_neg hne]
        exact run_fields_cons (run_plain_value hplain s) hrun

lemma run_replaced_items (hnode : ps.Raises node s w level s') {parent : Json}
    {above : List Crumb} {i : Nat} {xs : List Json} {p : Path}
    (hfirst : (Node.postorderItems parent above i xs).find? ps.carries = some node)
    (hpath : node.path = Node.path ⟨parent, above⟩ ++ p) (hlevel : level < p.length)
    (hxs : ∀ x ∈ xs, x.WellFormed)
    (hothers : ∀ other ∈ Node.postorderItems parent above i xs, ps.carries other = true →
      Node.path ⟨parent, above⟩ ++ p.take (p.length - level) <+: other.path) :
    ∃ j q below below', p = .index (i + j) :: q ∧ xs[j]? = some below ∧
      Path.assign? (q.take (q.length - level)) below w = some below' ∧
      (ps.items parent above i xs).run.run s = (.ok (xs.set j below'), s') := by
  match xs with
  | [] => simp [Node.postorderItems] at hfirst
  | x :: xs =>
    rw [List.forall_mem_cons] at hxs
    rw [Node.postorderItems, List.forall_mem_append] at hothers
    rcases find?_items_cons hfirst with hx | ⟨hplain, hfirst⟩
    · obtain ⟨q, rfl, hq⟩ := exists_cons_of_find? hx hpath
      rw [List.length_cons, Nat.succ_sub (Nat.le_of_lt_succ hlevel), List.take_succ_cons] at hothers
      obtain ⟨x', hx', hrun⟩ :=
        run_replaced hnode hx hq (Nat.le_of_lt_succ hlevel) hxs.1 (by simpa using hothers.1)
      have hrest := not_carries_of_prefix hothers.2 fun other hother => by
        obtain ⟨j, hj, hn⟩ := Node.prefix_path_of_mem_items hother
        refine ⟨_, ?_, hn⟩
        simp only [ne_eq, Segment.index.injEq]
        omega
      exact ⟨0, q, x, x', rfl, rfl, hx', run_items_cons hrun (run_plain_items hrest s')⟩
    · obtain ⟨j, q, below, below', rfl, hget, hbelow, hrun⟩ :=
        run_replaced_items hnode hfirst hpath hlevel hxs.2 hothers.2
      refine ⟨j + 1, q, below, below', ?_, hget, hbelow,
        run_items_cons (run_plain_value hplain s) hrun⟩
      rw [Nat.add_right_comm, Nat.add_assoc]
end

/-! ### Documents -/

lemma changesAmong_of_one {before after : List (String × Replacement)} {keyword : String}
    (hothers : ∀ reply ∈ before ++ after, reply.2 = .unchanged) :
    changesAmong (before ++ (keyword, .object w level) :: after) =
      [(keyword, .object w level)] := by
  have hnone : ∀ replies ⊆ before ++ after, changesAmong replies = [] := by
    intro replies hreplies
    refine List.filter_eq_nil_iff.mpr fun reply hreply => ?_
    rw [hothers reply (hreplies hreply)]
    exact Bool.false_ne_true
  have hbefore := hnone before (List.subset_append_left before after)
  have hafter := hnone after (List.subset_append_right before after)
  rw [changesAmong] at hbefore hafter ⊢
  rw [List.filter_append, hbefore, List.filter_cons_of_pos rfl, hafter]
  rfl

lemma raises_of_replies {fs : Fields Json} {before after : List (String × Replacement)}
    {keyword : String} (hvalue : node.value = .object fs)
    (hplain : ∀ n ∈ Node.postorderFields (.object fs) node.above fs, ps.carries n = false)
    (hreplies : ps.Replies node fs fs.keys s (before ++ (keyword, .object w level) :: after) s')
    (hothers : ∀ reply ∈ before ++ after, reply.2 = .unchanged) :
    ps.Raises node s w level s' := by
  obtain ⟨value, above⟩ := node
  dsimp only at hvalue hplain
  subst hvalue
  have hrun := hreplies.run_object (run_plain_fields hplain s)
  rw [changesAmong_of_one hothers] at hrun
  constructor
  · rintro rfl
    exact run_settle_of_ok hrun
  · rintro l rfl
    exact run_settle_of_above hrun

/-- Of the first object in post-order that carries a keyword, one keyword wants the container
`level` steps above the object replaced, and the other ones change nothing. If there is such a
container and no object outside of it carries a keyword, the processed document is the old one with
the container replaced; if there are not as many containers, processing fails and names the object
and the level. In neither case is another object asked. -/
theorem replacement_goes_up {document : Json} (hdocument : document.WellFormed)
    (hfirst : (Node.postorder document).find? ps.carries = some node) {fs : Fields Json}
    (hvalue : node.value = .object fs) {before after : List (String × Replacement)}
    {keyword : String}
    (hreplies : ps.Replies node fs fs.keys s (before ++ (keyword, .object w level) :: after) s')
    (hothers : ∀ reply ∈ before ++ after, reply.2 = .unchanged) :
    (level ≤ node.path.length →
      (∀ other ∈ Node.all document, ps.carries other = true →
        node.path.take (node.path.length - level) <+: other.path) →
      ∃ processed, Path.assign? (node.path.take (node.path.length - level)) document w =
        some processed ∧
        (processKeywords ps document).run.run s = (.ok processed, s')) ∧
    (node.path.length < level →
      (processKeywords ps document).run.run s =
        (.error (.levelNotPossible node.path level), s')) := by
  have hnode : ps.Raises node s w level s' := by
    obtain ⟨gs, hgs, hplain⟩ := plain_inside hfirst
    obtain rfl : gs = fs := by simpa using hgs.symm.trans hvalue
    exact raises_of_replies hvalue hplain hreplies hothers
  constructor
  · intro hlevel hinside
    obtain ⟨processed, hprocessed, hrun⟩ :=
      run_replaced hnode hfirst (p := node.path) rfl hlevel hdocument
        fun other hother hcarries => hinside other (Node.mem_postorder_iff.mp hother) hcarries
    exact ⟨processed, hprocessed, run_processKeywords_of_ok hrun⟩
  · intro hlevel
    exact run_processKeywords_of_pending (run_first hnode hfirst (p := node.path) rfl hlevel)

/-- An object in a list wants the list replaced; the processor that counts is asked once, and the
one that fails is never asked. -/
theorem replacement_goes_up_to_list :
    let ps : Processors String (StateM Nat) :=
      [("Fail", fun _ _ _ => throw "broken"), ("Keep", fun _ _ _ => return .unchanged),
        ("Up", fun _ _ v => do
          modify (· + 1)
          return .object v 1)]
    let first : Fields Json := [("Keep", .null), ("Up", .string "new")]
    let list : Json := .array [.object first, .object [("Fail", .null)]]
    let document : Json := .object [("list", list), ("rest", .bool true)]
    let node : Node := ⟨.object first, [⟨.index 0, list⟩, ⟨.key "list", document⟩]⟩
    document.WellFormed ∧ (Node.postorder document).find? ps.carries = some node ∧
      ps.Replies node first first.keys 0
        [("Keep", .unchanged), ("Up", .object (.string "new") 1)] 1 ∧
      (processKeywords ps document).run.run 0 =
        (.ok (.object [("list", .string "new"), ("rest", .bool true)]), 1) := by
  intro ps first list document node
  have hdocument : document.WellFormed := by decide
  have hfirst : (Node.postorder document).find? ps.carries = some node := rfl
  have hreplies : ps.Replies node first first.keys 0
      [("Keep", .unchanged), ("Up", .object (.string "new") 1)] 1 :=
    .keyword rfl rfl (.keyword rfl rfl (.nil 1))
  have hothers : ∀ reply ∈ [(("Keep", .unchanged) : String × Replacement)] ++ [],
      reply.2 = .unchanged := by simp
  obtain ⟨processed, hprocessed, hrun⟩ :=
    (replacement_goes_up hdocument hfirst rfl hreplies hothers).1 (by decide) (by decide)
  cases hprocessed
  exact ⟨hdocument, hfirst, hreplies, hrun⟩

end Processors

end ModularTemplates
