import Mathlib.Tactic.Lemma
import ModularTemplates.Proofs.DocumentOrder
import ModularTemplates.Proofs.Merge.Report

/-!
# Merges that fail

A merge goes through the source in order and stops at the first place where it would have to add
items to something that takes none, or from something that has none. `Rules.Refuses` says what such
a place is, without a merge, and `Rules.StopsAt` what is left behind: the part of the source before
the place is merged, and the rest of the target is as before.

The proof goes down along the place. A container fails in the first part that can not be merged, and
what holds for this part holds for the container (`Rules.StopsAt.of_part`).
-/

namespace ModularTemplates

/-! ### Parts of containers, one by one -/

namespace Json

/-- The parts of a container before one of them. -/
def before : Json → Segment → Json
  | .object fs, .key k => .object (fs.takeWhile fun field => field.1 ≠ k)
  | .array xs, .index i => .array (xs.take i)
  | v, _ => v

/-- Put a value under a segment. A new key goes to the end, and so does the index behind
the last item. -/
def putChild : Json → Segment → Json → Json
  | .object fs, .key k, w => .object (Fields.set fs k w)
  | .array xs, .index i, w => .array (xs.take i ++ w :: xs.drop (i + 1))
  | v, _, _ => v

end Json

namespace Path

/-- The part of a document before a place. Before the root there is none. -/
def partBefore : Path → Json → Option Json
  | [], _ => none
  | seg :: p, v => some (match (v.child? seg).bind (partBefore p) with
    | some w => (v.before seg).putChild seg w
    | none => v.before seg)

lemma eq_nil_of_partBefore {p : Path} {v : Json} (h : p.partBefore v = none) : p = [] := by
  cases p with
  | nil => rfl
  | cons seg p => cases h

/-- Put a value at a path, also where there was nothing yet. -/
def put : Path → Json → Json → Json
  | [], _, w => w
  | seg :: p, v, w => v.putChild seg (put p ((v.child? seg).getD .null) w)

end Path

namespace Rules

variable (rules : Rules) (path : Path) (t s : Json)

/-- A merge goes on to the parts of what stands at a place: no rule is for the place, and there are
two objects, or two arrays that a rule reaches into. -/
def Enters (p : Path) : Prop :=
  rules.find? (path ++ p) = none ∧
    rules.descend (path ++ p) ((p.lookup t).getD .null) ((p.lookup s).getD .null) = true

/-- A merge comes to a place of the source: it enters everything around it. -/
def Reaches (p : Path) : Prop :=
  p.lookup s ≠ none ∧ ∀ q : Path, q <+: p → q ≠ p → rules.Enters path t s q

/-- A merge comes to a place with a rule for adding items, but the source has no items there, or the
target has something that no items can be added to. -/
structure Refuses (p : Path) (operation : Operation) : Prop where
  reaches : rules.Reaches path t s p
  rule : rules.find? (path ++ p) = some operation
  adds : operation = .append ∨ operation = .prepend
  unfit : (∀ xs, p.lookup s ≠ some (.array xs)) ∨
    ∃ old, p.lookup t = some old ∧ old ≠ .null ∧ ∀ xs, old ≠ .array xs

/-- A merge has made `v` of the target when it stopped at a place. -/
structure StopsAt (v : Json) (p : Path) (operation : Operation) : Prop where
  refuses : rules.Refuses path t s p operation
  /-- all other places where it would have to stop come later -/
  first : ∀ other operation', rules.Refuses path t s other operation' →
    other = p ∨ s.Before p other
  /-- before the root nothing is merged -/
  root : p = [] → v = t
  /-- what comes before the place is merged, and what was at the place stays there, or null if
  there was nothing -/
  merged : ∀ part, p.partBefore s = some part → (mergeAt rules path t part).error = none ∧
    v = p.put (mergeAt rules path t part).target ((p.lookup t).getD .null)
  kept : p.lookup v = some ((p.lookup t).getD .null)
  /-- where the merge has not been, and what is not inside of a value that it has changed as a
  whole, is as before -/
  untouched : ∀ (q : Path) w, q.lookup t = some w →
    (∀ r : Path, rules.Reaches path t s r → s.Before r p ∨ r <+: p ∧ r ≠ p → r <+: q →
      r ≠ q ∧ rules.Enters path t s r) → q.lookup v = some w

end Rules

/-! ### Containers taken apart at a segment -/

namespace Json

variable {v w : Json} {seg other : Segment} {fs gs : Fields Json} {xs ys : List Json} {k : String}

/-- What stands before and behind a part of a container. -/
lemma exists_split (hv : v.WellFormed) (hw : v.child? seg = some w) :
    (∃ fs gs k, v = .object (fs ++ (k, w) :: gs) ∧ seg = .key k ∧ k ∉ Fields.keys fs ∧
      k ∉ Fields.keys gs) ∨
      ∃ xs ys, v = .array (xs ++ w :: ys) ∧ seg = .index xs.length := by
  rcases exists_of_child? hw with ⟨fs, k, rfl, rfl, hk⟩ | ⟨xs, i, rfl, rfl, hi⟩
  · left
    obtain ⟨before, after, rfl⟩ := List.append_of_mem (Fields.mem_of_get? hk)
    have hnodup := hv.distinct
    rw [Fields.Distinct, Fields.keys_append, Fields.keys_cons, List.nodup_append',
      List.nodup_cons] at hnodup
    exact ⟨before, after, k, rfl, rfl, fun h => hnodup.2.2 h List.mem_cons_self, hnodup.2.1.1⟩
  · right
    obtain ⟨hlt, rfl⟩ := List.getElem?_eq_some_iff.mp hi
    refine ⟨xs.take i, xs.drop (i + 1), ?_, ?_⟩
    · rw [List.getElem_cons_drop, List.take_append_drop]
    · rw [List.length_take, Nat.min_eq_left (Nat.le_of_lt hlt)]

lemma before_object (hk : k ∉ Fields.keys fs) :
    (object (fs ++ (k, w) :: gs)).before (.key k) = .object fs := by
  rw [before, List.takeWhile_append_of_pos, List.takeWhile_cons_of_neg, List.append_nil]
  · simp
  · intro field hfield
    have hne : field.1 ≠ k := fun h => hk (h ▸ List.mem_map_of_mem hfield)
    simpa using hne

lemma before_array : (array (xs ++ w :: ys)).before (.index xs.length) = .array xs := by
  rw [before, List.take_left']
  rfl

lemma putChild_object (hk : k ∉ Fields.keys fs) (w : Json) :
    (object fs).putChild (.key k) w = .object (fs ++ [(k, w)]) := by
  rw [putChild, Fields.set_of_not_mem hk]

lemma putChild_array (w : Json) :
    (array xs).putChild (.index xs.length) w = .array (xs ++ [w]) := by
  simp [putChild]

section Split

variable {t v w s s' u : Json} {seg other : Segment} {rules : Rules} {path : Path}
  {part part' : Segment → Json}

lemma segments_eq_before (hs : s.WellFormed) (hs' : s.child? seg = some s') :
    ∃ rest, s.segments = (s.before seg).segments ++ seg :: rest := by
  obtain ⟨fs, gs, k, rfl, rfl, hfs, hgs⟩ | ⟨xs, ys, rfl, rfl⟩ := exists_split hs hs'
  · refine ⟨(Fields.keys gs).map .key, ?_⟩
    simp [before_object hfs, segments]
  · refine ⟨(List.range ys.length).map fun i => .index (xs.length + 1 + i), ?_⟩
    rw [before_array, segments, segments, List.length_append, List.length_cons,
      Nat.add_comm ys.length, ← Nat.add_assoc, List.range_add, List.range_succ]
    simp

lemma child?_before (hs : s.WellFormed) (hs' : s.child? seg = some s')
    (h : other ∈ (s.before seg).segments) :
    (s.before seg).child? other = s.child? other := by
  obtain ⟨fs, gs, k, rfl, rfl, hfs, hgs⟩ | ⟨xs, ys, rfl, rfl⟩ := exists_split hs hs'
  · rw [before_object hfs] at h ⊢
    obtain ⟨v, hv⟩ := mem_segments_iff.mp h
    cases other with
    | index i => cases hv
    | key k' =>
      rw [hv]
      exact (hs.distinct.get?_of_mem (List.mem_append_left _ (Fields.mem_of_get? hv))).symm
  · rw [before_array] at h ⊢
    obtain ⟨v, hv⟩ := mem_segments_iff.mp h
    cases other with
    | key k' => cases hv
    | index i =>
      obtain ⟨hi, -⟩ := List.getElem?_eq_some_iff.mp hv
      exact (List.getElem?_append_left hi).symm

lemma segments_putChild_before (hs : s.WellFormed) (hs' : s.child? seg = some s') (w : Json) :
    ((s.before seg).putChild seg w).segments = (s.before seg).segments ++ [seg] := by
  obtain ⟨fs, gs, k, rfl, rfl, hfs, hgs⟩ | ⟨xs, ys, rfl, rfl⟩ := exists_split hs hs'
  · rw [before_object hfs, putChild_object hfs]
    simp [segments]
  · rw [before_array, putChild_array]
    simp [segments, List.range_succ]

lemma child?_putChild_before (hs : s.WellFormed) (hs' : s.child? seg = some s') (w : Json)
    (other : Segment) :
    ((s.before seg).putChild seg w).child? other =
      if other = seg then some w else (s.before seg).child? other := by
  obtain ⟨fs, gs, k, rfl, rfl, hfs, hgs⟩ | ⟨xs, ys, rfl, rfl⟩ := exists_split hs hs'
  · rw [before_object hfs]
    cases other with
    | index i => rfl
    | key k' => simpa [child?, putChild] using Fields.get?_set fs k k' w
  · rw [before_array, putChild_array]
    cases other with
    | key k' => rfl
    | index i =>
      simp only [child?, Segment.index.injEq]
      grind

lemma descend_before (hs : s.WellFormed) (hs' : s.child? seg = some s') :
    rules.descend path t (s.before seg) = rules.descend path t s := by
  obtain ⟨fs, gs, k, rfl, rfl, hfs, hgs⟩ | ⟨xs, ys, rfl, rfl⟩ := exists_split hs hs'
  · rw [before_object hfs]
    cases t <;> rfl
  · rw [before_array]
    cases t <;> rfl

lemma descend_putChild_before (hs : s.WellFormed) (hs' : s.child? seg = some s') (w : Json) :
    rules.descend path t ((s.before seg).putChild seg w) = rules.descend path t s := by
  obtain ⟨fs, gs, k, rfl, rfl, hfs, hgs⟩ | ⟨xs, ys, rfl, rfl⟩ := exists_split hs hs'
  · rw [before_object hfs, putChild_object hfs]
    cases t <;> rfl
  · rw [before_array, putChild_array]
    cases t <;> rfl

lemma withParts_congr (h : ∀ other ∈ s.segments, part other = part' other) :
    t.withParts s part = t.withParts s part' := by
  cases t with
  | object ts =>
    cases s with
    | object ss =>
      have hkeys : ((Fields.keys ss).map fun k => (k, part (.key k))) =
          (Fields.keys ss).map fun k => (k, part' (.key k)) :=
        List.map_congr_left fun k hk => by rw [h (.key k) (List.mem_map_of_mem hk)]
      rw [withParts, withParts, hkeys]
    | _ => rfl
  | array ts =>
    cases s with
    | array ss =>
      have hitems : ((List.range ss.length).map fun i => part (.index i)) =
          (List.range ss.length).map fun i => part' (.index i) :=
        List.map_congr_left fun i hi => h (.index i) (List.mem_map_of_mem hi)
      rw [withParts, withParts, hitems]
    | _ => rfl
  | _ => rfl

/-- The part behind the others is put in last. -/
lemma withParts_putChild_before (hs : s.WellFormed) (hs' : s.child? seg = some s')
    (hdescend : rules.descend path t s = true) (w : Json) (part : Segment → Json) :
    t.withParts ((s.before seg).putChild seg w) part =
      (t.withParts (s.before seg) part).putChild seg (part seg) := by
  obtain ⟨fs, gs, k, rfl, rfl, hfs, hgs⟩ | ⟨xs, ys, rfl, rfl⟩ := exists_split hs hs'
  · rw [before_object hfs, putChild_object hfs]
    obtain ⟨ts, ss, rfl, -⟩ | ⟨ts, ss, -, hss⟩ := Rules.containers_of_descend hdescend
    · simp [withParts, putChild, Fields.update]
    · cases hss
  · rw [before_array, putChild_array]
    obtain ⟨ts, ss, -, hss⟩ | ⟨ts, ss, rfl, -⟩ := Rules.containers_of_descend hdescend
    · cases hss
    · simp [withParts, putChild, List.range_succ, List.drop_append]

lemma child?_putChild_withParts (hs : s.WellFormed) (hs' : s.child? seg = some s')
    (hdescend : rules.descend path t s = true) (part : Segment → Json) (w : Json) :
    ((t.withParts (s.before seg) part).putChild seg w).child? seg = some w := by
  obtain ⟨fs, gs, k, rfl, rfl, hfs, hgs⟩ | ⟨xs, ys, rfl, rfl⟩ := exists_split hs hs'
  · rw [before_object hfs]
    obtain ⟨ts, ss, rfl, -⟩ | ⟨ts, ss, -, hss⟩ := Rules.containers_of_descend hdescend
    · simp [withParts, putChild, child?]
    · cases hss
  · rw [before_array]
    obtain ⟨ts, ss, -, hss⟩ | ⟨ts, ss, rfl, -⟩ := Rules.containers_of_descend hdescend
    · cases hss
    · simp [withParts, putChild, child?]

/-- Putting another value in its place undoes putting in a part. -/
lemma putChild_putChild_withParts (hs : s.WellFormed) (hs' : s.child? seg = some s')
    (hdescend : rules.descend path t s = true) (part : Segment → Json) (w u : Json) :
    ((t.withParts (s.before seg) part).putChild seg w).putChild seg u =
      (t.withParts (s.before seg) part).putChild seg u := by
  obtain ⟨fs, gs, k, rfl, rfl, hfs, hgs⟩ | ⟨xs, ys, rfl, rfl⟩ := exists_split hs hs'
  · rw [before_object hfs]
    obtain ⟨ts, ss, rfl, -⟩ | ⟨ts, ss, -, hss⟩ := Rules.containers_of_descend hdescend
    · rw [withParts, putChild, putChild, putChild, Fields.set_set]
    · cases hss
  · rw [before_array]
    obtain ⟨ts, ss, -, hss⟩ | ⟨ts, ss, rfl, -⟩ := Rules.containers_of_descend hdescend
    · cases hss
    · simp [withParts, putChild, List.drop_append]

end Split

end Json

/-! ### The part where a merge fails -/

section Parts

variable {rules : Rules} {path : Path} {e : MergeError}

lemma Merged.error_next_eq_some {α β : Type} {m : Merged α} {target : β} {rest : Merged β} :
    (m.next target rest).error = some e ↔
      m.error = some e ∨ m.error = none ∧ rest.error = some e := by
  unfold Merged.next
  cases m.error <;> simp

lemma Merged.target_next_of_error {α β : Type} {m : Merged α} (h : m.error = some e)
    (target : β) (rest : Merged β) : (m.next target rest).target = target := by
  rw [Merged.next, h]

/-- Fields with distinct keys are merged one beside the other up to the first one that fails. -/
lemma mergeFields_of_error {ts : Fields Json} {ss : List (String × Json)}
    (hdistinct : Fields.Distinct ss) (herror : (mergeFields rules path ts ss).error = some e)
    {part : String → Merged Json}
    (hpart : ∀ k s, (k, s) ∈ ss →
      mergeAt rules (path ++ [.key k]) ((ts.get? k).getD .null) s = part k) :
    ∃ fs k s gs, ss = fs ++ (k, s) :: gs ∧
      (∀ other ∈ Fields.keys fs, (part other).error = none) ∧
      (part k).error = some e ∧ (mergeFields rules path ts ss).target =
        (ts.update ((Fields.keys fs).map fun other => (other, (part other).target))).set k
          (part k).target := by
  induction ss generalizing ts with
  | nil => cases herror
  | cons field ss ih =>
    obtain ⟨k, s⟩ := field
    rw [Fields.Distinct, Fields.keys_cons, List.nodup_cons] at hdistinct
    simp only [mergeFields, hpart k s List.mem_cons_self] at herror ⊢
    rcases Merged.error_next_eq_some.mp herror with hk | ⟨hk, hrest⟩
    · refine ⟨[], k, s, ss, rfl, by simp, hk, ?_⟩
      rw [Merged.target_next_of_error hk]
      rfl
    · obtain ⟨fs, other, s', gs, rfl, hfs, hother, htarget⟩ :=
      ih hdistinct.2 hrest fun other s' hmem => by
        have hne : other ≠ k := by
          rintro rfl
          exact hdistinct.1 (List.mem_map.mpr ⟨_, hmem, rfl⟩)
        rw [Fields.get?_set_of_ne hne]
        exact hpart other s' (List.mem_cons_of_mem (k, s) hmem)
      refine ⟨(k, s) :: fs, other, s', gs, rfl, List.forall_mem_cons.mpr ⟨hk, hfs⟩,
        hother, ?_⟩
      rw [Merged.next_of_error hk, htarget]
      rfl

/-- Items are merged one beside the other up to the first one that fails. -/
lemma mergeItems_of_error {i : Nat} {ts ss : List Json}
    (herror : (mergeItems rules path i ts ss).error = some e) {part : Nat → Merged Json}
    (hpart : ∀ j s, ss[j]? = some s →
      mergeAt rules (path ++ [.index (i + j)]) (ts[j]?.getD .null) s = part j) :
    ∃ xs s ys, ss = xs ++ s :: ys ∧ (∀ j < xs.length, (part j).error = none) ∧
      (part xs.length).error = some e ∧ (mergeItems rules path i ts ss).target =
        (List.range xs.length).map (fun j => (part j).target) ++
          (part xs.length).target :: ts.drop (xs.length + 1) := by
  induction ss generalizing i ts part with
  | nil => cases herror
  | cons s ss ih =>
    have hhead : mergeAt rules (path ++ [.index i]) (ts.headD .null) s = part 0 := by
      rw [← hpart 0 s rfl, List.headD_eq_head?_getD, List.head?_eq_getElem?]
      rfl
    simp only [mergeItems, hhead, Merged.map] at herror ⊢
    rcases Merged.error_next_eq_some.mp herror with hs | ⟨hs, hrest⟩
    · refine ⟨[], s, ss, rfl, by simp, hs, ?_⟩
      rw [Merged.target_next_of_error hs]
      simp
    · obtain ⟨xs, s', ys, rfl, hxs, hs', htarget⟩ :=
      @ih (i + 1) ts.tail hrest (fun j => part (j + 1))
        fun j s' hs' => by
          rw [List.getElem?_tail, Nat.add_assoc, Nat.add_comm 1 j]
          exact hpart (j + 1) s' hs'
      refine ⟨s :: xs, s', ys, rfl, ?_, hs', ?_⟩
      · intro j hj
        cases j with
        | zero => exact hs
        | succ j => exact hxs j (Nat.lt_of_succ_lt_succ hj)
      · rw [Merged.next_of_error hs, htarget, List.length_cons, List.range_succ_eq_map]
        simp [Function.comp_def]

end Parts

/-! ### Places that a merge comes to -/

namespace Rules

variable {rules : Rules} {path p : Path} {t s s' : Json} {seg : Segment} {operation : Operation}

lemma enters_nil_iff :
    rules.Enters path t s [] ↔ rules.find? path = none ∧ rules.descend path t s = true := by
  simp [Enters]

lemma enters_cons_iff (hs' : s.child? seg = some s') : rules.Enters path t s (seg :: p) ↔
    rules.Enters (path ++ [seg]) ((t.child? seg).getD .null) s' p := by
  rw [Enters, Enters, Path.getD_lookup_cons, Path.lookup_of_child hs', List.append_cons]

lemma reaches_nil : rules.Reaches path t s [] :=
  ⟨by simp, fun q hq hne => absurd (List.prefix_nil.mp hq) hne⟩

/-- A merge comes to a place inside a part if it enters the container and comes there
from the part. -/
lemma reaches_cons_iff (hs' : s.child? seg = some s') : rules.Reaches path t s (seg :: p) ↔
    rules.Enters path t s [] ∧
    rules.Reaches (path ++ [seg]) ((t.child? seg).getD .null) s' p := by
  rw [Reaches, Reaches, Path.lookup_of_child hs']
  constructor
  · rintro ⟨hp, h⟩
    refine ⟨h [] List.nil_prefix (by simp), hp, fun q hq hne => (enters_cons_iff hs').mp ?_⟩
    exact h (seg :: q) (List.cons_prefix_cons.mpr ⟨rfl, hq⟩) (by simpa using hne)
  · rintro ⟨henters, hp, h⟩
    refine ⟨hp, fun q hq hne => ?_⟩
    cases q with
    | nil => exact henters
    | cons other q =>
      obtain ⟨rfl, hq'⟩ := List.cons_prefix_cons.mp hq
      exact (enters_cons_iff hs').mpr (h q hq' (by simpa using hne))

lemma Reaches.exists_child? (h : rules.Reaches path t s (seg :: p)) :
    ∃ s', s.child? seg = some s' := by
  refine Option.ne_none_iff_exists'.mp fun hnone => h.1 ?_
  rw [Path.lookup_cons, hnone]
  rfl

lemma Reaches.enters (h : rules.Reaches path t s (seg :: p)) : rules.Enters path t s [] :=
  h.2 [] List.nil_prefix (by simp)

lemma exists_unfit_iff {old? : Option Json} :
    (∃ old, old? = some old ∧ old ≠ .null ∧ ∀ xs, old ≠ .array xs) ↔
    (old?.getD .null).itemsOrNull? = none := by
  cases old? with
  | none => simp [Json.itemsOrNull?]
  | some old => cases old <;> simp [Json.itemsOrNull?]

lemma refuses_iff : rules.Refuses path t s p operation ↔
    rules.Reaches path t s p ∧ rules.find? (path ++ p) = some operation ∧
      (operation = .append ∨ operation = .prepend) ∧
      ((∀ xs, p.lookup s ≠ some (.array xs)) ∨
        ((p.lookup t).getD .null).itemsOrNull? = none) := by
  rw [← exists_unfit_iff]
  exact ⟨fun h => ⟨h.reaches, h.rule, h.adds, h.unfit⟩,
    fun ⟨hreaches, hrule, hadds, hunfit⟩ => ⟨hreaches, hrule, hadds, hunfit⟩⟩

lemma refuses_cons_iff (hs' : s.child? seg = some s') :
    rules.Refuses path t s (seg :: p) operation ↔
    rules.Enters path t s [] ∧
    rules.Refuses (path ++ [seg]) ((t.child? seg).getD .null) s' p operation := by
  rw [refuses_iff, refuses_iff, reaches_cons_iff hs', Path.lookup_of_child hs',
    Path.getD_lookup_cons, List.append_cons path seg p, and_assoc]

/-- Where there is a rule, a merge goes no further. -/
lemma Refuses.eq_nil_of_rule (h : rules.Refuses path t s p operation) {operation' : Operation}
    (hrule : rules.find? path = some operation') : p = [] ∧ operation = operation' := by
  cases p with
  | nil =>
    have hfind := h.rule
    rw [List.append_nil, hrule] at hfind
    exact ⟨rfl, (Option.some.inj hfind).symm⟩
  | cons seg p =>
    have hfind := (enters_nil_iff.mp h.reaches.enters).1
    rw [hrule] at hfind
    cases hfind

/-- A failure at a place without a rule is a failure further down. -/
lemma Refuses.exists_cons (h : rules.Refuses path t s p operation)
    (hfind : rules.find? path = none) :
    ∃ seg q s', p = seg :: q ∧ s.child? seg = some s' ∧ rules.descend path t s = true ∧
      rules.Refuses (path ++ [seg]) ((t.child? seg).getD .null) s' q operation := by
  cases p with
  | nil =>
    have hrule := h.rule
    rw [List.append_nil, hfind] at hrule
    cases hrule
  | cons seg q =>
    obtain ⟨s', hs'⟩ := h.reaches.exists_child?
    obtain ⟨henters, hrefuses⟩ := (refuses_cons_iff hs').mp h
    exact ⟨seg, q, s', rfl, hs', (enters_nil_iff.mp henters).2, hrefuses⟩

/-- Of some places that a merge comes to, those around a place are all entered, and the place is
none of them. -/
def Spares (rules : Rules) (path : Path) (t s : Json) (among : Path → Prop) (q : Path) : Prop :=
  ∀ r : Path, rules.Reaches path t s r → among r → r <+: q →
    r ≠ q ∧ rules.Enters path t s r

lemma Spares.mono {among among' : Path → Prop} (h : rules.Spares path t s among p)
    (hamong : ∀ r, among' r → among r) : rules.Spares path t s among' p :=
  fun r hr hr' => h r hr (hamong r hr')

lemma Spares.ne_nil {among : Path → Prop} (h : rules.Spares path t s among p)
    (hnil : among []) : p ≠ [] :=
  (h [] reaches_nil hnil List.nil_prefix).1.symm

lemma Spares.enters {among : Path → Prop} (h : rules.Spares path t s among p) (hnil : among []) :
    rules.find? path = none ∧ rules.descend path t s = true :=
  enters_nil_iff.mp (h [] reaches_nil hnil List.nil_prefix).2

/-- What is spared inside of a part is spared in a merge of the part. -/
lemma Spares.part {among : Path → Prop} (hs' : s.child? seg = some s')
    (henters : rules.Enters path t s []) (h : rules.Spares path t s among (seg :: p)) :
    rules.Spares (path ++ [seg]) ((t.child? seg).getD .null) s' (fun r => among (seg :: r)) p := by
  intro r hr hamong hrp
  obtain ⟨hne, hr⟩ := h (seg :: r) ((reaches_cons_iff hs').mpr ⟨henters, hr⟩) hamong
    (List.cons_prefix_cons.mpr ⟨rfl, hrp⟩)
  exact ⟨fun heq => hne (congrArg _ heq), (enters_cons_iff hs').mp hr⟩

end Rules

/-! ### Where a merge fails -/

section Fail

variable {rules : Rules} {path : Path} {t s : Json} {operation : Operation} {e : MergeError}

lemma error_addItems_iff : (addItems operation path t s).error = some e ↔
    e = .notAnArray path operation ∧ ((∀ xs, s ≠ .array xs) ∨ t.itemsOrNull? = none) := by
  unfold addItems
  cases t.itemsOrNull? with
  | none => cases s <;> simp [eq_comm]
  | some ts =>
    cases s with
    | array ss => split_ifs <;> simp [Merged.changed]
    | _ => simp [eq_comm]

lemma error_applyOperation_iff : (applyOperation operation path t s).error = some e ↔
    e = .notAnArray path operation ∧ (operation = .append ∨ operation = .prepend) ∧
      ((∀ xs, s ≠ .array xs) ∨ t.itemsOrNull? = none) := by
  cases operation with
  | replace | combine => simp [applyOperation, Merged.changed]
  | append | prepend => simpa [applyOperation] using error_addItems_iff

/-- A rule that can not be applied leaves the target as it is. -/
lemma target_applyOperation (h : (applyOperation operation path t s).error = some e) :
    (applyOperation operation path t s).target = t := by
  cases operation with
  | replace | combine => cases h
  | append | prepend =>
    simp only [applyOperation, addItems] at h ⊢
    split at h
    · split_ifs at h <;> cases h
    · rfl

/-- A merge that goes into a container fails at the first part that it can not merge. It has merged
the parts before, and what it has made of the part where it stopped stands in its place. -/
lemma exists_failing_part (hnodup : s.segments.Nodup) (hfind : rules.find? path = none)
    (hdescend : rules.descend path t s = true) (herror : (mergeAt rules path t s).error = some e) :
    ∃ seg s', s.child? seg = some s' ∧
      (∀ other ∈ (s.before seg).segments, (mergePart rules path t s other).error = none) ∧
      (mergePart rules path t s seg).error = some e ∧
      (mergeAt rules path t s).target =
        t.withParts ((s.before seg).putChild seg s') fun other =>
          (mergePart rules path t s other).target := by
  obtain ⟨ts, ss, rfl, rfl⟩ | ⟨ts, ss, rfl, rfl⟩ := Rules.containers_of_descend hdescend
  · have hdistinct : Fields.Distinct ss := List.Nodup.of_map _ hnodup
    simp only [mergeAt, hfind, Merged.map] at herror ⊢
    obtain ⟨fs, k, s', gs, rfl, hfs, hk, htarget⟩ :=
      @mergeFields_of_error rules path e ts ss hdistinct herror
        (fun k => mergePart rules path (.object ts) (.object ss) (.key k)) fun k s hs => by
          rw [mergePart, Json.child?, Json.child?, hdistinct.get?_of_mem hs, Option.getD_some]
    have hs' := hdistinct.get?_of_mem (List.mem_append_right fs List.mem_cons_self)
    rw [Fields.Distinct, Fields.keys_append, List.nodup_append'] at hdistinct
    have hnotin : k ∉ Fields.keys fs := fun h => hdistinct.2.2 h List.mem_cons_self
    refine ⟨.key k, s', hs', ?_, hk, ?_⟩
    · rw [Json.before_object hnotin]
      intro other hother
      obtain ⟨k', hk', rfl⟩ := List.mem_map.mp hother
      exact hfs k' hk'
    · rw [Json.before_object hnotin, Json.putChild_object hnotin, htarget]
      simp [Json.withParts, Fields.update]
  · have hbelow : rules.reachBelow path = true := hdescend
    simp only [mergeAt, hfind, hbelow, if_true, Merged.map] at herror ⊢
    obtain ⟨xs, s', ys, rfl, hxs, hitem, htarget⟩ :=
      @mergeItems_of_error rules path e 0 ts ss herror
        (fun i => mergePart rules path (.array ts) (.array ss) (.index i)) fun i s hs => by
          rw [mergePart, Json.child?, Json.child?, hs, Option.getD_some, Nat.zero_add]
    refine ⟨.index xs.length, s', by simp [Json.child?], ?_, hitem, ?_⟩
    · rw [Json.before_array]
      intro other hother
      obtain ⟨i, hi, rfl⟩ := List.mem_map.mp hother
      exact hxs i (List.mem_range.mp hi)
    · rw [Json.before_array, Json.putChild_array, htarget]
      simp [Json.withParts, List.range_succ]

/-- A container is merged without an error if its parts are. -/
lemma mergeAt_of_parts (hnodup : s.segments.Nodup) (hfind : rules.find? path = none)
    (hdescend : rules.descend path t s = true)
    (hparts : ∀ seg ∈ s.segments, (mergePart rules path t s seg).error = none) :
    (mergeAt rules path t s).error = none ∧
      (mergeAt rules path t s).target = t.withParts s fun seg =>
        (mergePart rules path t s seg).target := by
  have herror : (mergeAt rules path t s).error = none := by
    by_contra herror
    obtain ⟨e, he⟩ := Option.ne_none_iff_exists'.mp herror
    obtain ⟨seg, s', hs', -, hseg, -⟩ := exists_failing_part hnodup hfind hdescend he
    rw [hparts seg (Json.mem_segments_iff.mpr ⟨s', hs'⟩)] at hseg
    cases hseg
  exact ⟨herror, (mergeAt_of_descend hfind hdescend hnodup herror).2.1⟩

end Fail

/-- A merge that goes through has come to no place where it would have to stop. -/
lemma not_refuses_of_error_eq_none {rules : Rules} (path : Path) (t s : Json) (hs : s.WellFormed)
    (herror : (mergeAt rules path t s).error = none) {p : Path} {operation : Operation} :
    ¬ rules.Refuses path t s p operation := by
  intro h
  cases hfind : rules.find? path with
  | some operation' =>
    obtain ⟨rfl, rfl⟩ := h.eq_nil_of_rule hfind
    obtain ⟨-, -, hadds, hunfit⟩ := Rules.refuses_iff.mp h
    have hfails : (applyOperation operation path t s).error = some (.notAnArray path operation) :=
      error_applyOperation_iff.mpr ⟨rfl, hadds, by simpa using hunfit⟩
    rw [mergeAt_of_rule hfind, hfails] at herror
    cases herror
  | none =>
    obtain ⟨seg, q, s', rfl, hs', hdescend, hrefuses⟩ := h.exists_cons hfind
    have hpart := (mergeAt_of_descend hfind hdescend (Json.nodup_segments hs) herror).1 seg
      (Json.mem_segments_iff.mpr ⟨s', hs'⟩)
    rw [mergePart, hs', Option.getD_some] at hpart
    exact not_refuses_of_error_eq_none (path ++ [seg]) _ s' (hs.child? hs') hpart hrefuses
termination_by sizeOf s
decreasing_by exact Json.sizeOf_lt_of_child? hs'

/-- What a merge has not come to, or has gone through to the parts beside, is as before. -/
lemma Merges.untouched {rules : Rules} {path : Path} {t s v : Json} {changes : List Change}
    (h : Merges rules path t s v changes) {q : Path} {w : Json} (hw : q.lookup t = some w)
    (hq : rules.Spares path t s (fun _ => True) q) : q.lookup v = some w := by
  induction h generalizing q with
  | replaced h =>
    obtain ⟨hfind, hdescend⟩ := hq.enters trivial
    simp [hfind, hdescend] at h
  | combined h | appended h ht | prepended h ht =>
    rw [(hq.enters trivial).1] at h
    cases h
  | entered hfind hdescend hnodup parts ih =>
    cases q with
    | nil => exact absurd rfl (hq.ne_nil trivial)
    | cons seg q =>
      rw [Path.lookup_cons, Json.child?_withParts hdescend]
      split_ifs with hseg
      · obtain ⟨s', hs'⟩ := Json.mem_segments_iff.mp hseg
        obtain ⟨t', ht', hw⟩ := Option.bind_eq_some_iff.mp hw
        exact ih seg s' hs' (by rwa [ht'])
          (hq.part hs' (Rules.enters_nil_iff.mpr ⟨hfind, hdescend⟩))
      · exact hw

/-! ### Up to the place where a merge fails -/

section UpTo

variable {rules : Rules} {path : Path} {t s s' : Json} {seg : Segment} {e : MergeError}

/-- A merge of the parts before another one. -/
lemma mergeAt_before (hs : s.WellFormed) (hs' : s.child? seg = some s')
    (hfind : rules.find? path = none) (hdescend : rules.descend path t s = true)
    (hbefore : ∀ other ∈ (s.before seg).segments,
      (mergePart rules path t s other).error = none) :
    (mergeAt rules path t (s.before seg)).error = none ∧
    (mergeAt rules path t (s.before seg)).target =
      t.withParts (s.before seg) fun other => (mergePart rules path t s other).target := by
  have hother : ∀ other ∈ (s.before seg).segments,
      mergePart rules path t (s.before seg) other = mergePart rules path t s other := by
    intro other hmem
    rw [mergePart, mergePart, Json.child?_before hs hs' hmem]
  have hnodup := Json.nodup_segments hs
  obtain ⟨rest, hrest⟩ := Json.segments_eq_before hs hs'
  rw [hrest, List.nodup_append'] at hnodup
  rw [← Json.descend_before hs hs'] at hdescend
  obtain ⟨herror, htarget⟩ := mergeAt_of_parts hnodup.1 hfind hdescend fun other hmem => by
    rw [hother other hmem, hbefore other hmem]
  rw [htarget, Json.withParts_congr fun other hmem => congrArg Merged.target (hother other hmem)]
  exact ⟨herror, rfl⟩

/-- A merge of the parts before another one, and of something else in place of this one. -/
lemma mergeAt_putChild_before (hs : s.WellFormed) (hs' : s.child? seg = some s')
    (hfind : rules.find? path = none) (hdescend : rules.descend path t s = true)
    (hbefore : ∀ other ∈ (s.before seg).segments, (mergePart rules path t s other).error = none)
    {w : Json} (hw : (mergeAt rules (path ++ [seg]) ((t.child? seg).getD .null) w).error = none) :
    (mergeAt rules path t ((s.before seg).putChild seg w)).error = none ∧
    (mergeAt rules path t ((s.before seg).putChild seg w)).target =
      (t.withParts (s.before seg) fun other => (mergePart rules path t s other).target).putChild seg
        (mergeAt rules (path ++ [seg]) ((t.child? seg).getD .null) w).target := by
  have hseg : mergePart rules path t ((s.before seg).putChild seg w) seg =
      mergeAt rules (path ++ [seg]) ((t.child? seg).getD .null) w := by
    rw [mergePart, Json.child?_putChild_before hs hs', if_pos rfl, Option.getD_some]
  have hnodup := Json.nodup_segments hs
  obtain ⟨rest, hrest⟩ := Json.segments_eq_before hs hs'
  rw [hrest, List.append_cons, List.nodup_append'] at hnodup
  have hother : ∀ other ∈ (s.before seg).segments,
      mergePart rules path t ((s.before seg).putChild seg w) other =
          mergePart rules path t s other := by
    intro other hmem
    have hne : other ≠ seg := by
      rintro rfl
      exact (List.nodup_append'.mp hnodup.1).2.2 hmem (List.mem_singleton_self other)
    rw [mergePart, mergePart, Json.child?_putChild_before hs hs', if_neg hne,
      Json.child?_before hs hs' hmem]
  have hdescend' : rules.descend path t ((s.before seg).putChild seg w) = true := by
    rw [Json.descend_putChild_before hs hs', hdescend]
  have hsegments := Json.segments_putChild_before hs hs' w
  obtain ⟨herror, htarget⟩ :=
    mergeAt_of_parts (hsegments ▸ hnodup.1) hfind hdescend' fun other hmem => by
    rw [hsegments, List.mem_append, List.mem_singleton] at hmem
    rcases hmem with hmem | rfl
    · rw [hother other hmem, hbefore other hmem]
    · rw [hseg, hw]
  rw [htarget, Json.withParts_putChild_before hs hs' hdescend w fun other =>
      (mergePart rules path t ((s.before seg).putChild seg w) other).target, hseg,
    Json.withParts_congr fun other hmem => congrArg Merged.target (hother other hmem)]
  exact ⟨herror, rfl⟩

end UpTo

/-! ### The place where a merge fails -/

namespace Rules

section StopsAt

variable {rules : Rules} {path : Path} {t s s' v v' : Json} {seg : Segment} {p : Path}
  {operation : Operation}

lemma StopsAt.of_rule (hfind : rules.find? path = some operation)
    (hadds : operation = .append ∨ operation = .prepend)
    (hunfit : (∀ xs, s ≠ .array xs) ∨ t.itemsOrNull? = none) :
    rules.StopsAt path t s t [] operation where
  refuses :=
    refuses_iff.mpr ⟨reaches_nil, by rwa [List.append_nil], hadds, by simpa using hunfit⟩
  first other operation' h := .inl (h.eq_nil_of_rule hfind).1
  root _ := rfl
  merged part h := by cases h
  kept := rfl
  untouched q w hw _ := hw

end StopsAt

/-- A merge has gone into a container, has merged the parts before one of them, and has stopped in
this one. What it has made of this part stands in its place. -/
structure StopsIn (rules : Rules) (path : Path) (t s v : Json) (seg : Segment)
    (s' : Json) : Prop where
  wellFormed : s.WellFormed
  child : s.child? seg = some s'
  norule : rules.find? path = none
  descend : rules.descend path t s = true
  before : ∀ other ∈ (s.before seg).segments, (mergePart rules path t s other).error = none
  target : v = t.withParts ((s.before seg).putChild seg s') fun other =>
    (mergePart rules path t s other).target

namespace StopsIn

variable {rules : Rules} {path : Path} {t s s' s'' v w : Json} {seg other : Segment} {p q : Path}
  {operation operation' : Operation} (hin : rules.StopsIn path t s v seg s')

include hin

lemma enters : rules.Enters path t s [] :=
  enters_nil_iff.mpr ⟨hin.norule, hin.descend⟩

/-- The part where the merge stops is put in last. -/
lemma eq_putChild : v = (t.withParts (s.before seg) fun other =>
    (mergePart rules path t s other).target).putChild seg (mergePart rules path t s seg).target :=
  hin.target.trans (Json.withParts_putChild_before hin.wellFormed hin.child hin.descend s' _)

/-- Only the parts up to the one where the merge stops are changed. -/
lemma child?_eq (other : Segment) : v.child? other =
    if other ∈ (s.before seg).segments ++ [seg] then some (mergePart rules path t s other).target
    else t.child? other := by
  have hdescend := hin.descend
  rw [← Json.descend_putChild_before hin.wellFormed hin.child s'] at hdescend
  rw [hin.target, Json.child?_withParts hdescend,
    Json.segments_putChild_before hin.wellFormed hin.child]

lemma child?_self : v.child? seg = some (mergePart rules path t s seg).target := by
  rw [hin.child?_eq, if_pos (by simp)]

lemma mem_segments_of_mem_before (h : other ∈ (s.before seg).segments) :
    other ∈ s.segments := by
  obtain ⟨rest, hrest⟩ := Json.segments_eq_before hin.wellFormed hin.child
  rw [hrest]
  exact List.mem_append_left _ h

/-- What is inside of the parts before comes before what is inside of the part where the merge
stops. -/
lemma before_of_mem (h : other ∈ (s.before seg).segments) : s.Before (other :: q) (seg :: p) := by
  obtain ⟨rest, hrest⟩ := Json.segments_eq_before hin.wellFormed hin.child
  refine .here ?_
  rw [hrest]
  exact (List.singleton_sublist.mpr h).append (List.singleton_sublist.mpr List.mem_cons_self)

/-- The parts before are merged without an error. -/
lemma error_eq_none (h : other ∈ (s.before seg).segments) (hs'' : s.child? other = some s'') :
    (mergeAt rules (path ++ [other]) ((t.child? other).getD .null) s'').error = none := by
  have hpart := hin.before other h
  rwa [mergePart, hs'', Option.getD_some] at hpart

/-- There is no place to stop at in the parts before, and what is behind comes later. -/
lemma first
    (hfirst : ∀ q operation',
      rules.Refuses (path ++ [seg]) ((t.child? seg).getD .null) s' q operation' →
        q = p ∨ s'.Before p q)
    (h : rules.Refuses path t s q operation') : q = seg :: p ∨ s.Before (seg :: p) q := by
  obtain ⟨other, q, s'', rfl, hs'', -, hq⟩ := h.exists_cons hin.norule
  obtain ⟨rest, hrest⟩ := Json.segments_eq_before hin.wellFormed hin.child
  have hmem : other ∈ (s.before seg).segments ++ seg :: rest :=
    hrest ▸ Json.mem_segments_iff.mpr ⟨s'', hs''⟩
  rcases List.mem_append.mp hmem with hmem | hmem
  · have hpart := hin.error_eq_none hmem hs''
    exact absurd hq (not_refuses_of_error_eq_none _ _ s'' (hin.wellFormed.child? hs'') hpart)
  rcases List.mem_cons.mp hmem with rfl | hmem
  · cases hin.child.symm.trans hs''
    exact (hfirst q operation' hq).imp (congrArg _) (Json.Before.inside hin.child)
  · refine .inr (.here ?_)
    rw [hrest]
    exact ((List.singleton_sublist.mpr hmem).cons_cons seg).trans (List.sublist_append_right _ _)

/-- A merge that stops at the part itself has merged the parts before it. -/
lemma merged_root (hroot : (mergePart rules path t s seg).target = (t.child? seg).getD .null) :
    (mergeAt rules path t (s.before seg)).error = none ∧
      v = (mergeAt rules path t (s.before seg)).target.putChild seg
        ((t.child? seg).getD .null) := by
  obtain ⟨herror, htarget⟩ :=
    mergeAt_before hin.wellFormed hin.child hin.norule hin.descend hin.before
  refine ⟨herror, ?_⟩
  rw [hin.eq_putChild, hroot, htarget]

/-- A merge that stops further down has merged the parts before. Of this part it has merged `w`,
which is what comes before the place where it stops. -/
lemma merged_below
    (hmerged : (mergeAt rules (path ++ [seg]) ((t.child? seg).getD .null) w).error = none ∧
      (mergePart rules path t s seg).target =
        p.put (mergeAt rules (path ++ [seg]) ((t.child? seg).getD .null) w).target
          ((p.lookup ((t.child? seg).getD .null)).getD .null)) :
    (mergeAt rules path t ((s.before seg).putChild seg w)).error = none ∧
      v = Path.put (seg :: p) (mergeAt rules path t ((s.before seg).putChild seg w)).target
        ((p.lookup ((t.child? seg).getD .null)).getD .null) := by
  obtain ⟨herror, hpart⟩ := hmerged
  obtain ⟨herror, htarget⟩ :=
    mergeAt_putChild_before hin.wellFormed hin.child hin.norule hin.descend hin.before herror
  refine ⟨herror, ?_⟩
  rw [hin.eq_putChild, hpart, htarget, Path.put,
    Json.child?_putChild_withParts hin.wellFormed hin.child hin.descend, Option.getD_some,
    Json.putChild_putChild_withParts hin.wellFormed hin.child hin.descend]

/-- A value in a part before is as it was, if the merge of the part spares it. -/
lemma untouched_before (hother : other ∈ (s.before seg).segments)
    (hw : Path.lookup (other :: q) t = some w)
    (hq : rules.Spares path t s (fun r => s.Before r (seg :: p)) (other :: q)) :
    Path.lookup (other :: q) v = some w := by
  obtain ⟨s'', hs''⟩ := Json.mem_segments_iff.mp (hin.mem_segments_of_mem_before hother)
  obtain ⟨t', ht', hw⟩ := Option.bind_eq_some_iff.mp hw
  obtain ⟨changes, -, hmerges⟩ := Merges.of_mergeAt _ _ _ s'' (hin.wellFormed.child? hs'')
    (hin.error_eq_none hother hs'')
  have hvalue : v.child? other =
      some (mergeAt rules (path ++ [other]) ((t.child? other).getD .null) s'').target := by
    rw [hin.child?_eq, if_pos (List.mem_append_left _ hother), mergePart, hs'', Option.getD_some]
  rw [Path.lookup_of_child hvalue]
  refine hmerges.untouched (by rwa [ht']) ((hq.part hs'' hin.enters).mono fun r _ => ?_)
  exact hin.before_of_mem hother

end StopsIn

section StopsAt

variable {rules : Rules} {path : Path} {t s s' v w : Json} {seg : Segment} {p q : Path}
  {operation : Operation}

/-- A value in the part where a merge stops is as it was if the merge of the part leaves it so. -/
lemma StopsIn.untouched_part (hin : rules.StopsIn path t s v seg s')
    (h : rules.StopsAt (path ++ [seg]) ((t.child? seg).getD .null) s'
      (mergePart rules path t s seg).target p operation)
    (hw : Path.lookup (seg :: q) t = some w)
    (hq : rules.Spares path t s
      (fun r => s.Before r (seg :: p) ∨ r <+: seg :: p ∧ r ≠ seg :: p) (seg :: q)) :
    Path.lookup (seg :: q) v = some w := by
  obtain ⟨t', ht', hw⟩ := Option.bind_eq_some_iff.mp hw
  rw [Path.lookup_of_child hin.child?_self]
  refine h.untouched q w (by rwa [ht']) ((hq.part hin.child hin.enters).mono fun r hr => ?_)
  refine hr.imp (.inside hin.child) fun ⟨hup, hne⟩ => ?_
  exact ⟨List.cons_prefix_cons.mpr ⟨rfl, hup⟩, fun heq => hne (List.cons.inj heq).2⟩

/-- A merge that stops in a part has merged the parts before and has not come to those behind. -/
lemma StopsAt.of_part (hin : rules.StopsIn path t s v seg s')
    (h : rules.StopsAt (path ++ [seg]) ((t.child? seg).getD .null) s'
      (mergePart rules path t s seg).target p operation) :
    rules.StopsAt path t s v (seg :: p) operation := by
  constructor
  case refuses => exact (refuses_cons_iff hin.child).mpr ⟨hin.enters, h.refuses⟩
  case first => exact fun other operation' hother => hin.first h.first hother
  case root => exact fun hnil => absurd hnil (List.cons_ne_nil seg p)
  case merged =>
    rintro part ⟨⟩
    rw [hin.child, Option.bind_some, Path.getD_lookup_cons]
    cases hw : Path.partBefore p s' with
    | none =>
      obtain rfl := Path.eq_nil_of_partBefore hw
      exact hin.merged_root (h.root rfl)
    | some w => exact hin.merged_below (h.merged w hw)
  case kept =>
    rw [Path.lookup_of_child hin.child?_self, Path.getD_lookup_cons]
    exact h.kept
  case untouched =>
    intro q w hw hq
    cases q with
    | nil => exact absurd rfl (Spares.ne_nil hq (.inr ⟨List.nil_prefix, by simp⟩))
    | cons other q =>
      by_cases hmem : other ∈ (s.before seg).segments
      · exact hin.untouched_before hmem hw (Spares.mono hq fun r => .inl)
      by_cases hseg : other = seg
      · subst hseg
        exact hin.untouched_part h hw hq
      · rw [Path.lookup_cons, hin.child?_eq, if_neg (by simp [hmem, hseg])]
        exact hw

end StopsAt

end Rules

/-- A merge that fails has stopped at a place. -/
lemma exists_stopsAt (rules : Rules) (path : Path) (t s : Json) (hs : s.WellFormed) {e : MergeError}
    (herror : (mergeAt rules path t s).error = some e) :
    ∃ p operation, e = .notAnArray (path ++ p) operation ∧
      rules.StopsAt path t s (mergeAt rules path t s).target p operation := by
  cases hfind : rules.find? path with
  | some operation =>
    rw [mergeAt_of_rule hfind] at herror ⊢
    obtain ⟨rfl, hadds, hunfit⟩ := error_applyOperation_iff.mp herror
    rw [target_applyOperation herror]
    exact ⟨[], operation, by rw [List.append_nil], .of_rule hfind hadds hunfit⟩
  | none =>
    cases hdescend : rules.descend path t s with
    | false =>
      rw [mergeAt_of_not_descend hfind hdescend] at herror
      cases herror
    | true =>
      obtain ⟨seg, s', hs', hbefore, hseg, htarget⟩ :=
        exists_failing_part (Json.nodup_segments hs) hfind hdescend herror
      have hpart : mergePart rules path t s seg =
          mergeAt rules (path ++ [seg]) ((t.child? seg).getD .null) s' := by
        rw [mergePart, hs', Option.getD_some]
      obtain ⟨p, operation, rfl, hstops⟩ :=
        exists_stopsAt rules (path ++ [seg]) ((t.child? seg).getD .null) s' (hs.child? hs')
          (hpart ▸ hseg)
      refine ⟨seg :: p, operation, by rw [List.append_cons path seg p], ?_⟩
      exact .of_part ⟨hs, hs', hfind, hdescend, hbefore, htarget⟩ (hpart ▸ hstops)
termination_by sizeOf s
decreasing_by exact Json.sizeOf_lt_of_child? hs'

/-- A merge fails if and only if it comes to a place where items must be added to something or from
something that has none. The error tells the first such place. Up to it everything is merged, and
the rest of the target is as before. -/
theorem merge_failures_exact (rules : Rules) (t : Json) {s : Json} (hs : s.WellFormed) :
    ((merge rules t s).error ≠ none ↔ ∃ p operation, rules.Refuses [] t s p operation) ∧
    ∀ e, (merge rules t s).error = some e →
      ∃ p operation, e = .notAnArray p operation ∧
        rules.StopsAt [] t s (merge rules t s).target p operation := by
  have hstops : ∀ e, (merge rules t s).error = some e →
      ∃ p operation, e = .notAnArray p operation ∧
        rules.StopsAt [] t s (merge rules t s).target p operation :=
    fun e herror => exists_stopsAt rules [] t s hs herror
  refine ⟨⟨fun herror => ?_, ?_⟩, hstops⟩
  · obtain ⟨e, he⟩ := Option.ne_none_iff_exists'.mp herror
    obtain ⟨p, operation, -, h⟩ := hstops e he
    exact ⟨p, operation, h.refuses⟩
  · rintro ⟨p, operation, h⟩ herror
    exact not_refuses_of_error_eq_none [] t s hs herror h

/-- A merge stops inside of an item at a key that the target lacks. The key is there then, and
has no value. -/
theorem merge_failures_exact_new_key :
    let rules : Rules := [([.key "list", .index 1, .key "tags"], .append)]
    let t : Json := .object
      [("list", .array [.object [("a", .null)], .object [("b", .null)], .string "z"]),
        ("last", .string "old")]
    let s : Json := .object
      [("first", .string "new"),
        ("list", .array [.object [("c", .null)],
          .object [("d", .null), ("tags", .string "x"), ("e", .null)]]),
        ("last", .string "new")]
    let v : Json := .object
      [("list", .array [.object [("a", .null), ("c", .null)],
        .object [("b", .null), ("d", .null), ("tags", .null)],
          .string "z"]),
        ("last", .string "old"), ("first", .string "new")]
    let place : Path := [.key "list", .index 1, .key "tags"]
    s.WellFormed ∧ (merge rules t s).error = some (.notAnArray place .append) ∧
      (merge rules t s).target = v ∧ rules.StopsAt [] t s v place .append := by
  intro rules t s v place
  have hs : s.WellFormed := by decide
  have herror : (merge rules t s).error = some (.notAnArray place .append) := by rfl
  have htarget : (merge rules t s).target = v := by rfl
  obtain ⟨p, operation, heq, hstops⟩ := (merge_failures_exact rules t hs).2 _ herror
  cases heq
  exact ⟨hs, herror, htarget, htarget ▸ hstops⟩

end ModularTemplates
