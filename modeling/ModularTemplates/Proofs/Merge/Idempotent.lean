import Mathlib.Tactic.Lemma
import ModularTemplates.Proofs.Merge.Failures
import ModularTemplates.Proofs.Merge.Objects

/-!
# Merging again

Without rules that add items a merge can not fail, and a second merge of the same source changes
nothing. The second one takes other ways than the first: what was missing and has been put in as a
whole is gone through part by part now, and there may be rules further down. So it has to be shown
too that a value merged into itself stays as it is.

Both hold for the parts of a container if they hold for the container, for `combine` as for
`mergeAt`.
-/

namespace ModularTemplates

/-! ### Changing a container part by part -/

namespace Json

variable {rules : Rules} {path : Path} {t s : Json} {part : Segment → Json}

lemma descend_self (h : rules.descend path t s = true) : rules.descend path s s = true := by
  cases t <;> cases s <;> simp_all [Rules.descend]

lemma descend_withParts (h : rules.descend path t s = true) (part : Segment → Json) :
    rules.descend path (t.withParts s part) s = true := by
  cases t <;> cases s <;> simp_all [Rules.descend, withParts]

/-- A container stays as it is if each of its parts does. -/
lemma withParts_self {merged : Segment → Json → Json → Json}
    (h : rules.descend path t s = true)
    (hparts : ∀ seg s', s.child? seg = some s' → merged seg s' s' = s') :
    (s.withParts s fun seg =>
      merged seg ((s.child? seg).getD .null) ((s.child? seg).getD .null)) = s := by
  refine withParts_eq_self (descend_self h) fun seg hseg => ?_
  obtain ⟨s', hs'⟩ := mem_segments_iff.mp hseg
  rw [hs', Option.getD_some, hparts seg s' hs']

/-- Putting in the parts of a source again changes nothing if it changes nothing in each part. -/
lemma withParts_withParts {merged : Segment → Json → Json → Json}
    (h : rules.descend path t s = true)
    (hpart : part = fun seg => merged seg ((t.child? seg).getD .null) ((s.child? seg).getD .null))
    (hparts : ∀ seg s', s.child? seg = some s' →
      ∀ t', merged seg (merged seg t' s') s' = merged seg t' s') :
    ((t.withParts s part).withParts s fun seg =>
      merged seg (((t.withParts s part).child? seg).getD .null) ((s.child? seg).getD .null)) =
      t.withParts s part := by
  refine withParts_eq_self (descend_withParts h part) fun seg hseg => ?_
  obtain ⟨s', hs'⟩ := mem_segments_iff.mp hseg
  rw [child?_withParts h, if_pos hseg, hpart]
  simp only [hs', Option.getD_some, hparts seg s' hs']

end Json

/-! ### Combining again -/

lemma combine_null (s : Json) : combine .null s = s := by
  simp [combine]

/-- What the target lacks is combined into null. -/
lemma combineFields_cons (ts : Fields Json) (k : String) (s : Json) (ss : List (String × Json)) :
    combineFields ts ((k, s) :: ss) =
      combineFields (ts.set k (combine ((ts.get? k).getD .null) s)) ss := by
  rw [combineFields]
  cases ts.get? k with
  | some t => rfl
  | none => rw [Option.getD_none, combine_null]

lemma combineItems_cons (ts : List Json) (s : Json) (ss : List Json) :
    combineItems ts (s :: ss) = combine (ts.headD .null) s :: combineItems ts.tail ss := by
  cases ts with
  | nil =>
    rw [combineItems, List.headD_nil, combine_null, List.tail_nil]
    cases ss <;> rfl
  | cons t ts => rw [combineItems, List.headD_cons, List.tail_cons]

/-- Fields with distinct keys are combined one beside the other. -/
lemma combineFields_eq {ts : Fields Json} {ss : List (String × Json)}
    (hdistinct : Fields.Distinct ss) {part : String → Json}
    (hpart : ∀ k s, (k, s) ∈ ss → combine ((ts.get? k).getD .null) s = part k) :
    combineFields ts ss = ts.update ((Fields.keys ss).map fun k => (k, part k)) := by
  induction ss generalizing ts with
  | nil =>
    rw [combineFields]
    rfl
  | cons field ss ih =>
    obtain ⟨k, s⟩ := field
    rw [Fields.Distinct, Fields.keys_cons, List.nodup_cons] at hdistinct
    rw [combineFields_cons, hpart k s List.mem_cons_self, ih hdistinct.2 fun other s' hmem => by
      have hne : other ≠ k := by
        rintro rfl
        exact hdistinct.1 (List.mem_map.mpr ⟨_, hmem, rfl⟩)
      rw [Fields.get?_set_of_ne hne]
      exact hpart other s' (List.mem_cons_of_mem (k, s) hmem)]
    rfl

/-- Items are combined one beside the other. -/
lemma combineItems_eq {ts ss : List Json} {part : Nat → Json}
    (hpart : ∀ j s, ss[j]? = some s → combine (ts[j]?.getD .null) s = part j) :
    combineItems ts ss = (List.range ss.length).map part ++ ts.drop ss.length := by
  induction ss generalizing ts part with
  | nil => simp [combineItems]
  | cons s ss ih =>
    have hhead : combine (ts.headD .null) s = part 0 := by
      rw [← hpart 0 s rfl, List.headD_eq_head?_getD, List.head?_eq_getElem?]
    rw [combineItems_cons, hhead, @ih ts.tail (fun j => part (j + 1)) fun j s' hs' => by
      rw [List.getElem?_tail]
      exact hpart (j + 1) s' hs']
    simp [List.range_succ_eq_map, Function.comp_def]

/-- Two objects are combined part by part, and so are two arrays. -/
lemma combine_of_descend {rules : Rules} {path : Path} {t s : Json}
    (hdescend : rules.descend path t s = true) (hnodup : s.segments.Nodup) : combine t s =
      t.withParts s fun seg => combine ((t.child? seg).getD .null) ((s.child? seg).getD .null) := by
  obtain ⟨ts, ss, rfl, rfl⟩ | ⟨ts, ss, rfl, rfl⟩ := Rules.containers_of_descend hdescend
  · have hdistinct : Fields.Distinct ss := List.Nodup.of_map _ hnodup
    rw [combine, Json.withParts, combineFields_eq hdistinct]
    intro k s hs
    rw [Json.child?, Json.child?, hdistinct.get?_of_mem hs, Option.getD_some]
  · rw [combine, Json.withParts, combineItems_eq]
    intro i s hs
    rw [Json.child?, Json.child?, hs, Option.getD_some]

/-- What is not combined part by part is replaced. -/
lemma combine_eq_or_descend (t s : Json) :
    combine t s = s ∨ ∃ (rules : Rules) (path : Path), rules.descend path t s = true := by
  cases t with
  | object ts =>
    cases s with
    | object ss => exact .inr ⟨[], [], rfl⟩
    | _ => simp [combine]
  | array ts =>
    cases s with
    | array ss => exact .inr ⟨[([.index 0], .replace)], [], rfl⟩
    | _ => simp [combine]
  | _ => simp [combine]

lemma combine_self (s : Json) (hs : s.WellFormed) : combine s s = s := by
  obtain h | ⟨rules, path, hdescend⟩ := combine_eq_or_descend s s
  · exact h
  · rw [combine_of_descend hdescend (Json.nodup_segments hs)]
    refine @Json.withParts_self rules path s s (fun _ => combine) hdescend fun seg s' hs' => ?_
    exact combine_self s' (hs.child? hs')
termination_by sizeOf s
decreasing_by exact Json.sizeOf_lt_of_child? hs'

lemma combine_combine (t s : Json) (hs : s.WellFormed) : combine (combine t s) s = combine t s := by
  obtain h | ⟨rules, path, hdescend⟩ := combine_eq_or_descend t s
  · rw [h, combine_self s hs]
  · have hnodup := Json.nodup_segments hs
    rw [combine_of_descend hdescend hnodup,
      combine_of_descend (Json.descend_withParts hdescend _) hnodup]
    refine @Json.withParts_withParts rules path t s _ (fun _ => combine) hdescend rfl
      fun seg s' hs' t' => ?_
    exact combine_combine t' s' (hs.child? hs')
termination_by sizeOf s
decreasing_by exact Json.sizeOf_lt_of_child? hs'

/-! ### Merging again -/

/-- No rule adds items. -/
def Rules.AddNothing (rules : Rules) : Prop :=
  ∀ rule ∈ rules, rule.2 ≠ .append ∧ rule.2 ≠ .prepend

instance (rules : Rules) : Decidable rules.AddNothing :=
  inferInstanceAs (Decidable (∀ rule ∈ rules, _))

namespace Rules.AddNothing

variable {rules : Rules} {path : Path}

lemma find? (h : rules.AddNothing) {operation : Operation}
    (hfind : rules.find? path = some operation) :
    operation = .replace ∨ operation = .combine := by
  obtain ⟨rule, hrule, rfl⟩ := Option.map_eq_some_iff.mp hfind
  have hmem := h rule (List.mem_of_find?_eq_some hrule)
  cases hrule : rule.2 <;> simp_all

/-- Only adding items can fail. -/
lemma error_eq_none (h : rules.AddNothing) (path : Path) (t : Json) {s : Json} (hs : s.WellFormed) :
    (mergeAt rules path t s).error = none := by
  by_contra herror
  obtain ⟨e, he⟩ := Option.ne_none_iff_exists'.mp herror
  obtain ⟨p, operation, -, hstops⟩ := exists_stopsAt rules path t s hs he
  rcases h.find? hstops.refuses.rule with rfl | rfl
  · exact absurd hstops.refuses.adds (by decide)
  · exact absurd hstops.refuses.adds (by decide)

lemma target_mergeAt (h : rules.AddNothing) {t s : Json} (hs : s.WellFormed)
    (hfind : rules.find? path = none) (hdescend : rules.descend path t s = true) :
    (mergeAt rules path t s).target =
      t.withParts s fun seg =>
        (mergeAt rules (path ++ [seg]) ((t.child? seg).getD .null)
          ((s.child? seg).getD .null)).target :=
  (mergeAt_of_descend hfind hdescend (Json.nodup_segments hs) (h.error_eq_none path t hs)).2.1

lemma mergeAt_self (h : rules.AddNothing) (path : Path) (s : Json) (hs : s.WellFormed) :
    (mergeAt rules path s s).target = s := by
  cases hfind : rules.find? path with
  | some operation =>
    rw [mergeAt_of_rule hfind]
    rcases h.find? hfind with rfl | rfl
    · rfl
    · exact combine_self s hs
  | none =>
    cases hdescend : rules.descend path s s with
    | false => rw [mergeAt_of_not_descend hfind hdescend]; rfl
    | true =>
      rw [h.target_mergeAt hs hfind hdescend]
      refine @Json.withParts_self rules path s s
        (fun seg t' s' => (mergeAt rules (path ++ [seg]) t' s').target)
        hdescend fun seg s' hs' => ?_
      exact mergeAt_self h (path ++ [seg]) s' (hs.child? hs')
termination_by sizeOf s
decreasing_by exact Json.sizeOf_lt_of_child? hs'

lemma mergeAt_mergeAt (h : rules.AddNothing) (path : Path) (t s : Json) (hs : s.WellFormed) :
    (mergeAt rules path (mergeAt rules path t s).target s).target =
      (mergeAt rules path t s).target := by
  cases hfind : rules.find? path with
  | some operation =>
    rw [mergeAt_of_rule hfind, mergeAt_of_rule hfind]
    rcases h.find? hfind with rfl | rfl
    · rfl
    · exact combine_combine t s hs
  | none =>
    cases hdescend : rules.descend path t s with
    | false =>
      rw [mergeAt_of_not_descend hfind hdescend]
      exact h.mergeAt_self path s hs
    | true =>
      rw [h.target_mergeAt hs hfind hdescend,
        h.target_mergeAt hs hfind (Json.descend_withParts hdescend _)]
      refine @Json.withParts_withParts rules path t s _
        (fun seg t' s' => (mergeAt rules (path ++ [seg]) t' s').target) hdescend rfl
        fun seg s' hs' t' => ?_
      exact mergeAt_mergeAt h (path ++ [seg]) t' s' (hs.child? hs')
termination_by sizeOf s
decreasing_by exact Json.sizeOf_lt_of_child? hs'

end Rules.AddNothing

/-- Without rules that add items every merge succeeds, and so does a second one of the same source,
which leaves the target as the first one has made it. -/
theorem merge_again {rules : Rules} (hrules : rules.AddNothing) (t : Json) {s : Json}
    (hs : s.WellFormed) :
    ∃ v changes changes',
      (merge rules t s).result = .ok (v, changes) ∧
      (merge rules v s).result = .ok (v, changes') := by
  have hfirst : (merge rules t s).error = none := hrules.error_eq_none [] t hs
  have hsecond : (merge rules (merge rules t s).target s).error = none :=
    hrules.error_eq_none [] _ hs
  have hsame : (merge rules (merge rules t s).target s).target = (merge rules t s).target :=
    hrules.mergeAt_mergeAt [] t s hs
  have hresult := Merged.result_of_error hsecond
  rw [hsame] at hresult
  exact ⟨_, _, _, Merged.result_of_error hfirst, hresult⟩

/-- A list is put in as a whole first, and then gone through, for there is a rule inside of it. Of
two rules that are for one place the first one counts. -/
theorem merge_again_new_list :
    let rules : Rules :=
      [([.key "list", .index 0, .key "c"], .combine), ([.key "a"], .combine),
        ([.key "a"], .replace),
        ([.key "a", .key "b"], .replace)]
    let t : Json :=
      .object [("a", .object [("b", .object [("x", .null)]), ("y", .array [.null, .null])])]
    let s : Json := .object
      [("list", .array [.object [("c", .object [("d", .null)]), ("e", .null)], .string "z"]),
        ("a", .object [("y", .array [.string "first"]), ("b", .object [("w", .null)])])]
    let v : Json := .object
      [("a", .object
          [("b", .object [("x", .null), ("w", .null)]), ("y", .array [.string "first", .null])]),
        ("list", .array [.object [("c", .object [("d", .null)]), ("e", .null)], .string "z"])]
    rules.AddNothing ∧ s.WellFormed ∧ ∃ changes changes',
      (merge rules t s).result = .ok (v, changes) ∧
      (merge rules v s).result = .ok (v, changes') := by
  intro rules t s v
  have hrules : rules.AddNothing := by decide
  have hs : s.WellFormed := by decide
  have hmerge : (merge rules t s).target = v := by rfl
  obtain ⟨w, changes, changes', hfirst, hsecond⟩ := merge_again hrules t hs
  have hw : w = v := by
    rw [Merged.result_eq_ok_iff] at hfirst
    rw [← hmerge, hfirst]
  rw [hw] at hfirst hsecond
  exact ⟨hrules, hs, changes, changes', hfirst, hsecond⟩

end ModularTemplates
