import Mathlib.Tactic.Lemma
import Mathlib.Tactic.SplitIfs
import ModularTemplates.Proofs.Merge.Outcome

/-!
# Merging objects

Two objects are merged into an object under all rules, also under a rule for the objects themselves:
items can not be added to an object, and every other rule for two objects makes an object. No key is
listed twice in it.
-/

namespace ModularTemplates

/-! ### Keys -/

lemma Merged.target_next {α β : Type} (m : Merged α) (target : β) (rest : Merged β) :
    (m.next target rest).target = target ∨ (m.next target rest).target = rest.target := by
  unfold Merged.next
  cases m.error with
  | some e => exact .inl rfl
  | none => exact .inr rfl

lemma distinct_combineFields {ts : Fields Json} (ht : ts.Distinct) (ss : List (String × Json)) :
    (combineFields ts ss).Distinct := by
  induction ss generalizing ts with
  | nil => rwa [combineFields]
  | cons field ss ih =>
    rw [combineFields]
    exact ih (ht.set _ _)

lemma distinct_target_mergeFields (rules : Rules) (path : Path) {ts : Fields Json}
    (ht : ts.Distinct) (ss : List (String × Json)) :
    (mergeFields rules path ts ss).target.Distinct := by
  induction ss generalizing ts with
  | nil => rwa [mergeFields]
  | cons field ss ih =>
    obtain ⟨k, s⟩ := field
    have hset := ht.set k (mergeAt rules (path ++ [.key k]) ((ts.get? k).getD .null) s).target
    rw [mergeFields]
    rcases Merged.target_next (mergeAt rules (path ++ [.key k]) ((ts.get? k).getD .null) s) _ _
      with htarget | htarget
    · rw [htarget]
      exact hset
    · rw [htarget]
      exact ih hset

/-! ### Errors -/

/-- Fields with distinct keys are merged without an error if each of them is. -/
lemma error_mergeFields {rules : Rules} {path : Path} {ts : Fields Json}
    {ss : List (String × Json)} (hdistinct : Fields.Distinct ss)
    (h : ∀ k s, (k, s) ∈ ss →
      (mergeAt rules (path ++ [.key k]) ((ts.get? k).getD .null) s).error = none) :
    (mergeFields rules path ts ss).error = none := by
  induction ss generalizing ts with
  | nil => rfl
  | cons field ss ih =>
    obtain ⟨k, s⟩ := field
    rw [Fields.Distinct, Fields.keys_cons, List.nodup_cons] at hdistinct
    rw [mergeFields, Merged.error_next]
    refine ⟨h k s List.mem_cons_self, ih hdistinct.2 fun other s' hs' => ?_⟩
    have hne : other ≠ k := by
      rintro rfl
      exact hdistinct.1 (List.mem_map.mpr ⟨_, hs', rfl⟩)
    rw [Fields.get?_set_of_ne hne]
    exact h other s' (List.mem_cons_of_mem (k, s) hs')

/-! ### Whole objects -/

lemma Merged.result_eq_ok_iff {α : Type} {m : Merged α} {v : α} {changes : List Change} :
    m.result = .ok (v, changes) ↔ m = ⟨v, changes, none⟩ := by
  obtain ⟨target, made, error⟩ := m
  cases error <;> simp [Merged.result]

lemma Merged.result_of_error {α : Type} {m : Merged α} (h : m.error = none) :
    m.result = .ok (m.target, m.changes) := by
  rw [Merged.result, h]

/-- Whatever the rules, what comes of two objects is an object without repeated keys. -/
theorem exists_object_of_merge {rules : Rules} {ts ss : Fields Json} {v : Json}
    {changes : List Change} (ht : ts.Distinct) (hs : ss.Distinct)
    (h : (merge rules (.object ts) (.object ss)).result = .ok (v, changes)) :
    ∃ fs, v = .object fs ∧ Fields.Distinct fs := by
  rw [Merged.result_eq_ok_iff, merge] at h
  cases hfind : rules.find? [] with
  | none =>
    rw [mergeAt, hfind] at h
    have htarget := congrArg Merged.target h
    exact ⟨_, htarget.symm, distinct_target_mergeFields rules [] ht ss⟩
  | some operation =>
    rw [mergeAt_of_rule hfind] at h
    cases operation with
    | replace =>
      cases h
      exact ⟨ss, rfl, hs⟩
    | combine =>
      cases h
      exact ⟨_, by rw [combine], distinct_combineFields ht ss⟩
    | append | prepend =>
      have herror := congrArg Merged.error h
      simp [applyOperation, addItems, Json.itemsOrNull?] at herror

end ModularTemplates
