import Mathlib.Tactic.Lemma
import ModularTemplates.Proofs.DocumentOrder

/-!
# Nodes in pre-order

The list of all nodes of a document has every node before those inside of it, and otherwise keeps
the order of the document. Two places never come before one another both ways, so the order of the
list and that of the places are the same.
-/

namespace ModularTemplates

namespace Json

variable {v w : Json} {seg : Segment} {p q : Path}

/-- A place is reached before another one that lies inside of it or behind it in the document. -/
def Earlier (v : Json) (p q : Path) : Prop :=
  p <+: q ∧ p ≠ q ∨ v.Before p q

lemma Earlier.inside (hw : v.child? seg = some w) (h : w.Earlier p q) :
    v.Earlier (seg :: p) (seg :: q) := by
  refine h.imp (fun hproper => ⟨?_, ?_⟩) (Before.inside hw)
  · exact List.cons_prefix_cons.mpr ⟨rfl, hproper.1⟩
  · exact fun heq => hproper.2 (List.cons.inj heq).2

/-- In a list without repetition two entries stand in one order only. -/
lemma not_sublist_of_nodup {α : Type} {a b : α} {l : List α} (hnodup : l.Nodup)
    (h : [a, b].Sublist l) :
    ¬ [b, a].Sublist l := by
  induction hnodup with
  | nil => cases h
  | @cons c l hc _ ih =>
    intro h'
    cases h with
    | cons _ h =>
      cases h' with
      | cons _ h' => exact ih h h'
      | cons_cons _ _ => exact hc b (h.subset (by simp)) rfl
    | cons_cons _ h =>
      cases h' with
      | cons _ h' => exact hc a (h'.subset (by simp)) rfl
      | cons_cons _ _ => exact hc a (h.subset (by simp)) rfl

lemma Before.asymm (hv : v.WellFormed) (h : v.Before p q) : ¬ v.Before q p := by
  induction h with
  | here h =>
    intro h'
    cases h' with
    | here h' => exact not_sublist_of_nodup (nodup_segments hv) h h'
    | inside => exact not_sublist_of_nodup (nodup_segments hv) h h
  | inside hw _ ih =>
    intro h'
    cases h' with
    | here h' => exact not_sublist_of_nodup (nodup_segments hv) h' h'
    | inside hw' h' =>
      cases hw.symm.trans hw'
      exact ih (hv.child? hw) h'

lemma Before.not_inside (hv : v.WellFormed) (h : v.Before p q) : ¬ p <+: q ∧ ¬ q <+: p := by
  induction h with
  | here h =>
    have hne : ∀ {a b : Segment}, [a, b].Sublist _ → a ≠ b := fun h heq =>
      not_sublist_of_nodup (nodup_segments hv) (heq ▸ h) (heq ▸ h)
    simp only [List.cons_prefix_cons, not_and]
    exact ⟨fun heq => absurd heq (hne h), fun heq => absurd heq.symm (hne h)⟩
  | inside hw _ ih =>
    obtain ⟨hpq, hqp⟩ := ih (hv.child? hw)
    simp only [List.cons_prefix_cons, true_and]
    exact ⟨hpq, hqp⟩

lemma Earlier.asymm (hv : v.WellFormed) (h : v.Earlier p q) : ¬ v.Earlier q p := by
  rcases h with ⟨hbegins, hne⟩ | hbefore
  · rintro (⟨hbegins', -⟩ | hbefore')
    · exact hne (hbegins.eq_of_length_le hbegins'.length_le)
    · exact (hbefore'.not_inside hv).2 hbegins
  · rintro (⟨hbegins', -⟩ | hbefore')
    · exact (hbefore.not_inside hv).2 hbegins'
    · exact hbefore.asymm hv hbefore'

end Json

namespace Node

variable {v w : Json} {above : List Crumb} {seg : Segment} {n m : Node}

/-! ### Nodes part by part -/

/-- A value comes first, and then the nodes inside of it part by part. -/
lemma allFrom_eq (hv : v.WellFormed) (above : List Crumb) : allFrom above v = ⟨v, above⟩ ::
    v.segments.flatMap fun seg => allFrom (⟨seg, v⟩ :: above) ((v.child? seg).getD .null) := by
  cases v with
  | object fs =>
    rw [allFrom, walk_fields_eq (allFields (.object fs) above)
      (fun k => allFrom (⟨.key k, .object fs⟩ :: above)) rfl (fun _ _ _ => rfl) hv.distinct,
      Json.segments, List.flatMap_map]
    rfl
  | array xs =>
    rw [allFrom, walk_items_eq (allItems (.array xs) above)
      (fun i => allFrom (⟨.index i, .array xs⟩ :: above)) (fun _ => rfl) (fun _ _ _ => rfl),
      Json.segments, List.flatMap_map]
    simp only [Nat.zero_add]
    rfl
  | _ => rfl

lemma mem_allFrom_iff (hv : v.WellFormed) (above : List Crumb) :
    n ∈ allFrom above v ↔ ∃ p, navigate ⟨v, above⟩ p = some n := by
  rw [← mem_postorderFrom_iff v hv]
  exact (perm_postorderFrom above v).mem_iff.symm

/-! ### The order of nodes -/

/-- Nodes that are reached from a value one before the other. -/
def EarlierFrom (v : Json) (above : List Crumb) (n m : Node) : Prop :=
  ∃ p q, navigate ⟨v, above⟩ p = some n ∧ navigate ⟨v, above⟩ q = some m ∧
    v.Earlier p q

lemma pairwise_allFrom (v : Json) (hv : v.WellFormed) (above : List Crumb) :
    (allFrom above v).Pairwise (EarlierFrom v above) := by
  have hways : ∀ seg ∈ v.segments,
    ∀ n ∈ allFrom (⟨seg, v⟩ :: above) ((v.child? seg).getD .null),
      ∃ p, navigate ⟨v, above⟩ (seg :: p) = some n := by
    intro seg hseg n hn
    obtain ⟨w, hw⟩ := Json.mem_segments_iff.mp hseg
    rw [hw, Option.getD_some, mem_allFrom_iff (hv.child? hw)] at hn
    obtain ⟨p, hp⟩ := hn
    exact ⟨p, by rwa [navigate_cons hw]⟩
  rw [allFrom_eq hv, List.pairwise_cons]
  refine ⟨?_, List.pairwise_flatMap.mpr ⟨?_, ?_⟩⟩
  · intro n hn
    obtain ⟨seg, hseg, hn⟩ := List.mem_flatMap.mp hn
    obtain ⟨p, hp⟩ := hways seg hseg n hn
    exact ⟨[], seg :: p, rfl, hp, .inl ⟨List.nil_prefix, by simp⟩⟩
  · intro seg hseg
    obtain ⟨w, hw⟩ := Json.mem_segments_iff.mp hseg
    rw [hw, Option.getD_some]
    refine (pairwise_allFrom w (hv.child? hw) (⟨seg, v⟩ :: above)).imp ?_
    rintro n m ⟨p, q, hp, hq, h⟩
    exact ⟨seg :: p, seg :: q, by rwa [navigate_cons hw], by rwa [navigate_cons hw],
      h.inside hw⟩
  · refine List.pairwise_iff_forall_sublist.mpr fun {a b} hsublist n hn m hm => ?_
    have hmem := hsublist.subset
    obtain ⟨p, hp⟩ := hways a (hmem (by simp)) n hn
    obtain ⟨q, hq⟩ := hways b (hmem (by simp)) m hm
    exact ⟨a :: p, b :: q, hp, hq, .inr (.here hsublist)⟩
termination_by sizeOf v
decreasing_by exact Json.sizeOf_lt_of_child? hw

/-- Every node comes before those inside of it, and otherwise the nodes come in the order of
the document. -/
theorem pairwise_all (hv : v.WellFormed) : (all v).Pairwise fun n m => v.Earlier n.path m.path := by
  refine (pairwise_allFrom v hv []).imp ?_
  rintro n m ⟨p, q, hp, hq, h⟩
  rwa [path_of_navigate_root hp, path_of_navigate_root hq]

/-- The nodes of a document are those that their own paths lead to. -/
lemma mem_all_iff (hv : v.WellFormed) : n ∈ all v ↔ navigate (root v) n.path = some n := by
  rw [← mem_postorder_iff_navigate hv]
  exact (perm_postorderFrom [] v).mem_iff.symm

end Node

end ModularTemplates
