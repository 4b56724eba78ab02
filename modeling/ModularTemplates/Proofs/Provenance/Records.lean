import Mathlib.Tactic.Lemma
import ModularTemplates.Proofs.Merge.Report
import ModularTemplates.Provenance

/-!
# Records of parts

Where nothing is recorded for a part its owner is the one of the whole. Changes of a part are
entered in the record of the part and leave the records beside it as they are.
-/

namespace ModularTemplates

namespace Provenance

/-! ### One step below -/

/-- The record one step below; without one the owner of the whole owns what is below. -/
def childD (P : Provenance) (seg : Segment) : Provenance :=
  (P.child? seg).getD (.leaf P.owner)

lemma owner_source_leaf (owner : ResourceId) (p : Path) :
    (source p (.leaf owner)).owner = owner := by
  cases p <;> rfl

@[simp] lemma owner_source_nil (P : Provenance) : (source [] P).owner = P.owner := rfl

lemma owner_source_cons (seg : Segment) (p : Path) (P : Provenance) :
    (source (seg :: p) P).owner = (source p (P.childD seg)).owner := by
  rw [source, childD]
  cases P.child? seg with
  | none => rw [Option.getD_none, owner_source_leaf]
  | some below => rfl

@[simp] lemma fieldsBelow_fields (owner : ResourceId) (fs : Fields Provenance) :
    (fields owner fs).fieldsBelow = fs := rfl

@[simp] lemma itemsBelow_items (owner : ResourceId) (xs : List (Option Provenance)) :
    (items owner xs).itemsBelow = xs := rfl

lemma child?_key (P : Provenance) (k : String) : P.child? (.key k) = P.fieldsBelow.get? k := by
  cases P <;> rfl

lemma child?_index (P : Provenance) (i : Nat) : P.child? (.index i) = P.itemsBelow[i]?.join := by
  cases P <;> rfl

lemma join_getElem?_pad (xs : List (Option Provenance)) (length i : Nat) :
    (pad xs length)[i]?.join = xs[i]?.join := by
  rw [pad]
  rcases Nat.lt_or_ge i xs.length with hi | hi
  · rw [List.getElem?_append_left hi]
  · rw [List.getElem?_append_right hi, List.getElem?_eq_none_iff.mpr hi, List.getElem?_replicate]
    split_ifs <;> rfl

lemma length_pad (xs : List (Option Provenance)) (length : Nat) :
    (pad xs length).length = max xs.length length := by
  rw [pad, List.length_append, List.length_replicate]
  omega

end Provenance

/-- Both are keys or both are indices. -/
def Segment.Alike : Segment → Segment → Prop
  | .key _, .key _ => True
  | .index _, .index _ => True
  | _, _ => False

lemma Segment.Alike.refl (seg : Segment) : seg.Alike seg := by
  cases seg <;> trivial

namespace Provenance

/-- Where all records are of one kind, a change of one of them leaves the others as they are. -/
lemma child?_alter_cons {P : Provenance} {seg : Segment}
    (h : ∀ other, P.child? other ≠ none → other.Alike seg) (f : Provenance → Provenance)
    (p : Path) (other : Segment) :
    (alter f (seg :: p) P).child? other =
      if other = seg then some (alter f p (P.childD seg)) else P.child? other := by
  cases seg with
  | key k =>
    cases other with
    | key k' => simp [alter, child?_key, Fields.get?_set, childD]
    | index i =>
      have hnone : P.child? (.index i) = none := by
        by_contra hne
        exact h _ hne
      rw [if_neg (by simp), hnone]
      rfl
  | index i =>
    cases other with
    | key k =>
      have hnone : P.child? (.key k) = none := by
        by_contra hne
        exact h _ hne
      rw [if_neg (by simp), hnone]
      rfl
    | index j =>
      have hlt : i < (pad P.itemsBelow (i + 1)).length := by
        rw [length_pad]
        omega
      by_cases hij : j = i
      · subst hij
        simp only [alter, child?_index, itemsBelow_items, List.getElem?_set_self hlt, childD,
          join_getElem?_pad, if_true]
        rfl
      · simp [alter, child?_index, hij, Ne.symm hij, join_getElem?_pad]

/-! ### Changes of parts -/

section Parts

variable (contributor : ResourceId) {v w : Json}

lemma enterAll_append (changes rest : List Change) (contributor : ResourceId) (v : Json)
    (P : Provenance) :
    P.enterAll (changes ++ rest) contributor v =
      (P.enterAll changes contributor v).enterAll rest contributor v := by
  simp [enterAll]

lemma owner_enter_below (c : Change) (seg : Segment) (P : Provenance) :
    (P.enter (c.below [seg]) contributor v).owner = P.owner :=
  owner_alter_cons _ _ _ _

lemma child?_enter_below {P : Provenance} {seg : Segment}
    (h : ∀ other, P.child? other ≠ none → other.Alike seg) (hv : v.child? seg = some w)
    (c : Change) (other : Segment) :
    (P.enter (c.below [seg]) contributor v).child? other =
      if other = seg then some ((P.childD seg).enter c contributor w) else P.child? other := by
  simp only [enter, Change.below, List.singleton_append, child?_alter_cons h,
    Path.lookup_of_child hv]

/-- What becomes of the record of a part, or of a missing one, when changes of the part are entered.
Without changes a missing record stays missing. -/
def entered (owner : ResourceId) (record? : Option Provenance) (changes : List Change) (w : Json) :
    Option Provenance :=
  if changes = [] then record?
  else some ((record?.getD (.leaf owner)).enterAll changes contributor w)

lemma getD_entered (owner : ResourceId) (record? : Option Provenance) (changes : List Change)
    (w : Json) :
    (entered contributor owner record? changes w).getD (.leaf owner) =
      (record?.getD (.leaf owner)).enterAll changes contributor w := by
  unfold entered
  split_ifs with h
  · rw [h, enterAll_nil]
  · rfl

lemma entered_cons (owner : ResourceId) (record? : Option Provenance) (c : Change)
    (changes : List Change) (w : Json) :
    entered contributor owner record? (c :: changes) w =
      entered contributor owner (some ((record?.getD (.leaf owner)).enter c contributor w))
        changes w := by
  cases changes <;> simp [entered]

/-- Changes of one part are entered below. -/
lemma enterAll_below {P : Provenance} {seg : Segment}
    (h : ∀ other, P.child? other ≠ none → other.Alike seg) (hv : v.child? seg = some w)
    (changes : List Change) :
    (P.enterAll (changes.map (Change.below [seg])) contributor v).owner = P.owner ∧
    (P.enterAll (changes.map (Change.below [seg])) contributor v).child? seg =
      entered contributor P.owner (P.child? seg) changes w ∧
    ∀ other ≠ seg, (P.enterAll (changes.map (Change.below [seg])) contributor v).child? other =
      P.child? other := by
  induction changes generalizing P with
  | nil => exact ⟨rfl, rfl, fun _ _ => rfl⟩
  | cons c changes ih =>
    have hchild := child?_enter_below contributor h hv c
    have halike : ∀ other, (P.enter (c.below [seg]) contributor v).child? other ≠ none →
        other.Alike seg := by
      intro other hother
      by_cases heq : other = seg
      · rw [heq]
        exact .refl seg
      · rw [hchild, if_neg heq] at hother
        exact h other hother
    obtain ⟨howner, hseg, hother⟩ := ih halike
    rw [List.map_cons, enterAll_cons, entered_cons]
    refine ⟨howner.trans (owner_enter_below contributor c seg P), ?_, ?_⟩
    · rw [hseg, owner_enter_below, hchild, if_pos rfl, childD]
    · intro other hne
      rw [hother other hne, hchild, if_neg hne]

/-- Changes of several parts are entered below, those of each part on their own. -/
lemma enterAll_flatMap_below {P : Provenance} {segs : List Segment} {part : Segment → Json}
    {changes : Segment → List Change} (hnodup : segs.Nodup)
    (halike : ∀ seg ∈ segs, ∀ other, other ∈ segs ∨ P.child? other ≠ none →
      other.Alike seg)
    (hv : ∀ seg ∈ segs, v.child? seg = some (part seg)) {P' : Provenance}
    (hP' : P' = P.enterAll (segs.flatMap fun seg => (changes seg).map (Change.below [seg]))
      contributor v) :
    P'.owner = P.owner ∧
    (∀ seg ∈ segs, P'.child? seg =
      entered contributor P.owner (P.child? seg) (changes seg) (part seg)) ∧
    ∀ other ∉ segs, P'.child? other = P.child? other := by
  induction segs generalizing P with
  | nil =>
    subst hP'
    exact ⟨rfl, by simp, fun _ _ => rfl⟩
  | cons seg segs ih =>
    rw [List.nodup_cons] at hnodup
    rw [List.flatMap_cons, enterAll_append] at hP'
    have hseg : ∀ other, P.child? other ≠ none → other.Alike seg := fun other hother =>
      halike seg List.mem_cons_self other (.inr hother)
    obtain ⟨howner, hhere, hbeside⟩ := enterAll_below contributor hseg
      (hv seg List.mem_cons_self) (changes seg)
    set P₁ := P.enterAll ((changes seg).map (Change.below [seg])) contributor v
    have halike₁ : ∀ seg' ∈ segs, ∀ other, other ∈ segs ∨ P₁.child? other ≠ none →
        other.Alike seg' := by
      intro seg' hseg' other hother
      refine halike seg' (List.mem_cons_of_mem seg hseg') other ?_
      rcases hother with hother | hother
      · exact .inl (List.mem_cons_of_mem seg hother)
      · by_cases heq : other = seg
        · exact .inl (heq ▸ List.mem_cons_self)
        · exact .inr (hbeside other heq ▸ hother)
    obtain ⟨howner', hrest, hbeside'⟩ := ih hnodup.2 halike₁
      (fun seg' hseg' => hv seg' (List.mem_cons_of_mem seg hseg')) hP'
    refine ⟨howner'.trans howner, ?_, ?_⟩
    · intro seg' hseg'
      rcases List.mem_cons.mp hseg' with rfl | hmem
      · rw [hbeside' _ hnodup.1, hhere]
      · have hne : seg' ≠ seg := by
          rintro rfl
          exact hnodup.1 hmem
        rw [hrest seg' hmem, hbeside seg' hne, howner]
    · intro other hother
      rw [List.mem_cons, not_or] at hother
      rw [hbeside' other hother.2, hbeside other hother.1]

end Parts

end Provenance

end ModularTemplates
