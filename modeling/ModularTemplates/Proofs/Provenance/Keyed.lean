import Mathlib.Tactic.Lemma
import ModularTemplates.Proofs.Provenance.Records

/-!
# Records under keys

The provenance of an object has records under keys only, and no key has two. What it answers
depends on the owner of the object and the record under each key, and not on the order in which
the keys were recorded.
-/

namespace ModularTemplates

namespace Provenance

variable {P P' Q : Provenance}

/-- All records are under keys, and no key has two of them. -/
structure Keyed (P : Provenance) : Prop where
  items : P.itemsBelow = []
  distinct : Fields.Distinct P.fieldsBelow

lemma Keyed.leaf (owner : ResourceId) : (leaf owner).Keyed :=
  ⟨rfl, Fields.distinct_nil⟩

lemma Keyed.exists_key_of_child? (h : P.Keyed) {seg : Segment} (hseg : P.child? seg ≠ none) :
    ∃ k, seg = .key k := by
  cases seg with
  | key k => exact ⟨k, rfl⟩
  | index i => simp [child?_index, h.items] at hseg

lemma Keyed.enter (h : P.Keyed) {change : Change} {k : String} {p : Path}
    (hpath : change.path = .key k :: p) (contributor : ResourceId) (v : Json) :
    (P.enter change contributor v).Keyed := by
  rw [Provenance.enter, hpath]
  exact ⟨rfl, h.distinct.set _ _⟩

/-- Changes of properties are recorded under keys. -/
lemma Keyed.enterAll (h : P.Keyed) {changes : List Change}
    (hpath : ∀ change ∈ changes, ∃ k p, change.path = .key k :: p) (contributor : ResourceId)
    (v : Json) :
    (P.enterAll changes contributor v).Keyed := by
  induction changes generalizing P with
  | nil => exact h
  | cons change changes ih =>
    obtain ⟨⟨k, p, hhead⟩, hrest⟩ := List.forall_mem_cons.mp hpath
    exact ih (h.enter hhead contributor v) hrest

/-- Changes of the values under several keys are recorded under these keys, those of each key
on their own. -/
lemma Keyed.enterAll_parts (h : P.Keyed) (contributor : ResourceId) {v : Json} {segs : List Segment}
    {part : Segment → Json} {changes : Segment → List Change}
    (hkeys : ∀ seg ∈ segs, ∃ k, seg = .key k)
    (hnodup : segs.Nodup) (hv : ∀ seg ∈ segs, v.child? seg = some (part seg)) (hP' : P' =
      P.enterAll (segs.flatMap fun seg => (changes seg).map (Change.below [seg])) contributor v) :
    P'.Keyed ∧ P'.owner = P.owner ∧
      (∀ seg ∈ segs, P'.child? seg =
        entered contributor P.owner (P.child? seg) (changes seg) (part seg)) ∧
      ∀ other ∉ segs, P'.child? other = P.child? other := by
  have halike : ∀ seg ∈ segs, ∀ other, other ∈ segs ∨ P.child? other ≠ none →
      other.Alike seg := by
    intro seg hseg other hother
    obtain ⟨k, rfl⟩ := hkeys seg hseg
    obtain ⟨k', rfl⟩ := hother.elim (hkeys other) h.exists_key_of_child?
    trivial
  have hbelow := enterAll_flatMap_below contributor hnodup halike hv hP'
  refine ⟨?_, hbelow⟩
  rw [hP']
  refine h.enterAll (fun change hchange => ?_) contributor v
  obtain ⟨seg, hseg, hchange⟩ := List.mem_flatMap.mp hchange
  obtain ⟨c, -, rfl⟩ := List.mem_map.mp hchange
  obtain ⟨k, rfl⟩ := hkeys seg hseg
  exact ⟨k, c.path, rfl⟩

/-! ### Answers -/

lemma heightFields_perm {fs gs : Fields Provenance} (h : fs.Perm gs) :
    heightFields fs = heightFields gs := by
  induction h with
  | nil => rfl
  | cons field _ ih => rw [heightFields, heightFields, ih]
  | swap field other fs =>
    rw [heightFields, heightFields, heightFields, heightFields, Nat.max_left_comm]
  | trans _ _ ih ih' => rw [ih, ih']

lemma Keyed.height_eq (h : P.Keyed) : P.height = heightFields P.fieldsBelow := by
  cases P with
  | leaf | fields => simp [height, fieldsBelow, heightFields]
  | items owner slots =>
    obtain rfl : slots = [] := h.items
    simp [height, fieldsBelow, heightFields, heightItems]

/-- The owner and the records under the keys decide about every answer. -/
theorem Keyed.source_eq (hP : P.Keyed) (hQ : Q.Keyed) (howner : P.owner = Q.owner)
    (hrecord : ∀ k, P.child? (.key k) = Q.child? (.key k)) (p : Path) :
    source p P = source p Q := by
  have hchild : ∀ seg, P.child? seg = Q.child? seg := by
    intro seg
    cases seg with
    | key k => exact hrecord k
    | index i => simp [child?_index, hP.items, hQ.items]
  cases p with
  | nil =>
    have hperm := hP.distinct.perm_of_get? hQ.distinct fun k => by
      rw [← child?_key, ← child?_key, hrecord]
    rw [source, source, howner, hP.height_eq, hQ.height_eq, heightFields_perm hperm]
  | cons seg p => rw [source, source, hchild, howner]

end Provenance

end ModularTemplates
