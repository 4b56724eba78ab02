import Mathlib.Tactic.Lemma
import ModularTemplates.Proofs.Each
import ModularTemplates.Proofs.Merge.Outcome

/-!
# What merged values keep

A merge takes values apart and puts them together: it lengthens arrays, shifts their items, adds
keys to objects, and leaves everything else as it was in the target or in the source. So a statement
about places and values survives it if it does not count items and does not mind more keys.
-/

namespace ModularTemplates

namespace Json

/-- A statement about places and values that speaks of no particular item of an array and is not
lost when an object gets more keys. -/
structure Stable (good : Path → Json → Prop) : Prop where
  arrays : ∀ path xs ys, good path (.array xs) → good path (.array ys)
  objects : ∀ path fs gs, good path (.object fs) → Fields.keys fs ⊆ Fields.keys gs →
    good path (.object gs)
  positions : ∀ p i j q v, good (p ++ .index i :: q) v → good (p ++ .index j :: q) v

namespace Stable

variable {good : Path → Json → Prop} {path : Path} {v w : Json} {fs gs : Fields Json}
  {xs ys : List Json}

/-! ### Arrays -/

lemma move_item (h : Stable good) {i : Nat} (hv : v.Each good (path ++ [.index i])) (j : Nat) :
    v.Each good (path ++ [.index j]) := by
  refine Each.move (fun q u hu => ?_) hv
  rw [List.append_assoc, List.singleton_append] at hu ⊢
  exact h.positions path i j q u hu

/-- The items of an array are spoken of as if they stood in one place. -/
lemma each_array_iff (h : Stable good) : (array xs).Each good path ↔
    good path (.array xs) ∧ ∀ x ∈ xs, x.Each good (path ++ [.index 0]) := by
  rw [Json.each_array_iff]
  refine and_congr_right fun _ => ⟨fun hxs x hx => ?_, fun hxs i x hx => ?_⟩
  · obtain ⟨i, hi⟩ := List.mem_iff_getElem?.mp hx
    exact h.move_item (hxs i x hi) 0
  · exact h.move_item (hxs x (List.mem_of_getElem? hx)) i

lemma each_array (h : Stable good) (hxs : (array xs).Each good path)
    (hys : ∀ y ∈ ys, y.Each good (path ++ [.index 0])) : (array ys).Each good path :=
  h.each_array_iff.mpr ⟨h.arrays path xs ys hxs.here, hys⟩

lemma each_append (h : Stable good) (hxs : (array xs).Each good path)
    (hys : (array ys).Each good path) :
    (array (xs ++ ys)).Each good path := by
  refine h.each_array hxs fun z hz => ?_
  rcases List.mem_append.mp hz with hz | hz
  · exact (h.each_array_iff.mp hxs).2 z hz
  · exact (h.each_array_iff.mp hys).2 z hz

/-! ### Objects -/

/-- More fields of the same kind. -/
lemma each_object (h : Stable good) (hfs : (object fs).Each good path)
    (hkeys : Fields.keys fs ⊆ Fields.keys gs)
    (hgs : ∀ field ∈ gs, field.2.Each good (path ++ [.key field.1])) :
    (object gs).Each good path :=
  each_object_iff.mpr ⟨h.objects path fs gs hfs.here hkeys, hgs⟩

lemma each_set (h : Stable good) (hfs : (object fs).Each good path) (key : String)
    (hw : w.Each good (path ++ [.key key])) : (object (fs.set key w)).Each good path := by
  refine h.each_object hfs (fun other hother => ?_) fun field hfield => ?_
  · rw [Fields.keys_set]
    split_ifs
    · exact hother
    · exact List.mem_append_left _ hother
  · rcases Fields.mem_set hfield with hfield | rfl
    · exact (each_object_iff.mp hfs).2 field hfield
    · exact hw

/-! ### Combining -/

mutual
lemma each_combine (h : Stable good) {path : Path} {t s : Json} (ht : t.Each good path)
    (hs : s.Each good path) : (combine t s).Each good path := by
  match t, s with
  | .object ts, .object ss =>
    rw [combine]
    exact h.each_combineFields ht (each_object_iff.mp hs).2
  | .array ts, .array ss =>
    rw [combine]
    exact h.each_array hs (h.each_combineItems (h.each_array_iff.mp ht).2
      (h.each_array_iff.mp hs).2)
  | .null, s | .bool _, s | .number _, s | .string _, s => simpa [combine] using hs
  | .object _, .null | .object _, .bool _ | .object _, .number _ | .object _, .string _
  | .object _, .array _ | .array _, .null | .array _, .bool _ | .array _, .number _
  | .array _, .string _ | .array _, .object _ => simpa [combine] using hs

lemma each_combineFields (h : Stable good) {path : Path} {ts : Fields Json}
    {ss : List (String × Json)} (ht : (object ts).Each good path)
    (hs : ∀ field ∈ ss, field.2.Each good (path ++ [.key field.1])) :
    (object (combineFields ts ss)).Each good path := by
  match ss with
  | [] => rwa [combineFields]
  | (k, s) :: ss =>
    rw [List.forall_mem_cons] at hs
    rw [combineFields]
    refine h.each_combineFields (h.each_set ht k ?_) hs.2
    split
    · rename_i t hget
      exact h.each_combine ((each_object_iff.mp ht).2 (k, t) (Fields.mem_of_get? hget)) hs.1
    · exact hs.1

lemma each_combineItems (h : Stable good) {path : Path} {ts ss : List Json}
    (ht : ∀ t ∈ ts, t.Each good path) (hs : ∀ s ∈ ss, s.Each good path) :
    ∀ x ∈ combineItems ts ss, x.Each good path := by
  match ts, ss with
  | ts, [] => rwa [combineItems]
  | [], s :: ss => rwa [combineItems]
  | t :: ts, s :: ss =>
    rw [combineItems]
    rw [List.forall_mem_cons] at *
    exact ⟨h.each_combine ht.1 hs.1, h.each_combineItems ht.2 hs.2⟩
end

/-! ### Merging -/

section Merging

variable {rules : Rules}

/-- Nothing is said of a missing target, which is merged into as if it were null. -/
lemma each_items (h : Stable good) {t : Json} {ts ss : List Json}
    (ht : t = .null ∨ t.Each good path) (hts : t.itemsOrNull? = some ts)
    (hs : (array ss).Each good path) : (array ts).Each good path := by
  cases t with
  | array xs =>
    cases hts
    exact ht.resolve_left (by simp)
  | null =>
    cases hts
    exact h.each_array hs (by simp)
  | _ => cases hts

lemma each_applyOperation (h : Stable good) {operation : Operation} {rulePath : Path} {t s : Json}
    (ht : t = .null ∨ t.Each good path) (hs : s.Each good path)
    (herror : (applyOperation operation rulePath t s).error = none) :
    (applyOperation operation rulePath t s).target.Each good path := by
  cases operation with
  | replace => exact hs
  | combine =>
    show (ModularTemplates.combine t s).Each good path
    rcases ht with rfl | ht
    · simpa [ModularTemplates.combine] using hs
    · exact h.each_combine ht hs
  | append =>
    obtain ⟨ts, ss, hts, rfl⟩ := addItems_error herror
    simp only [applyOperation, addItems, hts]
    exact h.each_append (h.each_items ht hts hs) hs
  | prepend =>
    obtain ⟨ts, ss, hts, rfl⟩ := addItems_error herror
    simp only [applyOperation, addItems, hts]
    exact h.each_append hs (h.each_items ht hts hs)

mutual
lemma each_mergeAt (h : Stable good) {path rulePath : Path} {t s : Json}
    (ht : t = .null ∨ t.Each good path) (hs : s.Each good path)
    (herror : (mergeAt rules rulePath t s).error = none) :
    (mergeAt rules rulePath t s).target.Each good path := by
  cases hfind : rules.find? rulePath with
  | some operation =>
    rw [mergeAt_of_rule hfind] at herror ⊢
    exact h.each_applyOperation ht hs herror
  | none =>
    match t, s with
    | .object ts, .object ss =>
      rw [mergeAt, hfind] at herror ⊢
      exact h.each_mergeFields (ht.resolve_left (by simp)) (each_object_iff.mp hs).2 herror
    | .array ts, .array ss =>
      cases hdescend : rules.reachBelow rulePath with
      | false =>
        rw [mergeAt_of_not_descend hfind (by simpa [Rules.descend] using hdescend)]
        exact hs
      | true =>
        rw [mergeAt, hfind] at herror ⊢
        simp only [hdescend, if_true] at herror ⊢
        exact h.each_array hs (h.each_mergeItems (h.each_array_iff.mp (ht.resolve_left (by simp))).2
          (h.each_array_iff.mp hs).2 herror)
    | .null, s | .bool _, s | .number _, s | .string _, s =>
      rw [mergeAt_of_not_descend hfind (by simp [Rules.descend])]
      exact hs
    | .object _, .null | .object _, .bool _ | .object _, .number _ | .object _, .string _
    | .object _, .array _ | .array _, .null | .array _, .bool _ | .array _, .number _
    | .array _, .string _ | .array _, .object _ =>
      rw [mergeAt_of_not_descend hfind (by simp [Rules.descend])]
      exact hs

lemma each_mergeFields (h : Stable good) {path rulePath : Path} {ts : Fields Json}
    {ss : List (String × Json)} (ht : (object ts).Each good path)
    (hs : ∀ field ∈ ss, field.2.Each good (path ++ [.key field.1]))
    (herror : (mergeFields rules rulePath ts ss).error = none) :
    (object (mergeFields rules rulePath ts ss).target).Each good path := by
  match ss with
  | [] => rwa [mergeFields]
  | (k, s) :: ss =>
    rw [List.forall_mem_cons] at hs
    simp only [mergeFields, Merged.error_next] at herror ⊢
    rw [Merged.next_of_error herror.1]
    have htarget : (ts.get? k).getD .null = .null ∨
        ((ts.get? k).getD .null).Each good (path ++ [.key k]) := by
      cases hget : ts.get? k with
      | none => exact .inl rfl
      | some t => exact .inr ((each_object_iff.mp ht).2 (k, t) (Fields.mem_of_get? hget))
    exact h.each_mergeFields (h.each_set ht k (h.each_mergeAt htarget hs.1 herror.1)) hs.2 herror.2

lemma each_mergeItems (h : Stable good) {path rulePath : Path} {i : Nat} {ts ss : List Json}
    (ht : ∀ t ∈ ts, t.Each good path) (hs : ∀ s ∈ ss, s.Each good path)
    (herror : (mergeItems rules rulePath i ts ss).error = none) :
    ∀ x ∈ (mergeItems rules rulePath i ts ss).target, x.Each good path := by
  match ss with
  | [] => rwa [mergeItems]
  | s :: ss =>
    rw [List.forall_mem_cons] at hs
    simp only [mergeItems, Merged.error_next, Merged.map] at herror ⊢
    rw [Merged.next_of_error herror.1]
    have htarget : ts.headD .null = .null ∨ (ts.headD .null).Each good path := by
      cases ts with
      | nil => exact .inl rfl
      | cons t ts => exact .inr (ht t List.mem_cons_self)
    refine List.forall_mem_cons.mpr ⟨h.each_mergeAt htarget hs.1 herror.1, ?_⟩
    exact h.each_mergeItems (fun t hmem => ht t (List.mem_of_mem_tail hmem)) hs.2 herror.2
end

/-- What holds throughout the target and the source of a merge holds throughout what they become. -/
theorem each_merge (h : Stable good) {t s : Json} {changes : List Change} (ht : t.Each good path)
    (hs : s.Each good path) (hmerge : (merge rules t s).result = .ok (v, changes)) :
    v.Each good path := by
  unfold Merged.result at hmerge
  split at hmerge
  · cases hmerge
  · cases hmerge
    exact h.each_mergeAt (.inr ht) hs ‹_›

end Merging

end Stable

end Json

end ModularTemplates
