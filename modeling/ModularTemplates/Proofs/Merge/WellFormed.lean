import Mathlib.Tactic.Lemma
import ModularTemplates.Proofs.Family.Partition
import ModularTemplates.Proofs.Merge.Objects

/-!
# Merging well-formed values

No merge makes an object with a repeated key of values that have none. So the merged properties of a
family are as well-formed as the documents that they come from.
-/

namespace ModularTemplates

namespace Json

/-! ### Building well-formed values -/

lemma WellFormed.set {fs : Fields Json} (h : (object fs).WellFormed) (key : String) {w : Json}
    (hw : w.WellFormed) : (object (fs.set key w)).WellFormed := by
  refine wellFormed_object_iff.mpr ⟨h.distinct.set key w, fun other v hv => ?_⟩
  rw [Fields.get?_set] at hv
  split_ifs at hv
  · cases hv
    exact hw
  · exact h.get? hv

lemma WellFormed.append {xs ys : List Json} (hxs : (array xs).WellFormed)
    (hys : (array ys).WellFormed) : (array (xs ++ ys)).WellFormed := by
  rw [wellFormed_array_iff] at *
  intro x hx
  rcases List.mem_append.mp hx with hx | hx
  · exact hxs x hx
  · exact hys x hx

lemma WellFormed.itemsOrNull? {v : Json} (h : v.WellFormed) {xs : List Json}
    (hxs : v.itemsOrNull? = some xs) : (array xs).WellFormed := by
  cases v with
  | null =>
    cases hxs
    exact wellFormed_array_iff.mpr (by simp)
  | array xs =>
    cases hxs
    exact h
  | _ => cases hxs

end Json

/-! ### Merging -/

mutual
lemma wellFormed_combine {t s : Json} (ht : t.WellFormed) (hs : s.WellFormed) :
    (combine t s).WellFormed := by
  match t, s with
  | .object ts, .object ss =>
    rw [combine]
    exact wellFormed_combineFields ht fun k s h => hs.get? (hs.distinct.get?_of_mem h)
  | .array ts, .array ss =>
    rw [combine]
    rw [Json.wellFormed_array_iff] at *
    exact wellFormed_combineItems ht hs
  | .null, s | .bool _, s | .number _, s | .string _, s => simpa [combine] using hs
  | .object _, .null | .object _, .bool _ | .object _, .number _ | .object _, .string _
  | .object _, .array _ | .array _, .null | .array _, .bool _ | .array _, .number _
  | .array _, .string _ | .array _, .object _ => simpa [combine] using hs

lemma wellFormed_combineFields {ts : Fields Json} {ss : List (String × Json)}
    (ht : (Json.object ts).WellFormed) (hs : ∀ k s, (k, s) ∈ ss → s.WellFormed) :
    (Json.object (combineFields ts ss)).WellFormed := by
  match ss with
  | [] =>
    rwa [combineFields]
  | (k, s) :: ss =>
    rw [combineFields]
    refine wellFormed_combineFields (ht.set k ?_) fun k s h => hs k s (List.mem_cons_of_mem _ h)
    have hhead := hs k s List.mem_cons_self
    split
    · exact wellFormed_combine (ht.get? ‹_›) hhead
    · exact hhead

lemma wellFormed_combineItems {ts ss : List Json} (ht : ∀ t ∈ ts, t.WellFormed)
    (hs : ∀ s ∈ ss, s.WellFormed) : ∀ x ∈ combineItems ts ss, x.WellFormed := by
  match ts, ss with
  | ts, [] =>
    rwa [combineItems]
  | [], s :: ss =>
    rwa [combineItems]
  | t :: ts, s :: ss =>
    rw [combineItems]
    rw [List.forall_mem_cons] at *
    exact ⟨wellFormed_combine ht.1 hs.1, wellFormed_combineItems ht.2 hs.2⟩
end

/-- Only the parts of an entered container are new in it. -/
lemma wellFormed_withParts {rules : Rules} {path : Path} {t s : Json} {part : Segment → Json}
    (hdescend : rules.descend path t s = true) (ht : t.WellFormed)
    (hparts : ∀ seg, s.child? seg ≠ none → (part seg).WellFormed) :
    (t.withParts s part).WellFormed := by
  have hchild : ∀ seg w, (t.withParts s part).child? seg = some w → w.WellFormed := by
    intro seg w hw
    rw [Json.child?_withParts hdescend] at hw
    split_ifs at hw with hseg
    · cases hw
      obtain ⟨s', hs'⟩ := Json.mem_segments_iff.mp hseg
      exact hparts seg (by simp [hs'])
    · exact ht.child? hw
  obtain ⟨ts, ss, rfl, rfl⟩ | ⟨ts, ss, rfl, rfl⟩ := Rules.containers_of_descend hdescend
  · exact Json.wellFormed_object_iff.mpr
      ⟨ht.distinct.update _, fun key v hv => hchild (.key key) v hv⟩
  · refine Json.wellFormed_array_iff.mpr fun x hx => ?_
    obtain ⟨i, hi⟩ := List.mem_iff_getElem?.mp hx
    exact hchild (.index i) x hi

theorem Merges.wellFormed {rules : Rules} {path : Path} {t s v : Json} {changes : List Change}
    (h : Merges rules path t s v changes) (ht : t.WellFormed) (hs : s.WellFormed) :
    v.WellFormed := by
  induction h with
  | replaced => exact hs
  | combined => exact wellFormed_combine ht hs
  | appended _ hitems => exact (ht.itemsOrNull? hitems).append hs
  | prepended _ hitems => exact hs.append (ht.itemsOrNull? hitems)
  | @entered path t s part changes _ hdescend _ _ ih =>
    refine wellFormed_withParts hdescend ht fun seg hseg => ?_
    obtain ⟨s', hs'⟩ := Option.ne_none_iff_exists'.mp hseg
    refine ih seg s' hs' ?_ (hs.child? hs')
    cases htarget : t.child? seg with
    | none => simp [Json.WellFormed]
    | some t' => exact ht.child? htarget

theorem wellFormed_of_merge {rules : Rules} {t s v : Json} {changes : List Change}
    (ht : t.WellFormed) (hs : s.WellFormed) (h : (merge rules t s).result = .ok (v, changes)) :
    v.WellFormed := by
  rw [Merged.result_eq_ok_iff] at h
  obtain ⟨made, -, hmerges⟩ := Merges.of_mergeAt rules [] t s hs (congrArg Merged.error h)
  have hv : (mergeAt rules [] t s).target = v := congrArg Merged.target h
  rw [hv] at hmerges
  exact hmerges.wellFormed ht hs

namespace Documents

variable {documents : Documents} {family : Family}

lemma Resolves.wellFormed_properties (hdocuments : documents.WellFormed)
    (h : documents.Resolves family) : family.properties.WellFormed := by
  refine foldlM_invariant (fun sofar => sofar.1.WellFormed)
    (wellFormed_ownProperties hdocuments family.root) ?_ h.merged
  intro before id next _ hbefore hnext
  obtain ⟨⟨properties, changes⟩, hresult, hnext⟩ := bind_eq_ok_iff.mp hnext
  cases hnext
  exact wellFormed_of_merge hbefore (wellFormed_ownProperties hdocuments id) hresult

end Documents

end ModularTemplates
