import Mathlib.Data.List.Forall2
import Mathlib.Data.List.Perm.Subperm
import Mathlib.Tactic.Lemma
import ModularTemplates.Proofs.Json

/-!
# Values that are the same

Objects are compared key by key, whatever the order of their keys. Among well-formed values that
makes an equivalence.
-/

namespace ModularTemplates

lemma Number.same_of_same {m n k : Number} (h : m.same k = true) (h' : n.same k = true) :
    m.same n = true := by
  cases m <;> cases k <;> cases n <;> simp_all [Number.same, Binary64.same]
  -- floats are zero or equal
  rcases h with h | rfl <;> rcases h' with h' | rfl <;> simp_all

namespace Json

/-! ### Key by key -/

/-- Two values have the same under a key, or nothing. -/
def SameAt (key : String) (x y : Json) : Prop :=
  Option.Rel (fun v w => v.same w = true) (x.field? key) (y.field? key)

lemma sameFields_of_rel {fs : List (String × Json)} {gs : Fields Json}
    (h : ∀ k v, (k, v) ∈ fs → Option.Rel (fun v w => v.same w = true) (some v) (gs.get? k)) :
    sameFields fs gs = true := by
  induction fs with
  | nil => rfl
  | cons field fs ih =>
    obtain ⟨k, v⟩ := field
    rw [sameFields, Bool.and_eq_true]
    refine ⟨?_, ih fun k v hv => h k v (List.mem_cons_of_mem _ hv)⟩
    have hrel := h k v List.mem_cons_self
    cases hget : Fields.get? gs k with
    | none =>
      rw [hget] at hrel
      cases hrel
    | some w =>
      rw [hget] at hrel
      cases hrel with
      | some hsame => exact hsame

/-- Two objects that have the same under every key are the same. -/
lemma same_of_sameAt {fs gs : Fields Json} (hfs : fs.Distinct) (hgs : gs.Distinct)
    (h : ∀ key, SameAt key (.object fs) (.object gs)) : (object fs).same (object gs) = true := by
  have hrel : ∀ key, Option.Rel (fun v w => v.same w = true) (fs.get? key) (gs.get? key) := h
  have hlength := (Fields.keys_perm_of_rel hfs hgs hrel).length_eq
  rw [Fields.keys, Fields.keys, List.length_map, List.length_map] at hlength
  rw [same, Bool.and_eq_true, beq_iff_eq]
  refine ⟨hlength, sameFields_of_rel fun k v hv => ?_⟩
  rw [← hfs.get?_of_mem hv]
  exact hrel k

/-- What two values have under a key can be compared with what a third one has there. -/
lemma SameAt.trans_symm {key : String} {v w u : Json} (h : SameAt key v u) (h' : SameAt key w u)
    (hpart : ∀ x y z, v.field? key = some x → w.field? key = some y →
      u.field? key = some z →
      x.same z = true → y.same z = true → x.same y = true) : SameAt key v w := by
  unfold SameAt at *
  generalize v.field? key = a, w.field? key = b, u.field? key = c at *
  cases h with
  | none =>
    cases h'
    exact .none
  | some hx =>
    cases h' with
    | some hy => exact .some (hpart _ _ _ rfl rfl rfl hx hy)

lemma exists_of_sameFields {fs : List (String × Json)} {gs : Fields Json}
    (h : sameFields fs gs = true) :
    ∀ k v, (k, v) ∈ fs → ∃ w, gs.get? k = some w ∧ v.same w = true := by
  induction fs with
  | nil => simp
  | cons field fs ih =>
    obtain ⟨k, v⟩ := field
    rw [sameFields, Bool.and_eq_true] at h
    intro k' v' hmem
    rcases List.mem_cons.mp hmem with heq | hmem
    · cases heq
      cases hget : Fields.get? gs k with
      | none => simp [hget] at h
      | some w => exact ⟨w, rfl, by simpa [hget] using h.1⟩
    · exact ih h.2 k' v' hmem

/-- Two objects that are the same have the same under every key. -/
lemma sameAt_of_same {fs gs : Fields Json} (hfs : fs.Distinct)
    (h : (object fs).same (object gs) = true) (key : String) :
    SameAt key (.object fs) (.object gs) := by
  rw [same, Bool.and_eq_true, beq_iff_eq] at h
  obtain ⟨hlength, hfields⟩ := h
  have hfound := exists_of_sameFields hfields
  have hsubset : fs.keys ⊆ gs.keys := by
    intro k hk
    obtain ⟨v, hv⟩ := Fields.mem_keys_iff.mp hk
    obtain ⟨w, hw, -⟩ := hfound k v (Fields.mem_of_get? hv)
    exact Fields.mem_keys_of_get? hw
  -- there are as many keys on both sides, so none is left over
  have hkeys : fs.keys.Perm gs.keys := by
    refine (List.subperm_of_subset hfs hsubset).perm_of_length_le (Nat.le_of_eq ?_)
    rw [Fields.keys, Fields.keys, List.length_map, List.length_map, hlength]
  change Option.Rel _ (fs.get? key) (gs.get? key)
  cases hget : fs.get? key with
  | some v =>
    obtain ⟨w, hw, hsame⟩ := hfound key v (Fields.mem_of_get? hget)
    rw [hw]
    exact .some hsame
  | none =>
    rw [Fields.get?_eq_none_iff, hkeys.mem_iff, ← Fields.get?_eq_none_iff] at hget
    rw [hget]
    exact .none

/-! ### An equivalence -/

mutual
/-- Two values that are the same as a third one are the same. -/
lemma WellFormed.same_of_same {v w u : Json} (hv : v.WellFormed) (hw : w.WellFormed)
    (hu : u.WellFormed) (h : v.same u = true) (h' : w.same u = true) : v.same w = true := by
  match v with
  | .null =>
    cases u <;> simp only [same, Bool.false_eq_true] at h
    cases w <;> first | rfl | simp [same] at h'
  | .bool a | .string a =>
    cases u <;> simp only [same, Bool.false_eq_true] at h
    cases w <;> simp_all [same]
  | .number n =>
    cases u <;> simp only [same, Bool.false_eq_true] at h
    cases w <;> simp only [same, Bool.false_eq_true] at h' ⊢
    exact Number.same_of_same h h'
  | .array xs =>
    cases u <;> simp only [same, Bool.false_eq_true] at h
    cases w <;> simp only [same, Bool.false_eq_true] at h' ⊢
    rw [WellFormed, wellFormedItems_iff] at hv hw hu
    exact sameItems_of_same hv hw hu h h'
  | .object fs =>
    cases u with
    | object us =>
      cases w with
      | object gs =>
        refine same_of_sameAt hv.distinct hw.distinct fun key => ?_
        refine (sameAt_of_same hv.distinct h key).trans_symm (sameAt_of_same hw.distinct h' key) ?_
        intro x y z hx hy hz
        exact same_of_mem (fun field hfield => hv.get? (hv.distinct.get?_of_mem hfield))
          (Fields.mem_of_get? hx)
          (hw.get? hy) (hu.get? hz)
      | _ => simp [same] at h'
    | _ => simp [same] at h

lemma sameItems_of_same {xs ys us : List Json} (hxs : ∀ x ∈ xs, x.WellFormed)
    (hys : ∀ x ∈ ys, x.WellFormed) (hus : ∀ x ∈ us, x.WellFormed)
    (h : sameItems xs us = true) (h' : sameItems ys us = true) :
    sameItems xs ys = true := by
  match xs with
  | [] =>
    cases us <;> simp only [sameItems, Bool.false_eq_true] at h
    cases ys <;> first | rfl | simp [sameItems] at h'
  | x :: xs =>
    cases us <;> simp only [sameItems, Bool.and_eq_true, Bool.false_eq_true] at h
    cases ys <;> simp only [sameItems, Bool.and_eq_true, Bool.false_eq_true] at h' ⊢
    rw [List.forall_mem_cons] at hxs hys hus
    exact ⟨hxs.1.same_of_same hys.1 hus.1 h.1 h'.1,
      sameItems_of_same hxs.2 hys.2 hus.2 h.2 h'.2⟩

/-- The same for a value that stands in fields. -/
lemma same_of_mem {fs : List (String × Json)} (hfs : ∀ field ∈ fs, field.2.WellFormed)
    {key : String} {v w u : Json} (hv : (key, v) ∈ fs) (hw : w.WellFormed) (hu : u.WellFormed)
    (h : v.same u = true) (h' : w.same u = true) : v.same w = true := by
  match fs with
  | [] => cases hv
  | (k, x) :: fs =>
    rw [List.forall_mem_cons] at hfs
    rcases List.mem_cons.mp hv with heq | hv
    · cases heq
      exact hfs.1.same_of_same hw hu h h'
    · exact same_of_mem hfs.2 hv hw hu h h'
end

/-! ### Well-formed values that are the same -/

lemma asString?_of_same {v w : Json} (h : v.same w = true) : v.asString? = w.asString? := by
  cases v <;> cases w <;> simp_all [same, asString?]

/-- Values that are the same have the same texts under their keys. -/
lemma text?_of_same {v w : Json} (hv : v.WellFormed) (h : v.same w = true) (key : String) :
    (v.field? key).bind asString? = (w.field? key).bind asString? := by
  cases v with
  | object fs =>
    cases w with
    | object gs =>
      have hkey := sameAt_of_same hv.distinct h key
      unfold SameAt at hkey
      generalize (object fs).field? key = x, (object gs).field? key = y at hkey
      cases hkey with
      | none => rfl
      | some hxy => exact asString?_of_same hxy
    | _ => simp [same] at h
  | _ => cases w <;> first | rfl | simp [same] at h

lemma sameItems_iff {xs ys : List Json} : sameItems xs ys = true ↔
    List.Forall₂ (fun x y => x.same y = true) xs ys := by
  induction xs generalizing ys with
  | nil => cases ys <;> simp [sameItems]
  | cons x xs ih => cases ys <;> simp [sameItems, ih]

/-- Two well-formed values that are the same. -/
structure SameValue (v w : Json) : Prop where
  left : v.WellFormed
  right : w.WellFormed
  same : v.same w = true

namespace SameValue

variable {v w : Json} {fs gs : Fields Json} {xs ys : List Json}

lemma refl (h : v.WellFormed) : v.SameValue v :=
  ⟨h, h, h.same_self⟩

lemma of_fields (hfs : fs.Distinct) (hgs : gs.Distinct)
    (h : ∀ key, Option.Rel SameValue (fs.get? key) (gs.get? key)) :
    (object fs).SameValue (object gs) where
  left := wellFormed_object_iff.mpr ⟨hfs, fun key x hx => by
    obtain ⟨y, -, hxy⟩ := exists_of_rel (h key) hx
    exact hxy.left⟩
  right := wellFormed_object_iff.mpr ⟨hgs, fun key y hy => by
    obtain ⟨x, -, hxy⟩ := exists_of_rel_right (h key) hy
    exact hxy.right⟩
  same := same_of_sameAt hfs hgs fun key => rel_imp (h key) fun _ _ _ _ hxy => hxy.same

lemma of_items (h : List.Forall₂ SameValue xs ys) : (array xs).SameValue (array ys) where
  left := wellFormed_array_iff.mpr
    ((List.forall₂_and_left xs ys).mp (h.imp fun x y hxy => ⟨hxy.left, hxy⟩)).1
  right := wellFormed_array_iff.mpr
    ((List.forall₂_and_left ys xs).mp (h.flip.imp fun y x hxy => ⟨hxy.right, hxy⟩)).1
  same := by
    rw [Json.same, sameItems_iff]
    exact h.imp fun _ _ hxy => hxy.same

lemma get? (h : (object fs).SameValue (object gs)) (key : String) :
    Option.Rel SameValue (fs.get? key) (gs.get? key) := by
  have hkey : Option.Rel _ (fs.get? key) (gs.get? key) := sameAt_of_same h.left.distinct h.same key
  exact rel_imp hkey fun x y hx hy hxy => ⟨h.left.get? hx, h.right.get? hy, hxy⟩

lemma keys_perm (h : (object fs).SameValue (object gs)) : fs.keys.Perm gs.keys :=
  Fields.keys_perm_of_rel h.left.distinct h.right.distinct h.get?

lemma items (h : (array xs).SameValue (array ys)) : List.Forall₂ SameValue xs ys := by
  have hsame := h.same
  rw [Json.same, sameItems_iff] at hsame
  have hxs := wellFormed_array_iff.mp h.left
  have hys := wellFormed_array_iff.mp h.right
  clear h
  induction hsame with
  | nil => exact .nil
  | cons hxy _ ih =>
    obtain ⟨hx, hxs⟩ := List.forall_mem_cons.mp hxs
    obtain ⟨hy, hys⟩ := List.forall_mem_cons.mp hys
    exact .cons ⟨hx, hy, hxy⟩ (ih hxs hys)

lemma child? (h : v.SameValue w) {seg : Segment} {x : Json} (hx : v.child? seg = some x) :
    ∃ y, w.child? seg = some y ∧ x.SameValue y := by
  have hsame := h.same
  cases v with
  | object fs =>
    cases w with
    | object gs =>
      cases seg with
      | index i => cases hx
      | key k => exact exists_of_rel (h.get? k) hx
    | _ => simp [Json.same] at hsame
  | array xs =>
    cases w with
    | array ys =>
      cases seg with
      | key k => cases hx
      | index i =>
        obtain ⟨hi, rfl⟩ := List.getElem?_eq_some_iff.mp hx
        have hi' : i < ys.length := h.items.length_eq ▸ hi
        exact ⟨ys[i], List.getElem?_eq_getElem hi', h.items.get hi hi'⟩
    | _ => simp [Json.same] at hsame
  | _ => cases seg <;> cases hx

/-- Fields that are the same one by one make the same object in any order. -/
lemma of_fields_perm {gs' : Fields Json}
    (h : List.Forall₂ (fun field field' => field.1 = field'.1 ∧
      field.2.SameValue field'.2) fs gs)
    (hperm : gs.Perm gs') (hfs : fs.Distinct) : (object fs).SameValue (object gs') := by
  have hgs : gs.Distinct := by rwa [Fields.Distinct, ← Fields.keys_eq_of_forall₂ h]
  refine of_fields hfs ((hperm.map Prod.fst).nodup_iff.mp hgs) fun key => ?_
  rw [← hgs.get?_perm hperm key]
  exact Fields.rel_get?_of_forall₂ h key

end SameValue

end Json

end ModularTemplates
