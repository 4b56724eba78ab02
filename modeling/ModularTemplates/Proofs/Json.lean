import Mathlib.Tactic.Lemma
import ModularTemplates.Path.Lookup
import ModularTemplates.Proofs.Fields

/-!
# Well-formed values

In a well-formed value no object lists a key twice. The parts of a well-formed value are
well-formed, and whether a value is well-formed can be decided.
-/

namespace ModularTemplates

lemma Number.same_self (n : Number) : n.same n = true := by
  cases n <;> simp [Number.same]

namespace Json

mutual
/-- Decide whether a value is well-formed. -/
def decideWellFormed : (v : Json) → Decidable v.WellFormed
  | .array xs =>
    let _ := decideWellFormedItems xs
    decidable_of_iff (WellFormedItems xs) (by rw [WellFormed])
  | .object fs =>
    let _ := decideWellFormedFields fs
    decidable_of_iff (Fields.Distinct fs ∧ WellFormedFields fs) (by rw [WellFormed])
  | .null | .bool _ | .number _ | .string _ => isTrue (by simp [WellFormed])

/-- Decide whether all items are well-formed. -/
def decideWellFormedItems : (xs : List Json) → Decidable (WellFormedItems xs)
  | [] => isTrue (by simp [WellFormedItems])
  | x :: xs =>
    let _ := decideWellFormed x
    let _ := decideWellFormedItems xs
    decidable_of_iff (WellFormed x ∧ WellFormedItems xs) (by rw [WellFormedItems])

/-- Decide whether all values of fields are well-formed. -/
def decideWellFormedFields : (fs : List (String × Json)) → Decidable (WellFormedFields fs)
  | [] => isTrue (by simp [WellFormedFields])
  | (_, v) :: fs =>
    let _ := decideWellFormed v
    let _ := decideWellFormedFields fs
    decidable_of_iff (WellFormed v ∧ WellFormedFields fs) (by rw [WellFormedFields])
end

instance : DecidablePred WellFormed := decideWellFormed

lemma WellFormed.distinct {fs : Fields Json} (h : (object fs).WellFormed) : fs.Distinct := by
  rw [WellFormed] at h
  exact h.1

lemma WellFormed.get? {fs : Fields Json} (h : (object fs).WellFormed) {key : String} {v : Json}
    (hv : fs.get? key = some v) : v.WellFormed := by
  rw [WellFormed, wellFormedFields_iff] at h
  exact h.2 _ (Fields.mem_of_get? hv)

lemma wellFormed_object_iff {fs : Fields Json} :
    (object fs).WellFormed ↔ fs.Distinct ∧ ∀ key v, fs.get? key = some v →
      v.WellFormed := by
  constructor
  · exact fun h => ⟨h.distinct, fun key v hv => h.get? hv⟩
  · rintro ⟨hdistinct, h⟩
    rw [WellFormed, wellFormedFields_iff]
    exact ⟨hdistinct, fun field hfield => h field.1 field.2 (hdistinct.get?_of_mem hfield)⟩

lemma wellFormed_array_iff {xs : List Json} :
    (array xs).WellFormed ↔ ∀ x ∈ xs, x.WellFormed := by
  rw [WellFormed, wellFormedItems_iff]

lemma WellFormed.field? {v w : Json} (h : v.WellFormed) {key : String}
    (hw : v.field? key = some w) :
    w.WellFormed := by
  cases v with
  | object fs => exact h.get? hw
  | _ => simp [Json.field?, asObject?] at hw

/-- What stands one step below a value stands in an object under a key or in an array at an
index. -/
lemma exists_of_child? {v w : Json} {seg : Segment} (h : v.child? seg = some w) :
    (∃ (fs : Fields Json) (k : String), v = .object fs ∧ seg = .key k ∧
      fs.get? k = some w) ∨
      ∃ (xs : List Json) (i : Nat), v = .array xs ∧ seg = .index i ∧ xs[i]? = some w := by
  cases v with
  | object fs =>
    cases seg with
    | key k => exact .inl ⟨fs, k, rfl, rfl, h⟩
    | index i => cases h
  | array xs =>
    cases seg with
    | key k => cases h
    | index i => exact .inr ⟨xs, i, rfl, rfl, h⟩
  | _ => cases h

lemma WellFormed.child? {v w : Json} (h : v.WellFormed) {seg : Segment}
    (hw : v.child? seg = some w) : w.WellFormed := by
  rcases exists_of_child? hw with ⟨fs, k, rfl, -, hk⟩ | ⟨xs, i, rfl, -, hi⟩
  · exact h.get? hk
  · exact wellFormed_array_iff.mp h w (List.mem_of_getElem? hi)

lemma WellFormed.lookup {v w : Json} {p : Path} (h : v.WellFormed) (hw : p.lookup v = some w) :
    w.WellFormed := by
  induction p generalizing v with
  | nil =>
    cases hw
    exact h
  | cons seg p ih =>
    obtain ⟨u, hu, hw⟩ := Option.bind_eq_some_iff.mp hw
    exact ih (h.child? hu) hw

lemma child?_key (v : Json) (key : String) : v.child? (.key key) = v.field? key := by
  cases v <;> rfl

lemma exists_object_of_child? {v w : Json} {key : String} (h : v.child? (.key key) = some w) :
    ∃ fs, v = .object fs := by
  cases v with
  | object fs => exact ⟨fs, rfl⟩
  | _ => cases h

/-! ### Equality apart from key order -/

mutual
lemma WellFormed.same_self {v : Json} (h : v.WellFormed) : v.same v = true := by
  match v with
  | .null => rfl
  | .bool _ | .string _ => simp [same]
  | .number n => simp [same, Number.same_self]
  | .array xs =>
    rw [WellFormed, wellFormedItems_iff] at h
    rw [same]
    exact sameItems_self h
  | .object fs =>
    rw [same, Bool.and_eq_true]
    exact ⟨beq_self_eq_true _,
      sameFields_of_get? (fun k v hv => h.get? (h.distinct.get?_of_mem hv))
      fun k v hv => h.distinct.get?_of_mem hv⟩

lemma sameItems_self {xs : List Json} (h : ∀ x ∈ xs, x.WellFormed) :
    sameItems xs xs = true := by
  match xs with
  | [] => rfl
  | x :: xs =>
    rw [List.forall_mem_cons] at h
    rw [sameItems, Bool.and_eq_true]
    exact ⟨h.1.same_self, sameItems_self h.2⟩

lemma sameFields_of_get? {fs : List (String × Json)} {gs : Fields Json}
    (hwell : ∀ k v, (k, v) ∈ fs → v.WellFormed)
    (h : ∀ k v, (k, v) ∈ fs → gs.get? k = some v) :
    sameFields fs gs = true := by
  match fs with
  | [] => rfl
  | (k, v) :: fs =>
    rw [sameFields, h k v List.mem_cons_self, Bool.and_eq_true]
    exact ⟨(hwell k v List.mem_cons_self).same_self, sameFields_of_get?
      (fun k v hv => hwell k v (List.mem_cons_of_mem _ hv)) fun k v hv =>
        h k v (List.mem_cons_of_mem _ hv)⟩
end

/-- Two objects are the same if the same is found in them under every key. -/
lemma same_object {fs gs : Fields Json} (hfs : (object fs).WellFormed) (hgs : gs.Distinct)
    (h : ∀ key, fs.get? key = gs.get? key) : (object fs).same (object gs) = true := by
  rw [same, Bool.and_eq_true, beq_iff_eq]
  refine ⟨(hfs.distinct.perm_of_get? hgs h).length_eq, sameFields_of_get? ?_ ?_⟩
  · exact fun k v hv => hfs.get? (hfs.distinct.get?_of_mem hv)
  · exact fun k v hv => h k ▸ hfs.distinct.get?_of_mem hv

end Json

end ModularTemplates
