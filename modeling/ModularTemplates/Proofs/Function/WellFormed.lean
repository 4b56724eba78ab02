import Mathlib.Tactic.Lemma
import ModularTemplates.Proofs.Function.Contributions
import ModularTemplates.Proofs.Function.Stable

/-!
# Composing well-formed values

Qualifying addresses, contributions of extensions, the properties of middlewares and dropping
repeated items all keep keys distinct. So the properties of a composed function are as well-formed
as the documents.
-/

namespace ModularTemplates

/-! ### Qualifying -/

namespace Qualifier

variable {q : Qualifier} {path : Path} {v w : Json}

lemma wellFormed_address (h : v.WellFormed) : (q.address path v).WellFormed := by
  cases v with
  | object fs =>
    rw [address]
    split_ifs
    · exact h
    · exact h.set "module" (by simp [Json.WellFormed])
  | _ => exact h

lemma wellFormed_onField {fs : Fields Json} (h : (Json.object fs).WellFormed) (key : String)
    {f : Json → Json} (hf : ∀ v : Json, v.WellFormed → (f v).WellFormed) :
    (Json.object (onField fs key f)).WellFormed := by
  unfold onField
  split
  · rename_i v hv
    exact h.set key (hf v (h.get? hv))
  · exact h

lemma wellFormed_entries (h : v.WellFormed) : (q.entries path v).WellFormed := by
  cases v with
  | array xs =>
    rw [Json.wellFormed_array_iff] at h
    rw [entries, Json.wellFormed_array_iff]
    intro x hx
    obtain ⟨i, hi, rfl⟩ := List.mem_mapIdx.mp hx
    exact wellFormed_address (h _ (List.getElem_mem hi))
  | _ => exact h

lemma wellFormed_middlewares (h : v.WellFormed) : (q.middlewares path v).WellFormed := by
  cases v with
  | object fs => exact wellFormed_onField h _ fun _ hw => wellFormed_entries hw
  | _ => exact h

lemma wellFormed_object {fs : Fields Json} (h : (Json.object fs).WellFormed) :
    (Json.object (q.object path fs)).WellFormed := by
  refine wellFormed_onField (wellFormed_onField h _ fun _ hw => ?_) _ fun _ hw => ?_
  · exact wellFormed_address hw
  · exact wellFormed_middlewares hw

lemma wellFormed_fields {fs : Fields Json} (h : (Json.object fs).WellFormed)
    (hvalue : ∀ key w, fs.get? key = some w → (q.value (path ++ [.key key]) w).WellFormed) :
    (Json.object (q.fields path fs)).WellFormed := by
  refine Json.wellFormed_object_iff.mpr ⟨?_, fun key w hw => ?_⟩
  · rw [Fields.Distinct, keys_fields]
    exact h.distinct
  · rw [get?_fields, Option.map_eq_some_iff] at hw
    obtain ⟨u, hu, rfl⟩ := hw
    exact hvalue key u hu

theorem wellFormed_value (q : Qualifier) (path : Path) (v : Json) (h : v.WellFormed) :
    (q.value path v).WellFormed := by
  match v with
  | .object fs =>
    have hfields : (Json.object (q.fields path fs)).WellFormed := by
      refine wellFormed_fields h fun key w hw => ?_
      have hchild : (Json.object fs).child? (.key key) = some w := hw
      exact wellFormed_value q _ w (h.child? hchild)
    rw [value]
    exact wellFormed_object hfields
  | .array xs =>
    rw [value, Json.wellFormed_array_iff]
    intro y hy
    obtain ⟨i, hi⟩ := List.mem_iff_getElem?.mp hy
    rw [getElem?_items, Option.map_eq_some_iff] at hi
    obtain ⟨x, hx, rfl⟩ := hi
    have hchild : (Json.array xs).child? (.index i) = some x := hx
    exact wellFormed_value q _ x (h.child? hchild)
  | .null | .bool _ | .number _ | .string _ => simp [value, Json.WellFormed]
termination_by sizeOf v
decreasing_by all_goals exact Json.sizeOf_lt_of_child? hchild

end Qualifier

/-! ### Dropping repeated items -/

namespace Json.WellFormed

variable {v w : Json}

lemma replaceChild (h : v.WellFormed) (seg : Segment) (hw : w.WellFormed) :
    (v.replaceChild seg w).WellFormed := by
  cases v with
  | object fs =>
    cases seg with
    | key k => exact h.set k hw
    | index i => exact h
  | array xs =>
    cases seg with
    | key k => exact h
    | index i =>
      rw [wellFormed_array_iff] at h
      rw [Json.replaceChild, wellFormed_array_iff]
      intro x hx
      rcases List.mem_or_eq_of_mem_set hx with hx | rfl
      · exact h x hx
      · exact hw
  | _ => exact h

lemma modify? {f : Json → Json} (hf : ∀ u : Json, u.WellFormed → (f u).WellFormed) {p : Path}
    (h : v.WellFormed) (hw : p.modify? f v = some w) : w.WellFormed := by
  induction p generalizing v w with
  | nil =>
    cases hw
    exact hf v h
  | cons seg p ih =>
    obtain ⟨below, hbelow, hw⟩ := Option.bind_eq_some_iff.mp hw
    obtain ⟨changed, hchanged, hw⟩ := Option.bind_eq_some_iff.mp hw
    cases hw
    exact h.replaceChild seg (ih (h.child? hbelow) hchanged)

lemma dropRepeatedAt (h : v.WellFormed) (p : Path) : (v.dropRepeatedAt p).WellFormed := by
  unfold Json.dropRepeatedAt
  cases hw : Path.modify? _ p v with
  | none => exact h
  | some w =>
    refine h.modify? (fun u hu => ?_) hw
    cases u with
    | array xs =>
      rw [wellFormed_array_iff] at hu
      exact wellFormed_array_iff.mpr fun x hx => hu x (Stable.mem_of_mem_distinctItems hx)
    | _ => exact hu

lemma eraseField (h : v.WellFormed) (key : String) : (v.eraseField key).WellFormed := by
  cases v with
  | object fs =>
    refine wellFormed_object_iff.mpr ⟨h.distinct.erase key, fun other w hw => ?_⟩
    exact h.get? (h.distinct.get?_of_mem
      ((Fields.erase_sublist fs key).subset (Fields.mem_of_get? hw)))
  | _ => exact h

end Json.WellFormed

/-! ### Contributions -/

lemma Schema.wellFormed_injection {schema : Schema} {type : String} {extension : Extension}
    {injection : Injection} (h : injection ∈ schema.injections type extension) :
    injection.2.WellFormed := by
  have hitem : ∀ x : Json, x.WellFormed → (Json.array [x]).WellFormed := fun x hx =>
    Json.wellFormed_array_iff.mpr (by simpa using hx)
  rcases List.mem_append.mp h with h | h
  · obtain ⟨contribution, -, rfl⟩ := List.mem_map.mp h
    exact Json.wellFormed_nest [_, _, _] (hitem _ (ResourceId.wellFormed_toJson _))
  · obtain ⟨contribution, -, rfl⟩ := List.mem_map.mp h
    exact Json.wellFormed_single _
      (hitem _ (Json.wellFormed_single _ (ResourceId.wellFormed_toJson _)))

end ModularTemplates
