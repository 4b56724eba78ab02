import Mathlib.Tactic.Lemma
import ModularTemplates.Proofs.Function.Lists
import ModularTemplates.Proofs.Function.Steps
import ModularTemplates.Proofs.Merge.Stable

/-!
# What composed functions keep

Qualifying properties adds modules to addresses, contributions of extensions and middlewares
are merged into them, and repeated items are dropped. What holds throughout the properties of
all families and throughout the contributions therefore holds throughout the properties of
composed functions.
-/

namespace ModularTemplates

namespace Json.Stable

variable {good : Path → Json → Prop} {path : Path} {v w : Json} {fs : Fields Json}

/-! ### Qualifying -/

section Qualifying

variable {q : Qualifier} {p : Path}

lemma each_address (h : Stable good) (hmodule : ∀ p m, good (p ++ [.key "module"]) (.string m))
    (hv : v.Each good path) : (q.address p v).Each good path := by
  cases v with
  | object fs =>
    rw [Qualifier.address]
    split_ifs
    · exact hv
    · exact h.each_set hv "module" (by simpa [Each] using hmodule path _)
  | _ => exact hv

lemma each_onField (h : Stable good) (hfs : (object fs).Each good path) {key : String}
    {f : Json → Json}
    (hf : ∀ v, v.Each good (path ++ [.key key]) → (f v).Each good (path ++ [.key key])) :
    (object (Qualifier.onField fs key f)).Each good path := by
  unfold Qualifier.onField
  split
  · rename_i v hv
    exact h.each_set hfs key (hf v ((each_object_iff.mp hfs).2 (key, v) (Fields.mem_of_get? hv)))
  · exact hfs

lemma each_entries (h : Stable good) (hmodule : ∀ p m, good (p ++ [.key "module"]) (.string m))
    (hv : v.Each good path) : (q.entries p v).Each good path := by
  cases v with
  | array xs =>
    refine h.each_array hv fun y hy => ?_
    obtain ⟨i, hi, rfl⟩ := List.mem_mapIdx.mp hy
    exact h.each_address hmodule ((h.each_array_iff.mp hv).2 _ (List.getElem_mem hi))
  | _ => exact hv

lemma each_middlewares (h : Stable good)
    (hmodule : ∀ p m, good (p ++ [.key "module"]) (.string m)) (hv : v.Each good path) :
    (q.middlewares p v).Each good path := by
  cases v with
  | object fs => exact h.each_onField hv fun w hw => h.each_entries hmodule hw
  | _ => exact hv

mutual
lemma each_value (h : Stable good) (hmodule : ∀ p m, good (p ++ [.key "module"]) (.string m))
    {path : Path} (p : Path) {v : Json} (hv : v.Each good path) : (q.value p v).Each good path := by
  match v with
  | .object fs =>
    rw [Each] at hv
    have hfields : (object (q.fields p fs)).Each good path := by
      rw [Each]
      refine ⟨h.objects _ _ _ hv.1 ?_, h.each_fields hmodule p hv.2⟩
      rw [Qualifier.keys_fields]
      exact List.Subset.refl _
    rw [Qualifier.value, Qualifier.object]
    refine h.each_onField (h.each_onField hfields fun w hw => ?_) fun w hw => ?_
    · exact h.each_address hmodule hw
    · exact h.each_middlewares hmodule hw
  | .array xs =>
    rw [Each] at hv
    rw [Qualifier.value, Each]
    exact ⟨h.arrays _ _ _ hv.1, h.each_valueItems hmodule p 0 hv.2⟩
  | .null | .bool _ | .number _ | .string _ => simpa [Qualifier.value] using hv

lemma each_fields (h : Stable good) (hmodule : ∀ p m, good (p ++ [.key "module"]) (.string m))
    {path : Path} (p : Path) {fs : List (String × Json)} (hfs : EachField good path fs) :
    EachField good path (q.fields p fs) := by
  match fs with
  | [] => exact hfs
  | (k, v) :: fs =>
    rw [EachField] at hfs
    rw [Qualifier.fields, EachField]
    exact ⟨h.each_value hmodule _ hfs.1, h.each_fields hmodule p hfs.2⟩

lemma each_valueItems (h : Stable good) (hmodule : ∀ p m, good (p ++ [.key "module"]) (.string m))
    {path : Path} (p : Path) (i : Nat) {j : Nat} {xs : List Json} (hxs : EachItem good path j xs) :
    EachItem good path j (q.items p i xs) := by
  match xs with
  | [] => exact hxs
  | x :: xs =>
    rw [EachItem] at hxs
    rw [Qualifier.items, EachItem]
    exact ⟨h.each_value hmodule _ hxs.1, h.each_valueItems hmodule p (i + 1) hxs.2⟩
end

end Qualifying

/-! ### Dropping repeated items -/

lemma each_replaceChild (h : Stable good) (hv : v.Each good path) {seg : Segment}
    (hw : w.Each good (path ++ [seg])) : (v.replaceChild seg w).Each good path := by
  cases v with
  | object fs =>
    cases seg with
    | key k => exact h.each_set hv k hw
    | index i => exact hv
  | array xs =>
    cases seg with
    | key k => exact hv
    | index i =>
      refine h.each_array hv fun x hx => ?_
      rcases List.mem_or_eq_of_mem_set hx with hx | rfl
      · exact (h.each_array_iff.mp hv).2 x hx
      · exact h.move_item hw 0
  | _ => exact hv

lemma each_modify? (h : Stable good) {f : Json → Json} {p : Path} (hv : v.Each good path)
    (hf : ∀ u, u.Each good (path ++ p) → (f u).Each good (path ++ p))
    (hw : p.modify? f v = some w) :
    w.Each good path := by
  induction p generalizing v w path with
  | nil =>
    cases hw
    simpa using hf v (by simpa using hv)
  | cons seg p ih =>
    obtain ⟨below, hbelow, hw⟩ := Option.bind_eq_some_iff.mp hw
    obtain ⟨changed, hchanged, hw⟩ := Option.bind_eq_some_iff.mp hw
    cases hw
    exact h.each_replaceChild hv (ih (hv.child? hbelow) (by simpa using hf) hchanged)

lemma mem_of_mem_distinctItems {xs : List Json} {x : Json}
    (hx : x ∈ distinctItems xs) : x ∈ xs := by
  have hloop : ∀ xs kept : List Json,
      x ∈ xs.foldl (fun kept y => if kept.any (same · y) then kept else kept ++ [y]) kept →
        x ∈ kept ∨ x ∈ xs := by
    intro xs
    induction xs with
    | nil => exact fun kept hx => .inl hx
    | cons y xs ih =>
      intro kept hx
      rw [List.foldl_cons] at hx
      rcases ih _ hx with hx | hx
      · split_ifs at hx
        · exact .inl hx
        · rcases List.mem_append.mp hx with hx | hx
          · exact .inl hx
          · exact .inr (List.mem_singleton.mp hx ▸ List.mem_cons_self)
      · exact .inr (List.mem_cons_of_mem y hx)
  exact (hloop xs [] hx).resolve_left (by simp)

lemma each_dropRepeatedAt (h : Stable good) (p : Path) (hv : v.Each good path) :
    (v.dropRepeatedAt p).Each good path := by
  unfold dropRepeatedAt
  cases hw : Path.modify? _ p v with
  | none => exact hv
  | some w =>
    refine h.each_modify? hv (fun u hu => ?_) hw
    cases u with
    | array xs =>
      exact h.each_array hu fun x hx => (h.each_array_iff.mp hu).2 x (mem_of_mem_distinctItems hx)
    | _ => exact hu

end Json.Stable

/-! ### Composing -/

/-- A statement that survives the composition of functions whose properties stand at a path:
it minds neither modules added to addresses, nor the properties as a whole, nor what
extensions contribute. -/
structure Schema.Composable (schema : Schema) (good : Path → Json → Prop) (path : Path) : Prop
    extends Json.Stable good where
  module : ∀ p m, good (p ++ [.key "module"]) (.string m)
  properties : ∀ v, good path v
  middleware : ∀ id, (schema.middlewareInjection id).2.Each good path
  layer : ∀ id, (schema.layerInjection id).2.Each good path

namespace Composer

variable {c : Composer} {good : Path → Json → Prop} {path : Path} {id : ResourceId}

lemma each_qualified (h : c.schema.Composable good path) {family : Family}
    (hfamily : family.properties.Each good path) : (family.qualified c.schema).Each good path :=
  h.toStable.each_value h.module [] hfamily

lemma each_injected (h : c.schema.Composable good path) {injections : List Injection}
    (hinjections : ∀ injection ∈ injections, injection.2.Each good path) {p next : Properties}
    (hp : p.value.Each good path)
    (hnext : injections.foldlM (Properties.inject c.schema id) p = .ok next) :
    next.value.Each good path := by
  refine foldlM_invariant (fun p => p.value.Each good path) hp ?_ hnext
  intro before injection after hmem hbefore hafter
  obtain ⟨changes, hmerge, -⟩ := Properties.inject_eq_ok hafter
  exact h.toStable.each_merge hbefore (hinjections injection hmem) hmerge

lemma each_prepared (h : c.schema.Composable good path) {type : String} {family : Family}
    (hfamily : family.properties.Each good path) {prepared : Json}
    (hprepared : c.prepare id type family = .ok prepared) : prepared.Each good path := by
  obtain ⟨injected, hinjected, rfl⟩ := prepare_eq_ok hprepared
  refine h.toStable.each_dropRepeatedAt _ (h.toStable.each_value h.module [] ?_)
  refine each_injected h (fun injection hmem => ?_) hfamily hinjected
  obtain ⟨extension, -, hmem⟩ := List.mem_flatMap.mp hmem
  rcases List.mem_append.mp hmem with hmem | hmem
  · obtain ⟨contribution, -, rfl⟩ := List.mem_map.mp hmem
    exact h.middleware _
  · obtain ⟨contribution, -, rfl⟩ := List.mem_map.mp hmem
    exact h.layer _

lemma each_addMiddlewares (h : c.schema.Composable good path)
    (hfamilies : ∀ family ∈ c.families.families, family.properties.Each good path) {index : Nat}
    {entries : List Json} {properties composed : Json} {codes : List CodeIdentity}
    (hproperties : properties.Each good path)
    (hcomposed : c.addMiddlewares id index entries properties = .ok (composed, codes)) :
    composed.Each good path := by
  induction entries generalizing index properties codes with
  | nil =>
    cases hcomposed
    exact hproperties
  | cons entry entries ih =>
    obtain ⟨_, family, _, _, merged, changes, -, hfamily, -, hmerge, hrest, -⟩ :=
      addMiddlewares_cons_eq_ok hcomposed
    refine ih (h.toStable.each_merge hproperties ?_ hmerge) hrest
    have hqualified := each_qualified h (hfamilies family (List.mem_of_find?_eq_some hfamily))
    cases hvalue : family.qualified c.schema with
    | object fs =>
      rw [hvalue] at hqualified
      refine Json.each_object_iff.mpr ⟨h.properties _, fun field hfield => ?_⟩
      exact (Json.each_object_iff.mp hqualified).2 field ((Fields.erase_sublist fs _).subset hfield)
    | _ => rwa [hvalue] at hqualified

/-- What holds throughout the properties of all families holds throughout those of a
composed function. -/
theorem each_composed (h : c.schema.Composable good path)
    (hfamilies : ∀ family ∈ c.families.families, family.properties.Each good path)
    {composed : ComposedFunction} (hcomposed : c.compose id = .ok composed) :
    ∃ family properties, c.families.get? id = some family ∧ properties.Each good path ∧
      composed.resource = family.resource.setField "Properties" properties := by
  obtain ⟨body, family, prepared, properties, -, hfamily, -, hprepared, hmiddlewares,
      hresource⟩ :=
    compose_eq_ok hcomposed
  refine ⟨family, _, hfamily, ?_, hresource⟩
  refine h.toStable.each_dropRepeatedAt _ (each_addMiddlewares h hfamilies ?_ hmiddlewares)
  exact each_prepared h (hfamilies family (List.mem_of_find?_eq_some hfamily)) hprepared

end Composer

end ModularTemplates
