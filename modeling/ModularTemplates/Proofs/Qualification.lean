import Mathlib.Tactic.Lemma
import ModularTemplates.Proofs.Json
import ModularTemplates.Qualification

/-!
# Qualifying in place

Qualification goes through all objects of a value, and each of them also changes addresses
further inside. So the value at a path of the result is the qualified value at the path, up to
what the objects around it do to it. These add modules to addresses and nothing else: what was
there before is still there.
-/

namespace ModularTemplates

namespace Qualifier

variable {q : Qualifier} {path : Path} {v w : Json} {seg : Segment} {s : String}

/-- What the objects around a value may do to it. -/
inductive Outer (q : Qualifier) : (Json → Json) → Prop where
  | id : Outer q id
  | address (path : Path) : Outer q (q.address path)
  | entries (path : Path) : Outer q (q.entries path)
  | middlewares (path : Path) : Outer q (q.middlewares path)
  | comp {f g : Json → Json} (hf : Outer q f) (hg : Outer q g) : Outer q (f ∘ g)

/-! ### Strings -/

lemma Outer.eq_string_iff {g : Json → Json} (h : Outer q g) :
    g v = .string s ↔ v = .string s := by
  induction h generalizing v with
  | id => rfl
  | address path =>
    cases v with
    | object fs =>
      simp only [Qualifier.address]
      split_ifs <;> simp
    | _ => rfl
  | entries path => cases v <;> simp [Qualifier.entries]
  | middlewares path => cases v <;> simp [Qualifier.middlewares]
  | comp hf hg ihf ihg => rw [Function.comp_apply, ihf, ihg]

lemma value_eq_string_iff : q.value path v = .string s ↔ v = .string s := by
  cases v <;> simp [value]

/-! ### One step below -/

lemma get?_onField (fs : Fields Json) (key other : String) (f : Json → Json) :
    (onField fs key f).get? other =
      if other = key then (fs.get? other).map f else fs.get? other := by
  unfold onField
  cases hkey : fs.get? key with
  | none =>
    split_ifs with h
    · rw [h, hkey, Option.map_none]
    · rfl
  | some v =>
    rw [Fields.get?_set]
    split_ifs with h
    · rw [h, hkey, Option.map_some]
    · rfl

lemma get?_fields (path : Path) (fs : List (String × Json)) (k : String) :
    Fields.get? (q.fields path fs) k = (Fields.get? fs k).map (q.value (path ++ [.key k])) := by
  induction fs with
  | nil => rfl
  | cons field fs ih =>
    obtain ⟨k', v⟩ := field
    rw [fields, Fields.get?_cons, Fields.get?_cons, ih]
    split_ifs with h
    · rw [h, Option.map_some]
    · rfl

lemma getElem?_items (path : Path) (i j : Nat) (xs : List Json) :
    (q.items path i xs)[j]? = xs[j]?.map (q.value (path ++ [.index (i + j)])) := by
  induction xs generalizing i j with
  | nil => rfl
  | cons x xs ih =>
    rw [items]
    cases j with
    | zero => simp
    | succ j => simp [ih, Nat.add_assoc, Nat.add_comm 1 j]

lemma child?_address (h : v.child? seg = some w) : (q.address path v).child? seg = some w := by
  cases v with
  | object fs =>
    cases seg with
    | index i => simp [Json.child?] at h
    | key k =>
      simp only [address]
      split_ifs with hmodule
      · exact h
      · have hne : k ≠ "module" := by
          rintro rfl
          simp only [Json.child?] at h
          simp [Fields.has, h] at hmodule
        simpa [Json.child?, Fields.get?_set_of_ne hne] using h
  | _ => exact h

/-- What is done to a value is done to its parts. -/
lemma Outer.child? {g : Json → Json} (hg : Outer q g) (h : v.child? seg = some w) :
    ∃ g', Outer q g' ∧ (g v).child? seg = some (g' w) := by
  induction hg generalizing v w with
  | id => exact ⟨_, .id, h⟩
  | address path => exact ⟨_, .id, child?_address h⟩
  | entries path =>
    cases v with
    | array xs =>
      cases seg with
      | key k => simp [Json.child?] at h
      | index i =>
        refine ⟨_, .address (path ++ [.index i]), ?_⟩
        simp only [Json.child?] at h
        simp [Qualifier.entries, Json.child?, h]
    | _ => exact ⟨_, .id, h⟩
  | middlewares path =>
    cases v with
    | object fs =>
      cases seg with
      | index i => simp [Json.child?] at h
      | key k =>
        simp only [Json.child?] at h
        simp only [Qualifier.middlewares, Json.child?, get?_onField, h, Option.map_some]
        split_ifs
        · exact ⟨_, .entries _, rfl⟩
        · exact ⟨_, .id, rfl⟩
    | _ => exact ⟨_, .id, h⟩
  | comp hf hg ihf ihg =>
    obtain ⟨g', hg', hchild⟩ := ihg h
    obtain ⟨f', hf', hchild'⟩ := ihf hchild
    exact ⟨_, .comp hf' hg', hchild'⟩

lemma Outer.lookup {g : Json → Json} (hg : Outer q g) {p : Path} (h : p.lookup v = some w) :
    ∃ g', Outer q g' ∧ p.lookup (g v) = some (g' w) := by
  induction p generalizing g v with
  | nil =>
    cases h
    exact ⟨g, hg, rfl⟩
  | cons seg p ih =>
    obtain ⟨u, hu, hw⟩ := Option.bind_eq_some_iff.mp h
    obtain ⟨f, hf, hchild⟩ := hg.child? hu
    rw [Path.lookup_cons, hchild, Option.bind_some]
    exact ih hf hw

/-- The parts of a qualified value are qualified parts. Under the reference keyword there
is an address. -/
lemma child?_value (h : v.child? seg = some w) :
    ∃ g, Outer q g ∧ (q.value path v).child? seg = some (g (q.value (path ++ [seg]) w)) ∧
      (seg = .key q.schema.referenceKeyword → ∃ f, Outer q f ∧ g = f ∘ q.address path) := by
  rcases Json.exists_of_child? h with ⟨fs, k, rfl, rfl, hk⟩ | ⟨xs, i, rfl, rfl, hi⟩
  · simp only [value, object, Json.child?, get?_onField, get?_fields, hk, Option.map_some,
      Segment.key.injEq]
    split_ifs with hfunction hreference hreference
    · exact ⟨_, .comp (.middlewares _) (.address path), rfl,
        fun _ => ⟨_, .middlewares _, rfl⟩⟩
    · exact ⟨_, .middlewares _, rfl, fun heq => absurd heq hreference⟩
    · exact ⟨_, .address path, rfl, fun _ => ⟨_, .id, rfl⟩⟩
    · exact ⟨_, .id, rfl, fun heq => absurd heq hreference⟩
  · refine ⟨_, .id, ?_, by simp⟩
    simp [value, Json.child?, getElem?_items, hi]

/-- What stands at a path is qualified in place. -/
theorem lookup_value {p : Path} (h : p.lookup v = some w) :
    ∃ g, Outer q g ∧ p.lookup (q.value path v) = some (g (q.value (path ++ p) w)) := by
  induction p generalizing path v with
  | nil =>
    cases h
    refine ⟨_, .id, ?_⟩
    rw [List.append_nil]
    rfl
  | cons seg p ih =>
    obtain ⟨u, hu, hw⟩ := Option.bind_eq_some_iff.mp h
    obtain ⟨g, hg, hchild, -⟩ := @child?_value q path _ _ _ hu
    obtain ⟨f, hf, hlookup⟩ := @ih (path ++ [seg]) _ hw
    obtain ⟨g', hg', hlookup'⟩ := hg.lookup hlookup
    refine ⟨g' ∘ f, .comp hg' hf, ?_⟩
    rw [Path.lookup_cons, hchild, Option.bind_some, hlookup', List.append_assoc]
    rfl

/-! ### References -/

lemma child?_value_eq_none (h : v.child? seg = none) : (q.value path v).child? seg = none := by
  cases v with
  | object fs =>
    cases seg with
    | index i => rfl
    | key k =>
      simp only [Json.child?] at h
      simp only [value, object, Json.child?, get?_onField, get?_fields, h,
        Option.map_none, ite_self]
  | array xs =>
    cases seg with
    | key k => rfl
    | index i =>
      simp only [Json.child?] at h
      simp [value, Json.child?, getElem?_items, h]
  | _ => rfl

lemma child?_module_address (hresource : v.child? (.key "resource") = some w)
    (hmodule : v.child? (.key "module") = none) :
    (q.address path v).child? (.key "module") = some (.string (q.moduleAt path)) := by
  cases v with
  | object fs =>
    simp only [Json.child?] at hresource hmodule
    simp [address, Fields.has, hresource, hmodule, Json.child?]
  | _ => simp [Json.child?] at hresource

/-- An address keeps its resource. Its module is the one that it has, and otherwise it is added. -/
lemma child?_qualified_address {f : Json → Json} (hf : Outer q f) {a : Json} {r : String}
    (hr : a.child? (.key "resource") = some (.string r)) (p : Path) :
    (f (q.address p (q.value path a))).child? (.key "resource") = some (.string r) ∧
    ∀ module, (f (q.address p (q.value path a))).child? (.key "module") =
      some (.string module) ↔
      a.child? (.key "module") = some (.string module) ∨
      a.child? (.key "module") = none ∧ q.moduleAt p = module := by
  -- what an address has keeps its text
  have hkept : ∀ key b, a.child? (.key key) = some b →
      ∃ b', (∀ s, b' = .string s ↔ b = .string s) ∧
        (f (q.address p (q.value path a))).child? (.key key) = some b' := by
    intro key b hb
    obtain ⟨g, hg, hchild, -⟩ := @child?_value q path _ _ _ hb
    obtain ⟨f', hf', hchild'⟩ := hf.child? (child?_address hchild)
    refine ⟨_, fun s => ?_, hchild'⟩
    rw [hf'.eq_string_iff, hg.eq_string_iff, value_eq_string_iff]
  constructor
  · obtain ⟨b', hb', hchild⟩ := hkept "resource" _ hr
    rw [hchild, (hb' r).mpr rfl]
  · intro module
    cases hmodule : a.child? (.key "module") with
    | some b =>
      obtain ⟨b', hb', hchild⟩ := hkept "module" b hmodule
      simp [hchild, hb']
    | none =>
      obtain ⟨g, -, hresource, -⟩ := @child?_value q path _ _ _ hr
      have hadded : (q.address p (q.value path a)).child? (.key "module") = _ :=
        child?_module_address hresource (child?_value_eq_none hmodule)
      obtain ⟨f', hf', hchild⟩ := hf.child? hadded
      simp [hchild, hf'.eq_string_iff]

end Qualifier

/-- The place of a field of the address in a reference at a path. -/
def Schema.referencePath (schema : Schema) (path : Path) (field : String) : Path :=
  path ++ [.key schema.referenceKeyword, .key field]

/-- The address of a reference keeps its resource. Its module is the one that it has, and otherwise
the module that supplied the object with the reference keyword. -/
theorem lookup_referencePath_qualifyReferences {schema : Schema} {provenance : Provenance}
    {v : Json} {p : Path} {r : String}
    (h : (schema.referencePath p "resource").lookup v = some (.string r)) :
    (schema.referencePath p "resource").lookup (qualifyReferences schema provenance v) =
      some (.string r) ∧
    ∀ module,
      (schema.referencePath p "module").lookup (qualifyReferences schema provenance v) =
        some (.string module) ↔
      (schema.referencePath p "module").lookup v = some (.string module) ∨
      (schema.referencePath p "module").lookup v = none ∧
        (provenance.source p).owner.module = module := by
  simp only [Schema.referencePath, Path.lookup_append] at h ⊢
  obtain ⟨around, haround, h⟩ := Option.bind_eq_some_iff.mp h
  obtain ⟨a, ha, h⟩ := Option.bind_eq_some_iff.mp h
  obtain ⟨resource, hresource, h⟩ := Option.bind_eq_some_iff.mp h
  cases h
  let q : Qualifier := ⟨schema, provenance⟩
  obtain ⟨g, hg, hlookup⟩ := @Qualifier.lookup_value q [] _ _ _ haround
  obtain ⟨g₁, -, hchild, hreference⟩ := @Qualifier.child?_value q p _ _ _ ha
  obtain ⟨f, hf, rfl⟩ := hreference rfl
  obtain ⟨g₂, hg₂, hchild'⟩ := hg.child? hchild
  have haddress := @Qualifier.child?_qualified_address q (p ++ [.key schema.referenceKeyword]) _
    (hg₂.comp hf) _ _ hresource p
  have hend : ∀ x : Option Json, x.bind (Path.lookup []) = x := fun x => by cases x <;> rfl
  rw [qualifyReferences, hlookup, haround]
  simp only [Option.bind_some, Path.lookup_cons, List.nil_append, hchild', ha, hend]
  exact haddress

end ModularTemplates
