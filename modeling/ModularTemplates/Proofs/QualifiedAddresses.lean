import Mathlib.Tactic.Lemma
import ModularTemplates.Proofs.AddedModules
import ModularTemplates.Proofs.Function.WellFormed
import ModularTemplates.Proofs.Qualification

/-!
# Qualification as adding modules

Qualification comes to an address on the way through the object around it, and an object can be an
address itself. All of this together is adding modules at the places of the addresses, in whatever
order. So a qualified value has all the modules that it should have and no others, and there is
nothing left to do for a second qualification.
-/

namespace ModularTemplates

/-! ### Something for some of the places -/

namespace Path

variable {α β : Type} {a b : α} {f : Path → Option α} {key : String} {p : Path}

/-- Something for the place itself and nothing below it. -/
def justHere (a : α) : Path → Option α
  | [] => some a
  | _ :: _ => none

/-- Something for each item of an array and nothing below the items. -/
def eachItem (f : Nat → α) : Path → Option α
  | [.index i] => some (f i)
  | _ => none

/-- What is for the places below one property, and nothing elsewhere. -/
def under (key : String) (f : Path → Option α) : Path → Option α
  | .key k :: p => if k = key then f p else none
  | _ => none

lemma justHere_eq_some_iff : p.justHere a = some b ↔ p = [] ∧ a = b := by
  cases p <;> simp [justHere]

lemma eachItem_eq_some_iff {f : Nat → α} :
    p.eachItem f = some b ↔ ∃ i, p = [.index i] ∧ f i = b := by
  unfold eachItem
  split <;> simp_all

lemma under_eq_some_iff : p.under key f = some b ↔ ∃ q, p = .key key :: q ∧ f q = some b := by
  unfold under
  split
  · simp [and_assoc, eq_comm]
  · simp_all

lemma map_justHere (g : α → β) (a : α) (p : Path) :
    (p.justHere a).map g = p.justHere (g a) := by
  cases p <;> rfl

lemma map_eachItem (g : α → β) (f : Nat → α) (p : Path) :
    (p.eachItem f).map g = p.eachItem fun i => g (f i) := by
  unfold eachItem
  split <;> rfl

lemma map_under (g : α → β) (key : String) (f : Path → Option α) (p : Path) :
    (p.under key f).map g = p.under key fun q => (f q).map g := by
  unfold under
  split
  · rw [apply_ite (Option.map g), Option.map_none]
  · rfl

end Path

/-! ### Places of addresses -/

/-- The places of addresses, and from whose contributor the module of an address is taken: from that
of the object with the reference keyword around the address, and for an entry of a middleware list
from that of the entry. -/
inductive Schema.AddressPlace (schema : Schema) : Path → Path → Prop
  | reference (around : Path) :
      AddressPlace schema (around ++ [.key schema.referenceKeyword]) around
  | entry (above : Path) (i : Nat) : AddressPlace schema
      (above ++ [.key schema.functionKeyword, .key schema.middlewaresField, .index i])
      (above ++ [.key schema.functionKeyword, .key schema.middlewaresField, .index i])

namespace Schema

variable {schema : Schema} {place around : Path}

/-- The addresses under the two keywords of an object. For the place of one it says from whose
contributor the module is taken. -/
def ownAddress? (schema : Schema) (p : Path) : Option Path :=
  (p.under schema.referenceKeyword (Path.justHere [])).or
    (p.under schema.functionKeyword (Path.under schema.middlewaresField (Path.eachItem fun i =>
      [.key schema.functionKeyword, .key schema.middlewaresField, .index i])))

/-- The addresses in a value, under the keywords of all its objects. The inner objects come
first. -/
def address? (schema : Schema) : Path → Option Path
  | [] => none
  | seg :: p => ((address? schema p).map (seg :: ·)).or (schema.ownAddress? (seg :: p))

lemma AddressPlace.cons (seg : Segment) (h : schema.AddressPlace place around) :
    schema.AddressPlace (seg :: place) (seg :: around) := by
  cases h with
  | reference => exact .reference (seg :: around)
  | entry above i => exact .entry (seg :: above) i

lemma addressPlace_of_ownAddress? (h : schema.ownAddress? place = some around) :
    schema.AddressPlace place around := by
  rcases Option.or_eq_some_iff.mp h with hreference | ⟨-, hfunction⟩
  · obtain ⟨p, rfl, hend⟩ := Path.under_eq_some_iff.mp hreference
    obtain ⟨rfl, rfl⟩ := Path.justHere_eq_some_iff.mp hend
    exact .reference []
  · obtain ⟨p, rfl, hlist⟩ := Path.under_eq_some_iff.mp hfunction
    obtain ⟨p', rfl, hentry⟩ := Path.under_eq_some_iff.mp hlist
    obtain ⟨i, rfl, rfl⟩ := Path.eachItem_eq_some_iff.mp hentry
    exact .entry [] i

/-- A place is that of an address on behalf of one place only. -/
lemma AddressPlace.unique {other : Path} (h : schema.AddressPlace place around)
    (h' : schema.AddressPlace place other) : around = other := by
  -- an address under the reference keyword has a key at its end, and an entry has an index
  cases h with
  | reference =>
    generalize hplace : around ++ [.key schema.referenceKeyword] = place at h'
    cases h' with
    | reference => exact List.append_inj_left' hplace rfl
    | entry above i =>
      have hlast := congrArg List.getLast? hplace
      simp at hlast
  | entry above i =>
    generalize hplace : above ++
      [Segment.key schema.functionKeyword, .key schema.middlewaresField, .index i] = place at h'
    cases h' with
    | reference =>
      have hlast := congrArg List.getLast? hplace
      simp at hlast
    | entry => rfl

lemma addressPlace_of_address? (h : schema.address? place = some around) :
    schema.AddressPlace place around := by
  induction place generalizing around with
  | nil => cases h
  | cons seg p ih =>
    rcases Option.or_eq_some_iff.mp h with hinner | ⟨-, hown⟩
    · obtain ⟨below, hbelow, rfl⟩ := Option.map_eq_some_iff.mp hinner
      exact (ih hbelow).cons seg
    · exact addressPlace_of_ownAddress? hown

lemma isSome_address?_append (p : Path) {q : Path} (h : (schema.ownAddress? q).isSome) :
    (schema.address? (p ++ q)).isSome := by
  induction p with
  | nil =>
    cases q with
    | nil => cases h
    | cons seg q => rw [List.nil_append, address?, Option.isSome_or, h, Bool.or_true]
  | cons seg p ih =>
    rw [List.cons_append, address?, Option.isSome_or, Option.isSome_map, ih, Bool.true_or]

lemma isSome_address? (h : schema.AddressPlace place around) : (schema.address? place).isSome := by
  cases h with
  | reference =>
    exact isSome_address?_append around (by simp [ownAddress?, Path.under, Path.justHere])
  | entry above i =>
    exact isSome_address?_append above (by simp [ownAddress?, Path.under, Path.eachItem])

/-- These are the places of addresses. -/
theorem address?_eq_some_iff :
    schema.address? place = some around ↔ schema.AddressPlace place around := by
  refine ⟨addressPlace_of_address?, fun h => ?_⟩
  obtain ⟨other, hother⟩ := Option.isSome_iff_exists.mp (isSome_address? h)
  rw [hother, h.unique (addressPlace_of_address? hother)]

end Schema

namespace Qualifier

variable {q : Qualifier}

/-! ### Qualification adds modules -/

/-- The modules of the addresses in a value that stands at a path. -/
def modulesBelow (q : Qualifier) (path : Path) (p : Path) : Option String :=
  (q.schema.address? p).map fun around => q.moduleAt (path ++ around)

/-- The modules of the addresses under the two keywords of an object that stands at a path. -/
def ownModules (q : Qualifier) (path : Path) (p : Path) : Option String :=
  (q.schema.ownAddress? p).map fun around => q.moduleAt (path ++ around)

/-- The modules of the addresses in the parts of a value that stands at a path. -/
def partModules (q : Qualifier) (path : Path) : Path → Option String
  | [] => none
  | seg :: p => q.modulesBelow (path ++ [seg]) p

lemma modulesBelow_eq (q : Qualifier) (path p : Path) :
    q.modulesBelow path p = (q.partModules path p).or (q.ownModules path p) := by
  cases p with
  | nil => rfl
  | cons seg p =>
    simp only [modulesBelow, partModules, ownModules, Schema.address?, Option.map_or,
      Option.map_map, Function.comp_def, List.append_assoc, List.singleton_append]

lemma ownModules_index (q : Qualifier) (path : Path) (i : Nat) (p : Path) :
    q.ownModules path (.index i :: p) = none := by
  simp [ownModules, Schema.ownAddress?, Path.under]

/-- The modules under the two keywords, one keyword after the other. -/
lemma ownModules_eq (q : Qualifier) (path p : Path) :
    q.ownModules path p =
      (p.under q.schema.referenceKeyword (Path.justHere (q.moduleAt path))).or
        (p.under q.schema.functionKeyword
          (Path.under q.schema.middlewaresField (Path.eachItem fun i => q.moduleAt
          (path ++ [.key q.schema.functionKeyword] ++ [.key q.schema.middlewaresField] ++
            [.index i])))) := by
  simp only [ownModules, Schema.ownAddress?, Option.map_or, Path.map_under, Path.map_justHere,
    Path.map_eachItem, List.append_nil, List.append_assoc, List.cons_append, List.nil_append]

lemma address_eq_addModules (q : Qualifier) (path : Path) (v : Json) :
    q.address path v = v.addModules (Path.justHere (q.moduleAt path)) := by
  cases v with
  | object fs =>
    rw [Json.addModules, Json.addModulesFields_eq_self fun _ _ _ => rfl, address, Path.justHere,
      Fields.addModule]
    split_ifs <;> rfl
  | array xs =>
    rw [Json.addModules, Json.addModulesItems_eq_self fun _ _ => rfl]
    rfl
  | _ => rfl

lemma entries_eq_addModules (q : Qualifier) (path : Path) (v : Json) :
    q.entries path v = v.addModules (Path.eachItem fun i => q.moduleAt (path ++ [.index i])) := by
  cases v with
  | object fs =>
    rw [Json.addModules, Json.addModulesFields_eq_self fun _ _ _ => rfl]
    rfl
  | array xs =>
    have hitem : ∀ i : Nat, Path.justHere (q.moduleAt (path ++ [.index i])) = fun p : Path =>
        Path.eachItem (fun i => q.moduleAt (path ++ [.index i])) (.index i :: p) := by
      intro i
      funext p
      cases p <;> rfl
    rw [entries, Json.addModules, Json.array.injEq]
    refine List.ext_getElem? fun i => ?_
    rw [List.getElem?_mapIdx, Json.getElem?_addModulesItems, Nat.zero_add]
    simp only [address_eq_addModules, hitem]
  | _ => rfl

/-- Modules are added under one property by changing the value of this property. -/
lemma onField_eq_addModulesFields {fs : Fields Json} (hfs : fs.Distinct) (key : String)
    {f : Json → Json} {modules : Path → Option String}
    (hf : ∀ v, fs.get? key = some v → f v = v.addModules modules) :
    onField fs key f = Json.addModulesFields (Path.under key modules) fs := by
  induction fs with
  | nil => rfl
  | cons field fs ih =>
    obtain ⟨k, v⟩ := field
    rw [Fields.Distinct, Fields.keys_cons, List.nodup_cons] at hfs
    by_cases hk : k = key
    · subst hk
      -- no other field has this name
      have hrest : Json.addModulesFields (Path.under k modules) fs = fs :=
        Json.addModulesFields_eq_self fun other hother p =>
          if_neg (ne_of_mem_of_not_mem hother hfs.1)
      rw [onField, Fields.get?_cons_self, Json.addModulesFields, hrest]
      simp only [Fields.set, if_true, Path.under, hf v (Fields.get?_cons_self k v fs)]
    · have hv : v.addModules (fun p => Path.under key modules (.key k :: p)) = v := by
        simp only [Path.under, if_neg hk, Json.addModules_none]
      rw [Fields.get?_cons_of_ne hk] at hf
      rw [Json.addModulesFields, hv, ← ih hfs.2 hf, onField, onField, Fields.get?_cons_of_ne hk]
      cases Fields.get? fs key with
      | none => rfl
      | some w => simp only [Fields.set, if_neg hk]

lemma middlewares_eq_addModules (q : Qualifier) (path : Path) {v : Json} (hv : v.WellFormed) :
    q.middlewares path v = v.addModules (Path.under q.schema.middlewaresField
      (Path.eachItem fun i => q.moduleAt
        (path ++ [.key q.schema.middlewaresField] ++ [.index i]))) := by
  cases v with
  | object fs =>
    rw [middlewares, onField_eq_addModulesFields hv.distinct _ fun w _ =>
      entries_eq_addModules q _ w]
    rfl
  | array xs =>
    rw [Json.addModules, Json.addModulesItems_eq_self fun _ _ => rfl]
    rfl
  | _ => rfl

/-- The addresses under the two keywords of an object. -/
lemma object_eq_addModulesFields (q : Qualifier) (path : Path) {fs : Fields Json}
    (hfs : (Json.object fs).WellFormed) :
    q.object path fs = Json.addModulesFields (q.ownModules path) fs := by
  have hreference : onField fs q.schema.referenceKeyword (q.address path) = _ :=
    onField_eq_addModulesFields hfs.distinct _ fun v _ => address_eq_addModules q path v
  have hwf : (Json.object (onField fs q.schema.referenceKeyword (q.address path))).WellFormed :=
    wellFormed_onField hfs _ fun _ => wellFormed_address
  rw [object, onField_eq_addModulesFields hwf.distinct _ fun v hv =>
    middlewares_eq_addModules q _ (hwf.get? hv), hreference, Json.addModulesFields_addModulesFields]
  exact Json.addModulesFields_congr fun key _ p => (ownModules_eq q path (.key key :: p)).symm

mutual
/-- Qualifying a value is adding modules at the places of the addresses in it. -/
theorem value_eq_addModules (q : Qualifier) (path : Path) (v : Json) (hv : v.WellFormed) :
    q.value path v = v.addModules (q.modulesBelow path) := by
  match v with
  | .object fs =>
    have hwf : (Json.object (q.fields path fs)).WellFormed :=
      wellFormed_fields hv fun key w hw => wellFormed_value q _ w (hv.get? hw)
    have hfs : ∀ field ∈ fs, field.2.WellFormed := by
      rw [Json.WellFormed, Json.wellFormedFields_iff] at hv
      exact hv.2
    -- the addresses in the parts, then those of the object itself
    rw [value, object_eq_addModulesFields q path hwf, fields_eq_addModulesFields q path fs hfs,
      Json.addModulesFields_addModulesFields, Json.addModules]
    simp only [← modulesBelow_eq]
    rfl
  | .array xs =>
    rw [Json.wellFormed_array_iff] at hv
    rw [value, items_eq_addModulesItems q path 0 xs hv, Json.addModules]
    congr 1
    refine Json.addModulesItems_congr (fun i p => ?_) 0 xs
    rw [modulesBelow_eq, ownModules_index, Option.or_none]
  | .null | .bool _ | .number _ | .string _ => rfl

theorem fields_eq_addModulesFields (q : Qualifier) (path : Path) (fs : List (String × Json))
    (hfs : ∀ field ∈ fs, field.2.WellFormed) :
    q.fields path fs = Json.addModulesFields (q.partModules path) fs := by
  match fs with
  | [] => rfl
  | (k, v) :: fs =>
    rw [List.forall_mem_cons] at hfs
    rw [fields, value_eq_addModules q _ v hfs.1, fields_eq_addModulesFields q path fs hfs.2,
      Json.addModulesFields]
    rfl

theorem items_eq_addModulesItems (q : Qualifier) (path : Path) (i : Nat) (xs : List Json)
    (hxs : ∀ x ∈ xs, x.WellFormed) :
    q.items path i xs = Json.addModulesItems (q.partModules path) i xs := by
  match xs with
  | [] => rfl
  | x :: xs =>
    rw [List.forall_mem_cons] at hxs
    rw [items, value_eq_addModules q _ x hxs.1, items_eq_addModulesItems q path (i + 1) xs hxs.2,
      Json.addModulesItems]
    rfl
end

/-- An address under the keywords of an object that is also one in a part of it gets the same
module from both. -/
lemma partModules_eq_of_ownModules {path p : Path} {own inner : String}
    (hown : q.ownModules path p = some own) (hinner : q.partModules path p = some inner) :
    own = inner := by
  cases p with
  | nil => cases hinner
  | cons seg p =>
    obtain ⟨around, haround, rfl⟩ := Option.map_eq_some_iff.mp hown
    obtain ⟨below, hbelow, rfl⟩ := Option.map_eq_some_iff.mp hinner
    have hplace := (Schema.addressPlace_of_address? hbelow).cons seg
    rw [(Schema.addressPlace_of_ownAddress? haround).unique hplace, List.append_assoc,
      List.singleton_append]

/-- It makes no difference whether an object is qualified before its parts or behind them. -/
theorem value_object_first (q : Qualifier) (path : Path) {fs : Fields Json}
    (hfs : (Json.object fs).WellFormed) :
    q.value path (.object fs) = .object (q.fields path (q.object path fs)) := by
  have hobject : ∀ field ∈ q.object path fs, field.2.WellFormed := by
    have hwf : (Json.object (q.object path fs)).WellFormed := wellFormed_object hfs
    rw [Json.WellFormed, Json.wellFormedFields_iff] at hwf
    exact hwf.2
  rw [value_eq_addModules q path _ hfs, fields_eq_addModulesFields q path _ hobject,
    object_eq_addModulesFields q path hfs, Json.addModulesFields_addModulesFields, Json.addModules]
  refine congrArg Json.object (Json.addModulesFields_congr fun key _ p => ?_)
  rw [modulesBelow_eq]
  cases hown : q.ownModules path (.key key :: p) with
  | none => rw [Option.or_none, Option.none_or]
  | some own =>
    cases hinner : q.partModules path (.key key :: p) with
    | none => rfl
    | some inner => rw [Option.some_or, Option.some_or, partModules_eq_of_ownModules hown hinner]

end Qualifier

/-! ### Qualified values -/

/-- The second value is the first one with all its addresses qualified. -/
structure Qualification (schema : Schema) (provenance : Provenance) (v v' : Json) : Prop where
  /-- an address that names a resource names a module -/
  complete : ∀ place around (fs : Fields Json), schema.AddressPlace place around →
    place.lookup v' = some (.object fs) → fs.has "resource" = true → fs.has "module" = true
  /-- without the modules of the places that had none it is the first value, in the same key
  order -/
  minimal : v'.removeModules v.lacksModule = v
  /-- a module that was not there before is in an address with a resource, and it is that of who
  supplied the object around the reference, or the entry -/
  sourced : ∀ place w, Path.lookup (place ++ [.key "module"]) v' = some w →
    Path.lookup (place ++ [.key "module"]) v = none →
    Path.lookup (place ++ [.key "resource"]) v ≠ none ∧
      ∃ around, schema.AddressPlace place around ∧
      w = .string (provenance.source around).owner.module

lemma qualifyReferences_eq_addModules (schema : Schema) (provenance : Provenance) {v : Json}
    (hv : v.WellFormed) :
    qualifyReferences schema provenance v =
      v.addModules fun p => (schema.address? p).map fun around =>
        (provenance.source around).owner.module :=
  Qualifier.value_eq_addModules ⟨schema, provenance⟩ [] v hv

lemma qualification_qualifyReferences (schema : Schema) (provenance : Provenance) {v : Json}
    (hv : v.WellFormed) :
    Qualification schema provenance v (qualifyReferences schema provenance v) := by
  rw [qualifyReferences_eq_addModules schema provenance hv]
  refine ⟨fun place around fs hplace hlookup hresource => ?_, ?_,
    fun place w hlookup hnone => ?_⟩
  · have hmodule : (schema.address? place).map _ = some _ :=
      congrArg (Option.map fun p => (provenance.source p).owner.module)
        (Schema.address?_eq_some_iff.mpr hplace)
    exact Json.has_module_of_lookup hmodule hlookup hresource
  · exact Json.removeModules_addModules _ v hv fun _ => rfl
  · obtain ⟨hresource, name, hname, rfl⟩ := Json.module_of_lookup hlookup hnone
    obtain ⟨around, haround, rfl⟩ := Option.map_eq_some_iff.mp hname
    exact ⟨hresource, around, Schema.address?_eq_some_iff.mp haround, rfl⟩

/-- Qualification is complete and minimal, takes the modules from the contributors, and changes
nothing when it is done again, whatever is then recorded. -/
theorem qualifyReferences_complete_minimal_idempotent (schema : Schema) (provenance : Provenance)
    {v : Json} (hv : v.WellFormed) :
    Qualification schema provenance v (qualifyReferences schema provenance v) ∧
      ∀ other, qualifyReferences schema other (qualifyReferences schema provenance v) =
        qualifyReferences schema provenance v := by
  refine ⟨qualification_qualifyReferences schema provenance hv, fun other => ?_⟩
  have hqualified : (qualifyReferences schema provenance v).WellFormed :=
    Qualifier.wellFormed_value _ [] v hv
  rw [qualifyReferences_eq_addModules schema other hqualified,
    qualifyReferences_eq_addModules schema provenance hv, Json.addModules_addModules]
  -- both ask for the same places, and what the first one added counts
  congr 1
  funext p
  cases schema.address? p <;> rfl

/-- A reference inside of a middleware entry, and one that has a module. -/
theorem qualifyReferences_complete_minimal_idempotent_nested :
    let v : Json := .object
      [("Layers", .array [.single "Ref" (.single "resource" (.string "base")),
        .single "Ref" (.object [("module", .string "other"), ("resource", .string "extra")])]),
      ("CodeUri", .single "Function" (.single "middlewares" (.array
        [.object [("resource", .string "auth"),
          ("key", .single "Ref" (.single "resource" (.string "secret")))]])))]
    let provenance : Provenance := .fields ⟨"base", "api"⟩
      [("CodeUri", .fields ⟨"base", "api"⟩ [("Function", .fields ⟨"base", "api"⟩
        [("middlewares", .items ⟨"base", "api"⟩ [some (.leaf ⟨"app", "first"⟩)])])])]
    let v' : Json := .object
      [("Layers", .array
        [.single "Ref" (.object [("resource", .string "base"), ("module", .string "base")]),
        .single "Ref" (.object [("module", .string "other"), ("resource", .string "extra")])]),
      ("CodeUri", .single "Function" (.single "middlewares" (.array
        [.object [("resource", .string "auth"),
          ("key",
            .single "Ref" (.object [("resource", .string "secret"), ("module", .string "app")])),
          ("module", .string "app")]])))]
    v.WellFormed ∧ qualifyReferences Schema.standard provenance v = v' ∧
      Qualification Schema.standard provenance v v' ∧
      ∀ other, qualifyReferences Schema.standard other v' = v' := by
  intro v provenance v'
  have hv : v.WellFormed := by decide
  have hv' : qualifyReferences Schema.standard provenance v = v' := by decide +kernel
  have hqualified := qualifyReferences_complete_minimal_idempotent Schema.standard provenance hv
  rw [hv'] at hqualified
  exact ⟨hv, hv', hqualified⟩

end ModularTemplates
