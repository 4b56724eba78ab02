import Mathlib.Tactic.Lemma
import ModularTemplates.Proofs.Function.Formula
import ModularTemplates.Proofs.Function.WellFormed

/-!
# The middleware list of a composed function

Under every schema, also one that uses a name twice, a composed function has the middleware list
that it was composed from. Repeated entries are dropped before the first middleware is merged, and
from then on the code property stays as it is. Every entry of the list names a resource, and its
code is that of the resource's family.
-/

namespace ModularTemplates

variable {schema : Schema} {v w : Json}

/-- Well-formed properties whose code property is an object. -/
structure Schema.Intact (schema : Schema) (properties : Json) : Prop where
  wellFormed : properties.WellFormed
  code : ∃ gs, properties.child? (.key schema.codeProperty) = some (.object gs)

namespace Schema.Intact

lemma exists_object (h : schema.Intact v) : ∃ fs, v = .object fs := by
  obtain ⟨gs, hgs⟩ := h.code
  exact Json.exists_object_of_child? hgs

lemma of_code? {family : Family} {code : CodeIdentity} (hfamily : family.properties.WellFormed)
    (h : family.code? schema.functionCodePath = some code) : schema.Intact family.properties := by
  refine ⟨hfamily, ?_⟩
  obtain ⟨name, hname, -⟩ := Option.bind_eq_some_iff.mp h
  obtain ⟨u, hu, hbelow⟩ := Option.bind_eq_some_iff.mp hname
  obtain ⟨w, hw, -⟩ := Option.bind_eq_some_iff.mp hbelow
  obtain ⟨gs, rfl⟩ := Json.exists_object_of_child? hw
  exact ⟨gs, hu⟩

/-! ### Contributions -/

/-- Nothing but an object can be merged into an object, unless a rule replaces it. -/
lemma exists_object_of_mergeAt {rules : Rules} {path : Path} {gs : Fields Json} {s : Json}
    (hs : (∃ ss, s = .object ss) ∨ rules.find? path = some .append)
    (h : (mergeAt rules path (.object gs) s).error = none) :
    ∃ fs, (mergeAt rules path (.object gs) s).target = .object fs := by
  cases hfind : rules.find? path with
  | none =>
    obtain ⟨ss, rfl⟩ := hs.resolve_right (by simp [hfind])
    rw [mergeAt, hfind]
    exact ⟨_, rfl⟩
  | some operation =>
    rw [mergeAt_of_rule hfind] at h ⊢
    cases operation with
    | append | prepend => simp [applyOperation, addItems, Json.itemsOrNull?] at h
    | replace =>
      obtain ⟨ss, rfl⟩ := hs.resolve_right (by simp [hfind])
      exact ⟨ss, rfl⟩
    | combine =>
      obtain ⟨ss, rfl⟩ := hs.resolve_right (by simp [hfind])
      exact ⟨_, by rw [applyOperation, combine]; rfl⟩

/-- A contribution adds to the middlewares, inside the code property, or to the layers. -/
lemma inject {function : ResourceId} {type : String} {extension : Extension} {injection : Injection}
    {p next : Properties} (hp : schema.Intact p.value)
    (hmem : injection ∈ schema.injections type extension)
    (h : p.inject schema function injection = .ok next) : schema.Intact next.value := by
  refine ⟨Properties.wellFormed_inject hp.wellFormed (wellFormed_injection hmem) h, ?_⟩
  obtain ⟨fs, hfs⟩ := hp.exists_object
  obtain ⟨gs, hgs⟩ := hp.code
  obtain ⟨key, s, hinjection, hs⟩ : ∃ key s, injection.2 = .single key s ∧
      (key = schema.codeProperty →
        (∃ ss, s = .object ss) ∨ schema.injectionRules.find? [.key key] = some .append) := by
    rcases List.mem_append.mp hmem with hmem | hmem
    · obtain ⟨contribution, -, rfl⟩ := List.mem_map.mp hmem
      exact ⟨_, _, rfl, fun _ => .inl ⟨_, rfl⟩⟩
    · obtain ⟨contribution, -, rfl⟩ := List.mem_map.mp hmem
      exact ⟨_, _, rfl, fun _ => .inr (find?_injectionRules_layersPath schema)⟩
  obtain ⟨changes, hmerge, -⟩ := Properties.inject_eq_ok h
  rw [Merged.result_eq_ok_iff, hfs, hinjection, merge, mergeAt_single rfl] at hmerge
  have herror := congrArg Merged.error hmerge
  have htarget : Json.object (Fields.set fs key _) = next.value := congrArg Merged.target hmerge
  rw [hfs] at hgs
  rw [← htarget, Json.child?, Fields.get?_set]
  split_ifs with hkey
  · subst hkey
    replace hgs : Fields.get? fs schema.codeProperty = some (.object gs) := hgs
    rw [hgs, Option.getD_some] at herror ⊢
    obtain ⟨gs', hgs'⟩ := exists_object_of_mergeAt (hs rfl) herror
    exact ⟨gs', congrArg some hgs'⟩
  · exact ⟨gs, hgs⟩

lemma foldlM_inject {function : ResourceId} {type : String} {extensions : List Extension}
    {p next : Properties} (hp : schema.Intact p.value)
    (h : (extensions.flatMap (schema.injections type)).foldlM
      (Properties.inject schema function) p = .ok next) :
    schema.Intact next.value := by
  refine foldlM_invariant (fun p => schema.Intact p.value) hp ?_ h
  intro before injection after hmem hbefore hafter
  obtain ⟨extension, -, hmem⟩ := List.mem_flatMap.mp hmem
  exact hbefore.inject hmem hafter

/-! ### Qualifying and dropping repeated items -/

lemma exists_object_outer {q : Qualifier} {g : Json → Json} (hg : Qualifier.Outer q g)
    (fs : Fields Json) :
    ∃ gs, g (.object fs) = .object gs := by
  induction hg generalizing fs with
  | id => exact ⟨fs, rfl⟩
  | address path =>
    rw [Qualifier.address]
    split_ifs
    · exact ⟨_, rfl⟩
    · exact ⟨_, rfl⟩
  | entries path => exact ⟨fs, rfl⟩
  | middlewares path => exact ⟨_, rfl⟩
  | comp hf hg ihf ihg =>
    obtain ⟨gs, hgs⟩ := ihg fs
    rw [Function.comp_apply, hgs]
    exact ihf gs

lemma qualifyReferences (h : schema.Intact v) (provenance : Provenance) :
    schema.Intact (qualifyReferences schema provenance v) := by
  refine ⟨Qualifier.wellFormed_value _ _ v h.wellFormed, ?_⟩
  obtain ⟨gs, hgs⟩ := h.code
  obtain ⟨g, hg, hchild, -⟩ := @Qualifier.child?_value ⟨schema, provenance⟩ [] _ _ _ hgs
  rw [ModularTemplates.qualifyReferences, hchild, Qualifier.value]
  obtain ⟨gs', hgs'⟩ := exists_object_outer hg _
  exact ⟨gs', congrArg some hgs'⟩

lemma dropRepeatedAt_middlewaresPath (h : schema.Intact v) :
    schema.Intact (v.dropRepeatedAt schema.middlewaresPath) := by
  refine ⟨h.wellFormed.dropRepeatedAt _, ?_⟩
  obtain ⟨gs, hgs⟩ := h.code
  unfold Json.dropRepeatedAt
  cases hmodify : Path.modify? _ schema.middlewaresPath v with
  | none => exact ⟨gs, hgs⟩
  | some v' =>
    obtain ⟨below, hbelow, hmodify⟩ := Option.bind_eq_some_iff.mp hmodify
    obtain ⟨changed, hchanged, hmodify⟩ := Option.bind_eq_some_iff.mp hmodify
    cases hmodify
    rw [hgs] at hbelow
    cases hbelow
    obtain ⟨_, -, hchanged⟩ := Option.bind_eq_some_iff.mp hchanged
    obtain ⟨inner, -, hchanged⟩ := Option.bind_eq_some_iff.mp hchanged
    cases hchanged
    exact ⟨Fields.set gs schema.functionKeyword inner, Json.child?_replaceChild hgs _⟩

/-- An object is no list of layers, so the code property stays. -/
lemma child?_dropRepeatedAt_layersPath (h : schema.Intact v) :
    (v.dropRepeatedAt schema.layersPath).child? (.key schema.codeProperty) =
      v.child? (.key schema.codeProperty) := by
  obtain ⟨gs, hgs⟩ := h.code
  have hlookup : ∀ u : Json,
      Path.lookup [.key schema.codeProperty] u = u.child? (.key schema.codeProperty) := by
    intro u
    rw [Path.lookup_cons]
    cases u.child? (.key schema.codeProperty) <;> rfl
  rw [← hlookup, ← hlookup]
  by_cases hlayers : schema.layersProperty = schema.codeProperty
  · rw [Schema.layersPath, hlayers, Json.dropRepeatedAt, Path.lookup_getD_modify?, hlookup, hgs]
    rfl
  · exact (Json.sameBut_dropRepeatedAt schema.layersProperty [] v).lookup (Ne.symm hlayers) []

/-! ### Middlewares -/

/-- The properties of a middleware are merged without its code, so the code property stays. -/
lemma merge_middleware {ss : Fields Json} {merged : Json} {changes : List Change}
    (h : schema.Intact v) (hss : (Json.object ss).WellFormed)
    (hmerge : (merge schema.middlewareRules v
      ((Json.object ss).eraseField schema.codeProperty)).result =
      .ok (merged, changes)) :
    schema.Intact merged ∧
      merged.child? (.key schema.codeProperty) = v.child? (.key schema.codeProperty) := by
  have hwell := wellFormed_of_merge h.wellFormed (hss.eraseField _) hmerge
  obtain ⟨ts, rfl⟩ := h.exists_object
  rw [Merged.result_eq_ok_iff, Json.eraseField, merge, mergeAt] at hmerge
  have hnone : schema.middlewareRules.find? [] = none := rfl
  rw [hnone] at hmerge
  have herror :
      (mergeFields schema.middlewareRules [] ts (Fields.erase ss schema.codeProperty)).error =
      none :=
    congrArg Merged.error hmerge
  have htarget : Json.object _ = merged := congrArg Merged.target hmerge
  obtain ⟨hkept, -⟩ := get?_target_mergeFields (hss.distinct.erase _) herror schema.codeProperty
  have hchild : merged.child? (.key schema.codeProperty) =
      (Json.object ts).child? (.key schema.codeProperty) := by
    rw [← htarget]
    exact hkept (Fields.get?_erase_self hss.distinct _)
  exact ⟨⟨hwell, hchild ▸ h.code⟩, hchild⟩

end Schema.Intact

lemma Documents.Resolves.exists_qualified {documents : Documents} {family : Family}
    (h : documents.Resolves family) (hdocuments : documents.WellFormed) (schema : Schema) :
    ∃ ss, family.qualified schema = .object ss ∧ (Json.object ss).WellFormed := by
  obtain ⟨fs, hfs, hdistinct⟩ := h.exists_object_properties hdocuments
  obtain ⟨ss, hss, -⟩ : ∃ ss, family.qualified schema = .object ss ∧ Fields.Distinct ss :=
    Composer.exists_object_qualified hfs hdistinct
  exact ⟨ss, hss, hss ▸ Qualifier.wellFormed_value _ _ _ (h.wellFormed_properties hdocuments)⟩

namespace Composer

variable {c : Composer} {function id : ResourceId}

/-- The entry of a middleware list names a resource whose family names the code. -/
def NamesCode (c : Composer) (entry : Json) (code : CodeIdentity) : Prop :=
  ∃ id family, entry.resourceId? = some id ∧ c.families.get? id = some family ∧
    family.code? c.schema.middlewareCodePath = some code

lemma intact_addMiddlewares (hqualified : ∀ id family, c.families.get? id = some family →
      ∃ ss, family.qualified c.schema = .object ss ∧ (Json.object ss).WellFormed)
    {index : Nat} {entries : List Json} {properties composed : Json} {codes : List CodeIdentity}
    (hproperties : c.schema.Intact properties)
    (h : c.addMiddlewares function index entries properties = .ok (composed, codes)) :
    List.Forall₂ c.NamesCode entries codes ∧ c.schema.Intact composed ∧
      composed.child? (.key c.schema.codeProperty) =
        properties.child? (.key c.schema.codeProperty) := by
  induction entries generalizing index properties codes with
  | nil =>
    cases h
    exact ⟨.nil, hproperties, rfl⟩
  | cons entry entries ih =>
    obtain ⟨id, family, code, codes', merged, changes, hid, hget, hcode, hmerge, hrest, rfl⟩ :=
      addMiddlewares_cons_eq_ok h
    obtain ⟨ss, hss, hwell⟩ := hqualified id family hget
    rw [hss] at hmerge
    obtain ⟨hmerged, hchild⟩ := hproperties.merge_middleware hwell hmerge
    obtain ⟨hcodes, hcomposed, hchild'⟩ := ih hmerged hrest
    exact ⟨.cons ⟨id, family, hid, hget, hcode⟩ hcodes, hcomposed, hchild'.trans hchild⟩

/-- The middleware list of a composed function: no entry of it repeats another one, and its entries
name the middlewares of the function one by one. -/
theorem compose_entries {documents : Documents} (hdocuments : documents.WellFormed)
    (hfamilies : Families.ofDocuments documents = .ok c.families) {composed : ComposedFunction}
    (h : c.compose id = .ok composed) :
    ∃ family properties xs, c.families.get? id = some family ∧
      family.code? c.schema.functionCodePath = some composed.function ∧
      composed.resource.field? "Properties" = some properties ∧ properties.WellFormed ∧
      properties.itemsAt c.schema.middlewaresPath = Json.distinctItems xs ∧
      List.Forall₂ c.NamesCode (properties.itemsAt c.schema.middlewaresPath)
        composed.middlewares := by
  obtain ⟨body, family, prepared, properties, -, hget, hcode, hprepared, hadded, hresource⟩ :=
    compose_eq_ok h
  have hfamily := Families.resolves_of_get? hdocuments hfamilies hget
  obtain ⟨injected, hinjected, rfl⟩ := prepare_eq_ok hprepared
  have hintact :=
    (((Schema.Intact.of_code? (hfamily.wellFormed_properties hdocuments) hcode).foldlM_inject
      hinjected).qualifyReferences injected.provenance).dropRepeatedAt_middlewaresPath
  obtain ⟨hcodes, hadded, hchild⟩ := intact_addMiddlewares (fun _ _ hget =>
    (Families.resolves_of_get? hdocuments hfamilies hget).exists_qualified hdocuments c.schema)
      hintact hadded
  have hentries : (properties.dropRepeatedAt c.schema.layersPath).itemsAt c.schema.middlewaresPath =
      Json.distinctItems ((ModularTemplates.qualifyReferences c.schema injected.provenance
        injected.value).itemsAt c.schema.middlewaresPath) := by
    rw [← Json.itemsAt_dropRepeatedAt]
    exact Json.itemsAt_congr (hadded.child?_dropRepeatedAt_layersPath.trans hchild) _
  refine ⟨family, _, _, hget, hcode, ?_, hadded.wellFormed.dropRepeatedAt _, hentries, ?_⟩
  · obtain ⟨fs, -, hobject⟩ := hfamily.resource
    rw [hresource, hobject]
    simp [Json.setField, Json.field?, Json.asObject?]
  · rw [hentries, ← Json.itemsAt_dropRepeatedAt]
    exact hcodes

end Composer

end ModularTemplates
