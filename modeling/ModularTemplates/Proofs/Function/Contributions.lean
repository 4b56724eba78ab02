import Mathlib.Tactic.Lemma
import ModularTemplates.Proofs.Function.Injection

/-!
# Contributions of extensions

The injections of an extension, and of any list of extensions, add the contributed middlewares
and references to the contributed layers to the qualified properties. What they add is
qualified from the start.
-/

namespace ModularTemplates

/-! ### Contributed items are qualified -/

namespace Qualifier

variable {q q' : Qualifier} {path p : Path} {v w : Json}

lemma onField_of_fixed {fs : Fields Json} {key : String} {f : Json → Json}
    (h : ∀ v, fs.get? key = some v → f v = v) : onField fs key f = fs := by
  unfold onField
  cases hkey : fs.get? key with
  | none => rfl
  | some v =>
    dsimp only
    rw [h v hkey]
    exact Fields.set_of_get? hkey

lemma object_of_texts {fs : Fields Json}
    (h : ∀ key v, fs.get? key = some v → ∃ s, v = .string s) :
    q.object path fs = fs := by
  have haddress : onField fs q.schema.referenceKeyword (q.address path) = fs := by
    refine onField_of_fixed fun v hv => ?_
    obtain ⟨s, rfl⟩ := h _ v hv
    rfl
  rw [object, haddress]
  refine onField_of_fixed fun v hv => ?_
  obtain ⟨s, rfl⟩ := h _ v hv
  rfl

lemma address_toJson (q : Qualifier) (path : Path) (id : ResourceId) :
    q.address path id.toJson = id.toJson := by
  simp [ResourceId.toJson, address, Fields.has]

lemma value_toJson (q : Qualifier) (path : Path) (id : ResourceId) :
    q.value path id.toJson = id.toJson := by
  simp only [ResourceId.toJson, value, fields]
  rw [object_of_texts]
  intro key v hv
  rw [Fields.get?_cons, Fields.get?_cons] at hv
  split_ifs at hv
  · exact ⟨_, (Option.some.inj hv).symm⟩
  · exact ⟨_, (Option.some.inj hv).symm⟩
  · cases hv

lemma entry_toJson (q : Qualifier) (path : Path) (i : Nat) (id : ResourceId) :
    q.entry path i id.toJson = id.toJson := by
  rw [entry, value_toJson, address_toJson]

lemma value_reference (hnames : q.schema.referenceKeyword ≠ q.schema.functionKeyword)
    (path : Path) (id : ResourceId) :
    q.value path (.single q.schema.referenceKeyword id.toJson) =
      .single q.schema.referenceKeyword id.toJson := by
  simp [Json.single, value, fields, value_toJson, object, onField, address_toJson, hnames,
    Fields.set, Fields.get?_cons]

end Qualifier

/-! ### Contributions of an extension -/

lemma ResourceId.wellFormed_toJson (id : ResourceId) : id.toJson.WellFormed := by
  simp [toJson, Json.WellFormed, Json.WellFormedFields, Fields.Distinct]

namespace Schema

variable {schema : Schema}

lemma find?_injectionRules_middlewaresPath (schema : Schema) :
    schema.injectionRules.find? schema.middlewaresPath = some .append := by
  simp [Rules.find?, injectionRules, middlewaresPath, functionCodePath, Path.matches,
    Segment.matches]

lemma find?_injectionRules_layersPath (schema : Schema) :
    schema.injectionRules.find? schema.layersPath = some .append := by
  simp [Rules.find?, injectionRules, middlewaresPath, functionCodePath, layersPath, Path.matches,
    Segment.matches]

lemma find?_injectionRules_of_prefix (hlayers : schema.codeProperty ≠ schema.layersProperty)
    {keys : List String} (h : keys <+: [schema.codeProperty, schema.functionKeyword]) :
    schema.injectionRules.find? (keys.map .key) = none := by
  rw [List.prefix_cons_iff] at h
  obtain rfl | ⟨rest, rfl, h⟩ := h
  · rfl
  rw [List.prefix_cons_iff] at h
  obtain rfl | ⟨rest, rfl, h⟩ := h
  · simp [Rules.find?, injectionRules, middlewaresPath, functionCodePath, layersPath, Path.matches,
      Segment.matches, hlayers.symm]
  · cases List.prefix_nil.mp h
    simp [Rules.find?, injectionRules, middlewaresPath, functionCodePath, layersPath, Path.matches,
      Segment.matches]

end Schema

/-- Properties of a function as they come from documents: they describe its code. -/
structure Properties.Ready (schema : Schema) (p : Properties) : Prop where
  wellFormed : p.value.WellFormed
  describesCode : ∃ fs, schema.functionCodePath.lookup p.value = some (.object fs)

lemma Properties.Ready.exists_object {schema : Schema} {p : Properties} (h : p.Ready schema) :
    ∃ fs, p.value = .object fs := by
  obtain ⟨fs, hopen⟩ := h.describesCode
  obtain ⟨u, hu, -⟩ := Option.bind_eq_some_iff.mp hopen
  exact Json.exists_object_of_child? hu

lemma Properties.adds_qualified {schema : Schema} (hschema : schema.DistinctNames)
    {p next : Properties} {middlewares layers : List Json} (hp : p.value.WellFormed)
    (hagree : p.provenance.Agree p.value next.provenance)
    (h : schema.Adds middlewares layers p.value next.value)
    (hmiddlewares : ∀ x ∈ middlewares, ∀ (q : Qualifier) path i, q.entry path i x = x)
    (hlayers : ∀ x ∈ layers, ∀ (q : Qualifier) path, q.schema = schema →
      q.value path x = x) :
    schema.Adds middlewares layers (qualifyReferences schema p.provenance p.value)
      (qualifyReferences schema next.provenance next.value) :=
  @Qualifier.adds_value ⟨schema, p.provenance⟩ ⟨schema, next.provenance⟩ _ _ _ _ hschema hp
    ⟨rfl, fun path hpath => congrArg ResourceId.module (hagree path hpath)⟩ h
    (fun x hx path i => hmiddlewares x hx _ path i) fun x hx path => hlayers x hx _ path rfl

/-- In the properties of a function the injections add middlewares and layers to the
qualified properties. -/
def Schema.Contributes (schema : Schema) (injections : List Injection)
    (middlewares layers : List Json) : Prop :=
  ∀ function (p next : Properties), p.Ready schema →
    injections.foldlM (Properties.inject schema function) p = .ok next →
    next.Ready schema ∧ schema.Adds middlewares layers
      (qualifyReferences schema p.provenance p.value)
      (qualifyReferences schema next.provenance next.value)

namespace Schema.Contributes

variable {schema : Schema} {injections injections' : List Injection}
  {middlewares middlewares' layers layers' : List Json}

lemma nil : schema.Contributes [] [] [] := by
  intro function p next hp h
  cases h
  exact ⟨hp, .refl schema _⟩

lemma append (h : schema.Contributes injections middlewares layers)
    (h' : schema.Contributes injections' middlewares' layers') :
    schema.Contributes (injections ++ injections') (middlewares ++ middlewares')
      (layers ++ layers') := by
  intro function p next hp hrun
  rw [List.foldlM_append] at hrun
  obtain ⟨between, hfirst, hrest⟩ := bind_eq_ok_iff.mp hrun
  obtain ⟨hbetween, hadds⟩ := h function p between hp hfirst
  obtain ⟨hnext, hadds'⟩ := h' function between next hbetween hrest
  exact ⟨hnext, hadds.trans hadds'⟩

lemma flatMap {α : Type} {l : List α} {f : α → List Injection} {g g' : α → List Json}
    (h : ∀ a ∈ l, schema.Contributes (f a) (g a) (g' a)) :
    schema.Contributes (l.flatMap f) (l.flatMap g) (l.flatMap g') := by
  induction l with
  | nil => exact nil
  | cons a l ih =>
    simp only [List.flatMap_cons]
    exact (h a List.mem_cons_self).append (ih fun b hb => h b (List.mem_cons_of_mem a hb))

lemma of_inject {injection : Injection} (h : ∀ function (p next : Properties), p.Ready schema →
      p.inject schema function injection = .ok next →
      next.Ready schema ∧ schema.Adds middlewares layers
        (qualifyReferences schema p.provenance p.value)
        (qualifyReferences schema next.provenance next.value)) :
    schema.Contributes [injection] middlewares layers := by
  intro function p next hp hrun
  rw [List.foldlM_cons] at hrun
  obtain ⟨_, hinject, hrest⟩ := bind_eq_ok_iff.mp hrun
  cases hrest
  exact h function p next hp hinject

lemma middlewareInjection (hschema : schema.DistinctNames) (id : ResourceId) :
    schema.Contributes [schema.middlewareInjection id] [id.toJson] [] := by
  refine of_inject fun function p next hp h => ?_
  obtain ⟨fs, hopen⟩ := hp.describesCode
  obtain ⟨gs, hvalue⟩ := hp.exists_object
  obtain ⟨hlookup, hagree⟩ :=
    Properties.inject_nest [schema.codeProperty, schema.functionKeyword]
      schema.middlewaresField hopen
      (fun q hq => Schema.find?_injectionRules_of_prefix hschema.code_ne_layers hq)
      (Schema.find?_injectionRules_middlewaresPath schema) h
  have hnone := Schema.find?_injectionRules_of_prefix hschema.code_ne_layers List.nil_prefix
  have hsame : Json.SameBut schema.codeProperty p.value next.value :=
    Properties.sameBut_inject hvalue hnone h
  have hitems : (Json.array [id.toJson]).WellFormed := by
    simp [Json.WellFormed, Json.WellFormedItems, id.wellFormed_toJson]
  constructor
  · constructor
    · exact Properties.wellFormed_inject hp.wellFormed (Json.wellFormed_nest [_, _, _] hitems) h
    · -- the list is there now, so it stands in an object
      obtain ⟨u, hu, hbelow⟩ :=
        Option.bind_eq_some_iff.mp ((Path.lookup_append _ _ _).symm.trans hlookup)
      obtain ⟨w, hw, -⟩ := Option.bind_eq_some_iff.mp hbelow
      obtain ⟨fs', rfl⟩ := Json.exists_object_of_child? hw
      exact ⟨fs', hu⟩
  · refine Properties.adds_qualified hschema hp.wellFormed hagree ?_ ?_ (by simp)
    · constructor
      · exact Json.itemsAt_of_lookup hlookup
      · exact (hsame.itemsAt hschema.code_ne_layers.symm []).trans (List.append_nil _).symm
      · exact hsame.others schema.isOther_codeProperty
    · simp [Qualifier.entry_toJson]

lemma middlewareInjections (hschema : schema.DistinctNames) (ids : List ResourceId) :
    schema.Contributes (ids.map schema.middlewareInjection) (ids.map ResourceId.toJson) [] := by
  induction ids with
  | nil => exact nil
  | cons id ids ih => exact (middlewareInjection hschema id).append ih

lemma layerInjection (hschema : schema.DistinctNames) (id : ResourceId) :
    schema.Contributes [schema.layerInjection id] []
      [.single schema.referenceKeyword id.toJson] := by
  refine of_inject fun function p next hp h => ?_
  obtain ⟨fs, hopen⟩ := hp.describesCode
  obtain ⟨gs, hvalue⟩ := hp.exists_object
  have hnone := Schema.find?_injectionRules_of_prefix hschema.code_ne_layers List.nil_prefix
  obtain ⟨hlookup, hagree⟩ :=
    Properties.inject_nest [] schema.layersProperty (congrArg some hvalue)
      (fun q hq => List.prefix_nil.mp hq ▸ hnone)
      (Schema.find?_injectionRules_layersPath schema) h
  have hsame : Json.SameBut schema.layersProperty p.value next.value :=
    Properties.sameBut_inject hvalue hnone h
  have hitems : (Json.array [.single schema.referenceKeyword id.toJson]).WellFormed := by
    simp [Json.WellFormed, Json.WellFormedItems, Json.wellFormed_single _ id.wellFormed_toJson]
  constructor
  · constructor
    · exact Properties.wellFormed_inject hp.wellFormed (Json.wellFormed_single _ hitems) h
    · exact ⟨fs, (hsame.lookup hschema.code_ne_layers _).trans hopen⟩
  · refine Properties.adds_qualified hschema hp.wellFormed hagree ?_ (by simp) ?_
    · constructor
      · exact (hsame.itemsAt hschema.code_ne_layers _).trans (List.append_nil _).symm
      · exact Json.itemsAt_of_lookup hlookup
      · exact hsame.others schema.isOther_layersProperty
    · simp only [List.mem_singleton, forall_eq]
      rintro q path rfl
      exact Qualifier.value_reference hschema.reference_ne_function path id

lemma layerInjections (hschema : schema.DistinctNames) (ids : List ResourceId) :
    schema.Contributes (ids.map schema.layerInjection) []
      (ids.map fun id => .single schema.referenceKeyword id.toJson) := by
  induction ids with
  | nil => exact nil
  | cons id ids ih => exact (layerInjection hschema id).append ih

end Schema.Contributes

/-! ### Contributions of all extensions -/

/-- The middlewares that an extension contributes to functions of a type. -/
def Extension.middlewareIds (extension : Extension) (type : String) : List ResourceId :=
  (extension.middlewares.filter (·.appliesTo type)).map fun c => ⟨extension.module, c.resource⟩

/-- The layers that an extension contributes to functions of a type. -/
def Extension.layerIds (extension : Extension) (type : String) : List ResourceId :=
  (extension.layers.filter (·.appliesTo type)).map fun c => ⟨extension.module, c.resource⟩

namespace Composer

/-- The entries of the middlewares that extensions contribute to functions of a type. -/
def contributedMiddlewares (c : Composer) (type : String) : List Json :=
  (c.extensions.flatMap (·.middlewareIds type)).map ResourceId.toJson

/-- The references to the layers that extensions contribute to functions of a type. -/
def contributedLayers (c : Composer) (type : String) : List Json :=
  (c.extensions.flatMap (·.layerIds type)).map fun id =>
    .single c.schema.referenceKeyword id.toJson

theorem contributes_injections (c : Composer) (hschema : c.schema.DistinctNames) (type : String) :
    c.schema.Contributes (c.extensions.flatMap (c.schema.injections type))
      (c.contributedMiddlewares type)
      (c.contributedLayers type) := by
  rw [contributedMiddlewares, contributedLayers, List.map_flatMap, List.map_flatMap]
  refine .flatMap fun extension _ => ?_
  have hinjections : c.schema.injections type extension =
      (extension.middlewareIds type).map c.schema.middlewareInjection ++
        (extension.layerIds type).map c.schema.layerInjection := by
    simp [Schema.injections, Extension.middlewareIds, Extension.layerIds, Function.comp_def]
  have hboth :=
    (Schema.Contributes.middlewareInjections hschema (extension.middlewareIds type)).append
      (.layerInjections hschema (extension.layerIds type))
  rwa [List.append_nil, List.nil_append, ← hinjections] at hboth

end Composer

end ModularTemplates
