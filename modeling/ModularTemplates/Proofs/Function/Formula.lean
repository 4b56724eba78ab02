import Mathlib.Tactic.Lemma
import ModularTemplates.Proofs.Function.Contributions
import ModularTemplates.Proofs.Function.Middlewares

/-!
# What a function is composed of

A composed function can be read off the families of the function and of its middlewares and the
contributions of extensions. Its middlewares are those of its family and then the contributed ones.
Its layers are those of its family, then the contributed ones, then those of its middlewares one
after the other. Of repeated entries the first one stays. All other properties are those of the
family with those of the middlewares merged in.
-/

namespace ModularTemplates

namespace Composer

variable {c : Composer} {id : ResourceId}

/-- The properties of a composed function, and the code of its middlewares, as they follow from its
type, its family and the families of its middlewares. -/
structure Formula (c : Composer) (type : String) (family : Family) (middlewares : List Family)
    (properties : Json) (codes : List CodeIdentity) : Prop where
  entries : properties.itemsAt c.schema.middlewaresPath =
    Json.firstOfSame
      ((family.qualified c.schema).itemsAt c.schema.middlewaresPath ++
        c.contributedMiddlewares type)
  names : List.Forall₂ c.NamesMember (properties.itemsAt c.schema.middlewaresPath) middlewares
  codes :
    List.Forall₂ (fun middleware code => middleware.code? c.schema.middlewareCodePath = some code)
    middlewares codes
  layers : properties.itemsAt c.schema.layersPath =
    Json.firstOfSame ((family.qualified c.schema).itemsAt c.schema.layersPath ++
      c.contributedLayers type ++
      middlewares.flatMap fun middleware =>
        (middleware.qualified c.schema).itemsAt c.schema.layersPath)
  others : middlewares.foldlM c.mergeOthers (c.schema.others (family.qualified c.schema)) =
    .ok (c.schema.others properties)

lemma exists_object_qualified {schema : Schema} {family : Family} {fs : Fields Json}
    (h : family.properties = .object fs) (hdistinct : fs.Distinct) :
    ∃ gs, family.qualified schema = .object gs ∧ Fields.Distinct gs := by
  rw [Family.qualified, h]
  refine ⟨_, by rw [qualifyReferences, Qualifier.value], ?_⟩
  rwa [Fields.Distinct, Qualifier.keys_object_fields]

lemma ready_of_code? {schema : Schema} {family : Family} {code : CodeIdentity}
    (hfamily : family.properties.WellFormed)
    (h : family.code? schema.functionCodePath = some code) :
    Properties.Ready schema ⟨family.properties, family.provenance⟩ := by
  refine ⟨hfamily, ?_⟩
  obtain ⟨name, hname, -⟩ := Option.bind_eq_some_iff.mp h
  rw [Path.lookup_append] at hname
  obtain ⟨v, hv, hname⟩ := Option.bind_eq_some_iff.mp hname
  obtain ⟨w, hw, -⟩ := Option.bind_eq_some_iff.mp hname
  obtain ⟨fs, rfl⟩ := Json.exists_object_of_child? hw
  exact ⟨fs, hv⟩

/-- Prepared properties have all middlewares of the function and the layers that come before those
of the middlewares. -/
theorem prepare_lists (hschema : c.schema.DistinctNames) {type : String} {family : Family}
    {prepared : Json}
    (hready : Properties.Ready c.schema ⟨family.properties, family.provenance⟩)
    (h : c.prepare id type family = .ok prepared) :
    (∃ fs, prepared = .object fs) ∧
      prepared.itemsAt c.schema.middlewaresPath = Json.distinctItems
        ((family.qualified c.schema).itemsAt c.schema.middlewaresPath ++
          c.contributedMiddlewares type) ∧
      prepared.itemsAt c.schema.layersPath =
        (family.qualified c.schema).itemsAt c.schema.layersPath ++ c.contributedLayers type ∧
      c.schema.others prepared = c.schema.others (family.qualified c.schema) := by
  obtain ⟨injected, hinjected, rfl⟩ := prepare_eq_ok h
  obtain ⟨hready, hadds⟩ := c.contributes_injections hschema type id _ _ hready hinjected
  have hsame := Json.sameBut_dropRepeatedAt c.schema.codeProperty
    [.key c.schema.functionKeyword, .key c.schema.middlewaresField]
    (qualifyReferences c.schema injected.provenance injected.value)
  refine ⟨hsame.exists_object ?_, ?_, ?_, ?_⟩
  · obtain ⟨fs, hfs⟩ := hready.exists_object
    rw [hfs, qualifyReferences, Qualifier.value]
    exact ⟨_, rfl⟩
  · rw [Json.itemsAt_dropRepeatedAt, hadds.middlewares]
    rfl
  · exact (hsame.itemsAt hschema.code_ne_layers.symm []).trans hadds.layers
  · exact (hsame.others c.schema.isOther_codeProperty).trans hadds.others

/-- A composed function follows from its family, the extensions, and the families of its
middlewares. -/
theorem compose_formula {documents : Documents} (hdocuments : documents.WellFormed)
    (hfamilies : Families.ofDocuments documents = .ok c.families) (hschema : c.schema.DistinctNames)
    {composed : ComposedFunction} (h : c.compose id = .ok composed) :
    ∃ body family middlewares properties, documents.resource? id = some body ∧
      c.families.get? id = some family ∧
      family.code? c.schema.functionCodePath = some composed.function ∧
      c.Formula (body.textField "Type") family middlewares properties composed.middlewares ∧
      composed.resource = family.resource.setField "Properties" properties ∧
      composed.resource.field? "Properties" = some properties := by
  have hresolves : ∀ {id family}, c.families.get? id = some family →
      documents.Resolves family := by
    intro id family hget
    exact Families.resolves hdocuments hfamilies
      ((Families.get?_eq_some_iff hdocuments hfamilies).mp hget).1
  obtain ⟨body, family, prepared, properties, hbody, hget, hcode, hprepared, hadded,
      hresource⟩ :=
    compose_eq_ok h
  have hfamily := hresolves hget
  rw [(Families.of_ofDocuments hfamilies).1] at hbody
  obtain ⟨⟨ts, rfl⟩, hentries, hlayers, hothers⟩ :=
    prepare_lists hschema (ready_of_code? (hfamily.wellFormed_properties hdocuments) hcode)
      hprepared
  obtain ⟨middlewares, hnames, hcodes, hentries', hlayers', hothers'⟩ :=
    addMiddlewares_eq_ok hschema
      (fun id family hget => by
        obtain ⟨fs, hfs, hdistinct⟩ := (hresolves hget).exists_object_properties hdocuments
        exact exists_object_qualified hfs hdistinct)
      hadded
  -- repeated layers are dropped at the very end, after the middlewares have added theirs
  have hsame := Json.sameBut_dropRepeatedAt c.schema.layersProperty [] properties
  have hkept : (properties.dropRepeatedAt c.schema.layersPath).itemsAt c.schema.middlewaresPath =
      properties.itemsAt c.schema.middlewaresPath := hsame.itemsAt hschema.code_ne_layers _
  refine ⟨body, family, middlewares, _, hbody, hget, hcode, ?_, hresource, ?_⟩
  · constructor
    · rw [hkept, hentries', hentries, Json.distinctItems_eq_firstOfSame]
    · rw [hkept, hentries']
      exact hnames
    · exact hcodes
    · rw [Json.itemsAt_dropRepeatedAt, hlayers', hlayers, Json.distinctItems_eq_firstOfSame]
    · rw [← hothers, hothers']
      exact congrArg Except.ok (hsame.others c.schema.isOther_layersProperty).symm
  · obtain ⟨fs, -, hobject⟩ := hfamily.resource
    rw [hresource, hobject]
    simp [Json.setField, Json.field?, Json.asObject?]

/-- A middleware that the function lists and an extension contributes is used once. Its layer is
also a contributed one. -/
theorem compose_formula_shared :
    let functionBody : Json := .object [("Type", .string "AWS::Serverless::Function"),
      ("Properties", .object
        [("CodeUri", .single "Function" (.object [("name", .string "handler"),
            ("middlewares",
              .array [.object [("module", .string "lib"), ("resource", .string "auth")]])])),
          ("Layers", .array [.single "Ref" (.single "resource" (.string "own"))]),
          ("Timeout", .number (.int 3))])]
    let middlewareBody : Json := .object [("Type", .string "Middleware"),
      ("Properties", .object
        [("CodeUri", .single "Middleware" (.single "name" (.string "check"))),
          ("Layers", .array [.single "Ref" (.single "resource" (.string "base"))]),
          ("Timeout", .number (.int 5))])]
    let function : ResourceId := ⟨"app", "api"⟩
    let auth : ResourceId := ⟨"lib", "auth"⟩
    let c : Composer :=
      { families :=
          { documents := [("app", ⟨.single "Resources" (.single "api" functionBody), none⟩),
              ("lib", ⟨.single "Resources" (.single "auth" middlewareBody), none⟩)]
            links := [⟨function, functionBody, none, []⟩, ⟨auth, middlewareBody, none, []⟩]
            families := [⟨function, [function], functionBody, .leaf function⟩,
              ⟨auth, [auth], middlewareBody, .leaf auth⟩] }
        schema := .standard
        extensions :=
          [⟨"lib", [⟨"auth", none⟩], [⟨"base", none⟩, ⟨"other", some ["T"]⟩]⟩] }
    c.families.documents.WellFormed ∧
      Families.ofDocuments c.families.documents = .ok c.families ∧
      c.schema.DistinctNames ∧
      ∃ composed properties, c.compose function = .ok composed ∧
        composed.resource.field? "Properties" = some properties ∧
        properties.itemsAt c.schema.middlewaresPath = [auth.toJson] ∧
        composed.middlewares = [⟨"lib", "check"⟩] ∧
        properties.itemsAt c.schema.layersPath = [
          .single "Ref" (.object [("resource", .string "own"), ("module", .string "app")]),
          .single "Ref" (ResourceId.toJson ⟨"lib", "base"⟩)] ∧
        c.schema.others properties = .single "Timeout" (.number (.int 5)) := by
  intro functionBody middlewareBody function auth c
  have hdocuments : c.families.documents.WellFormed := by decide
  have hfamilies : Families.ofDocuments c.families.documents = .ok c.families := by cbv
  have hschema : c.schema.DistinctNames := by decide
  refine ⟨hdocuments, hfamilies, hschema, ?_⟩
  have hok : (c.compose function).isOk = true := by decide +kernel
  cases hcomposed : c.compose function with
  | error e =>
    rw [hcomposed] at hok
    cases hok
  | ok composed =>
    obtain ⟨body, family, middlewares, properties, hbody, hget, -, hformula, -, hproperties⟩ :=
      compose_formula hdocuments hfamilies hschema hcomposed
    cases hbody
    cases hget
    have hentries : properties.itemsAt c.schema.middlewaresPath = [auth.toJson] :=
      hformula.entries.trans (by decide +kernel)
    have hnames := hformula.names
    rw [hentries, List.forall₂_cons_left_iff] at hnames
    obtain ⟨_, _, ⟨_, hid, hauth⟩, hnil, rfl⟩ := hnames
    cases hid
    cases hauth
    cases hnil
    obtain ⟨code, _, hcode, hnil, hcodes⟩ := List.forall₂_cons_left_iff.mp hformula.codes
    cases hnil
    refine ⟨composed, properties, rfl, hproperties, hentries, ?_, ?_, ?_⟩
    · rw [hcodes]
      exact congrArg (fun code => [code]) (Option.some.inj (hcode.symm.trans (by decide +kernel)))
    · exact hformula.layers.trans (by decide +kernel)
    · exact Except.ok.inj (hformula.others.symm.trans (by cbv))

end Composer

end ModularTemplates
