import Mathlib.Tactic.Lemma
import ModularTemplates.Proofs.Function.Repetition
import ModularTemplates.Proofs.Project.Origins
import ModularTemplates.Proofs.Project.SettledDocuments

/-!
# Layers of compiled functions

Repeated layers are dropped when a function is composed, before its keywords are processed. From
then on the layers stay as many as they are, and each of them is processed on its own. Layers
without keywords stay different. References to members of one family are written differently, and
they become the same.
-/

namespace ModularTemplates

/-- The layers property of a resource. -/
def Schema.layers? (schema : Schema) (resource : Json) : Option Json :=
  (resource.field? "Properties").bind (Json.field? · schema.layersProperty)

/-- No keyword takes effect in any object of a value. -/
def Schema.Inert (schema : Schema) (v : Json) : Prop :=
  v.EachObject (fun _ => schema.Settled) []

/-- No layer of a composed function repeats another one. -/
lemma Composer.pairwise_layers {c : Composer} {id : ResourceId} {composed : ComposedFunction}
    (h : c.compose id = .ok composed) {xs : List Json}
    (hlayers : c.schema.layers? composed.resource = some (.array xs)) :
    xs.Pairwise fun x y => x.same y = false := by
  obtain ⟨_, family, _, properties, -, -, -, -, -, hresource⟩ := compose_eq_ok h
  obtain ⟨merged, hmerged, hfield⟩ := Option.bind_eq_some_iff.mp hlayers
  have hdropped : merged = properties.dropRepeatedAt c.schema.layersPath := by
    rw [hresource] at hmerged
    cases hfamily : family.resource with
    | object fs =>
      rw [hfamily] at hmerged
      simpa [Json.setField, Json.field?, Json.asObject?, Fields.get?_set] using hmerged.symm
    | _ =>
      rw [hfamily] at hmerged
      cases hmerged
  have hitems : xs = merged.itemsAt c.schema.layersPath := by
    rw [Json.itemsAt, Schema.layersPath, Path.lookup_cons, Json.child?_key, hfield]
    rfl
  rw [hitems, hdropped, Json.itemsAt_dropRepeatedAt]
  exact Json.pairwise_distinctItems _

namespace Project

open Composer

variable {p : Project} {module : String} {above : List Crumb}

/-! ### References by address -/

lemma resolve_of_resourceId? {address : Json} {id : ResourceId} {name : String}
    (hid : address.resourceId? = some id) (h : (p.context module).resolve address = .ok name) :
    ∃ family, p.families.get? id = some family ∧ name = p.services.logicalId family.root := by
  obtain ⟨hmodule, hresource⟩ := Json.field?_of_resourceId? hid
  obtain ⟨found, hfound, h⟩ := bind_eq_ok_iff.mp h
  have haddress : Address.ofJson address = .ok ⟨some id.module, id.resource⟩ := by
    cases address with
    | object fs =>
      have hmodule' : Fields.get? fs "module" = some (.string id.module) := hmodule
      have hresource' : Fields.get? fs "resource" = some (.string id.resource) := hresource
      simp [Address.ofJson, hmodule', hresource', Json.asString?]
    | _ => cases hmodule
  cases haddress.symm.trans hfound
  dsimp only at h
  split at h
  · rename_i family hget
    cases h
    exact ⟨family, hget, rfl⟩
  · cases h

/-- A reference by address becomes the name of the root of the family. -/
lemma value_of_reference (hp : p.keywords = builtinKeywords p.composer.schema)
    (hnames : p.composer.schema.keywordNames.Nodup) {address y : Json} {id : ResourceId}
    (hinert : p.composer.schema.Inert address)
    (hid : address.resourceId? = some id)
    (hvalue : outcome ((p.builtinProcessors module).value above
      (.single p.composer.schema.referenceKeyword address)) = .ok y) :
    ∃ family, p.families.get? id = some family ∧
      y = .single p.composer.schema.referenceKeyword
        (.string (p.services.logicalId family.root)) := by
  have hfields : p.composer.Ensures ((p.builtinProcessors module).fields
      (.single p.composer.schema.referenceKeyword address) above
      [(p.composer.schema.referenceKeyword, address)])
      (· = [(p.composer.schema.referenceKeyword, address)]) Interruption.Final := by
    have hfield : ∀ field ∈ [(p.composer.schema.referenceKeyword, address)],
        field.2.EachObject (fun _ => p.composer.schema.Settled) ([] ++ [.key field.1]) :=
      List.forall_mem_singleton.mpr (Json.EachObject.anywhere hinert _)
    rw [fields_of_settled hp hnames module _ above hfield]
    exact ensures_pure rfl
  obtain ⟨_, rfl, hbecomes⟩ := (ensures_object_exact hp hnames hfields fun gs hgs =>
    congrArg Fields.keys hgs).of_run sound_nil hvalue
  cases hbecomes with
  | kept hkept =>
    obtain ⟨s, rfl⟩ :=
      (Schema.effective_eq_nil_iff.mp hkept).reference address (by simp [Fields.get?])
    cases hid
  | replaced hone hw =>
    rename_i keyword
    have hkeyword : keyword = p.composer.schema.referenceKeyword := by
      have hmem :
          keyword ∈ p.composer.schema.effective
            [(p.composer.schema.referenceKeyword, address)] := by
        simp [hone]
      simpa using List.mem_of_mem_filter hmem
    obtain ⟨hparameter, hfunction, -⟩ := Schema.nodup_keywordNames_iff.mp hnames
    rcases replaces_iff.mp hw with ⟨-, -, name, hname, rfl⟩ | ⟨hother, -⟩ | ⟨hother, -⟩
    · rw [hkeyword] at hname ⊢
      have hget : Fields.get? [(p.composer.schema.referenceKeyword, address)]
          p.composer.schema.referenceKeyword = some address := by
        simp [Fields.get?]
      rw [hget, Option.getD_some] at hname
      obtain ⟨family, hfamily, rfl⟩ := resolve_of_resourceId? hid hname
      exact ⟨family, hfamily, rfl⟩
    · exact absurd (hkeyword.symm.trans hother) hparameter
    · exact absurd (hkeyword.symm.trans hother) hfunction

/-! ### Layers one by one -/

/-- What a compiled function has of the layers of the composed one. -/
structure CompiledLayers (p : Project) (module name : String)
    (composed compiled : List Json) : Prop where
  /-- no layer of the composed function repeats another one -/
  distinct : composed.Pairwise fun x y => x.same y = false
  /-- the layers are processed one by one, each in its place -/
  processed : ∃ (processors : Processors KeywordFailure Composing) (above : List Crumb),
    p.setUp (fun definition => definition.processor (p.context module)) = .ok processors ∧
    Node.path ⟨.array composed, above⟩ =
      [.key "Resources", .key name, .key "Properties", .key p.composer.schema.layersProperty] ∧
    List.Forall₂ (fun layer y =>
      outcome (processors.value (⟨.index layer.2, .array composed⟩ :: above) layer.1) = .ok y)
      composed.zipIdx compiled
  /-- a layer in which no keyword takes effect stays as it is -/
  inert : p.composer.schema.keywordNames.Nodup →
    ∀ (i : Nat) (x : Json), composed[i]? = some x →
    p.composer.schema.Inert x → compiled[i]? = some x
  /-- a reference to a member of a family becomes a reference to the root -/
  reference : p.composer.schema.keywordNames.Nodup →
    ∀ (i : Nat) (address : Json) (id : ResourceId),
    composed[i]? = some (.single p.composer.schema.referenceKeyword address) →
    p.composer.schema.Inert address → address.resourceId? = some id →
    ∃ family, p.families.get? id = some family ∧ compiled[i]? =
      some (.single p.composer.schema.referenceKeyword (.string (p.services.logicalId family.root)))

lemma getElem?_of_forall₂_zipIdx {R : Json × Nat → Json → Prop} {xs ys : List Json}
    (h : List.Forall₂ R xs.zipIdx ys) {i : Nat} {x : Json} (hx : xs[i]? = some x) :
    ∃ y, ys[i]? = some y ∧ R (x, i) y := by
  obtain ⟨hlength, hget⟩ := List.forall₂_iff_get.mp h
  obtain ⟨hi, rfl⟩ := List.getElem?_eq_some_iff.mp hx
  have hi' : i < xs.zipIdx.length := by simpa using hi
  have hys : i < ys.length := hlength ▸ hi'
  exact ⟨ys[i], List.getElem?_eq_getElem hys, by simpa using hget i hi' hys⟩

lemma compiledLayers_of_processed (hp : p.keywords = builtinKeywords p.composer.schema)
    {processors : Processors KeywordFailure Composing}
    (h : p.setUp (fun definition => definition.processor (p.context module)) = .ok processors)
    {name : String} {xs ys : List Json} (hdistinct : xs.Pairwise fun x y => x.same y = false)
    (hpath : Node.path ⟨.array xs, above⟩ =
      [.key "Resources", .key name, .key "Properties", .key p.composer.schema.layersProperty])
    (hitems : List.Forall₂ (fun layer y =>
      outcome (processors.value (⟨.index layer.2, .array xs⟩ :: above) layer.1) = .ok y)
      xs.zipIdx ys) :
    p.CompiledLayers module name xs ys := by
  refine ⟨hdistinct, ⟨processors, above, h, hpath, hitems⟩, ?_, ?_⟩
  · intro hnames i x hx hinert
    obtain ⟨y, hy, hvalue⟩ := getElem?_of_forall₂_zipIdx hitems hx
    cases (setUp_builtinProcessors hp hnames module).symm.trans h
    rw [value_of_settled hp hnames module _ hinert] at hvalue
    cases hvalue
    exact hy
  · intro hnames i address id hx hinert hid
    obtain ⟨y, hy, hvalue⟩ := getElem?_of_forall₂_zipIdx hitems hx
    cases (setUp_builtinProcessors hp hnames module).symm.trans h
    obtain ⟨family, hfamily, rfl⟩ := value_of_reference hp hnames hinert hid hvalue
    exact ⟨family, hfamily, hy⟩

/-- Layers that have become the same were written differently, and keywords took effect
in one of them. -/
lemma CompiledLayers.of_same {name : String} {xs ys : List Json}
    (h : p.CompiledLayers module name xs ys) {i j : Nat} (hij : i < j) {y y' : Json}
    (hy : ys[i]? = some y) (hy' : ys[j]? = some y') (hsame : y.same y' = true) :
    ∃ x x' : Json, xs[i]? = some x ∧ xs[j]? = some x' ∧ x.same x' = false ∧
      (p.composer.schema.keywordNames.Nodup →
        ¬ (p.composer.schema.Inert x ∧ p.composer.schema.Inert x')) := by
  obtain ⟨processors, above, -, -, hitems⟩ := h.processed
  have hlength : xs.length = ys.length := by simpa using hitems.length_eq
  obtain ⟨hi, -⟩ := List.getElem?_eq_some_iff.mp hy
  obtain ⟨hj, -⟩ := List.getElem?_eq_some_iff.mp hy'
  rw [← hlength] at hi hj
  have hdistinct := List.pairwise_iff_getElem.mp h.distinct i j hi hj hij
  refine ⟨xs[i], xs[j], List.getElem?_eq_getElem hi, List.getElem?_eq_getElem hj, hdistinct, ?_⟩
  rintro hnames ⟨hx, hx'⟩
  have heq := h.inert hnames i _ (List.getElem?_eq_getElem hi) hx
  have heq' := h.inert hnames j _ (List.getElem?_eq_getElem hj) hx'
  rw [hy] at heq
  rw [hy'] at heq'
  cases heq
  cases heq'
  rw [hsame] at hdistinct
  cases hdistinct

/-! ### Compiled functions -/

/-- A resource that does not extend another one has the type of its family. -/
lemma textField_emitted {documents : Documents} (hdocuments : documents.WellFormed)
    (hfamilies : Families.ofDocuments documents = .ok p.families) {id : ResourceId} {body : Json}
    (hbody : documents.resource? id = some body) (hskips : p.skips id body = false)
    {family : Family} (hget : p.families.get? id = some family) :
    (p.emitted family).textField "Type" = body.textField "Type" := by
  obtain ⟨hfamily, hmember⟩ := (Families.get?_eq_some_iff hdocuments hfamilies).mp hget
  obtain ⟨fs, hroot, hresource⟩ := (Families.resolves hdocuments hfamilies hfamily).resource
  obtain ⟨rfl, -⟩ := Families.of_ofDocuments hfamilies
  have hid := (mem_emittedIds_iff hdocuments).mpr ⟨body, hbody, hskips⟩
  obtain ⟨rfl, -⟩ := (mem_emittedIds_of_mem_members hdocuments hfamilies hfamily hmember).mp hid
  cases hroot.symm.trans hbody
  rw [emitted, hresource]
  simp [Json.textField, Json.field?, Json.setField, Json.asObject?, Fields.get?_set]

/-- A compiled resource of a function type with properties that are no text was made of a
composed function. -/
lemma Makes.exists_composed {documents : Documents} (hdocuments : documents.WellFormed)
    (hfamilies : Families.ofDocuments documents = .ok p.families)
    (hp : p.keywords = builtinKeywords p.composer.schema) {name : String} {body v properties : Json}
    (hbody : documents.resource? ⟨module, name⟩ = some body) (h : p.Makes module name body v)
    (htype : p.composer.schema.isFunctionType (v.textField "Type") = true)
    (hproperties : v.field? "Properties" = some properties) (htext : properties.asString? = none) :
    ∃ (processors : Processors KeywordFailure Composing) (expanded : Json)
      (composed : ComposedFunction),
      p.setUp (fun definition => definition.processor (p.context module)) = .ok processors ∧
      p.composer.compose ⟨module, name⟩ = .ok composed ∧
      outcome (processors.value (aroundResource expanded name) composed.resource) = .ok v := by
  obtain ⟨processors, expanded, made, hsetUp, hskips, hemits, hvalue⟩ := h
  cases v with
  | object gs =>
    obtain ⟨fs, rfl, hkept⟩ :=
      kept_of_value hp hsetUp hvalue (Fields.mem_of_get? hproperties) htext
    have hmade : (Json.object gs).textField "Type" = (Json.object fs).textField "Type" :=
      textField_of_kept hp hsetUp hkept fun _ _ => by rintro ⟨⟩
    rw [hmade] at htype
    unfold Emits at hemits
    split_ifs at hemits with hfunction
    · obtain ⟨composed, hcomposed, hresource⟩ := hemits
      exact ⟨processors, expanded, composed, hsetUp, hcomposed, hresource ▸ hvalue⟩
    · obtain ⟨family, hget, hresource⟩ := hemits
      rw [hresource, textField_emitted hdocuments hfamilies hbody hskips hget] at htype
      exact absurd htype hfunction
  | _ => cases hproperties

/-- The layers of a function in a compiled module are those of the composed function, each processed
on its own. No layer of the composed function repeats another one. So two compiled layers are the
same only if they were written differently and keywords took effect in them. -/
theorem compiled_layers {documents : Documents} (hdocuments : documents.WellFormed)
    (hfamilies : Families.ofDocuments documents = .ok p.families)
    (hkeywords : p.keywords = builtinKeywords p.composer.schema) {cache : FunctionCache}
    (hcache : p.composer.Sound cache) {compiled : Json}
    (hcompiled : ((p.compile module).run.run cache).1 = .ok compiled) {key : String}
    {function : Json} (hfunction : compiled.resources.get? key = some function)
    (htype : p.composer.schema.isFunctionType (function.textField "Type") = true) {ys : List Json}
    (hlayers : p.composer.schema.layers? function = some (.array ys)) :
    ∃ name composed xs, key = p.moduleHash module ++ name ∧
      p.composer.compose ⟨module, name⟩ = .ok composed ∧
      p.composer.schema.layers? composed.resource = some (.array xs) ∧
      p.CompiledLayers module name xs ys ∧
      ∀ (i j : Nat) (y y' : Json), i < j → ys[i]? = some y → ys[j]? = some y' →
        y.same y' = true →
        ∃ x x' : Json, xs[i]? = some x ∧ xs[j]? = some x' ∧ x.same x' = false ∧
          (p.composer.schema.keywordNames.Nodup →
            ¬ (p.composer.schema.Inert x ∧ p.composer.schema.Inert x')) := by
  obtain ⟨document, hdocument⟩ := exists_document_of_compile hcompiled
  have hsource := (Families.of_ofDocuments hfamilies).1
  have hdistinct : document.resources.Distinct := by
    obtain ⟨entry, hentry, rfl⟩ := exists_entry_of_document hdocument
    rw [hsource] at hentry
    exact (hdocuments.document _ (Fields.mem_of_get? hentry)).distinct_resources
  obtain ⟨properties, hproperties, hys⟩ := Option.bind_eq_some_iff.mp hlayers
  obtain ⟨name, body, rfl, hbody, hmakes⟩ :=
    (ensures_makes hkeywords hdocument hdistinct).of_run hcache
      hcompiled key function hfunction (Json.asString?_of_field? hproperties)
  rw [← resource?_of_document hdocument, hsource] at hbody
  have htext := Json.asString?_of_field? hys
  obtain ⟨processors, expanded, composed, hsetUp, hcomposed, hvalue⟩ :=
    hmakes.exists_composed hdocuments
      hfamilies hkeywords hbody htype hproperties htext
  obtain ⟨before, hbefore, hvalue⟩ :=
    exists_field_of_value hkeywords hsetUp hvalue hproperties htext
  obtain ⟨layers, hlayers, hvalue⟩ := exists_field_of_value hkeywords hsetUp hvalue hys rfl
  obtain ⟨xs, rfl, hitems⟩ := exists_items_of_value hkeywords hsetUp hvalue
  have hxs : p.composer.schema.layers? composed.resource = some (.array xs) :=
    Option.bind_eq_some_iff.mpr ⟨before, hbefore, hlayers⟩
  have hcompiledLayers := compiledLayers_of_processed hkeywords hsetUp
    (pairwise_layers hcomposed hxs) rfl hitems
  exact ⟨name, composed, xs, rfl, hcomposed, hxs, hcompiledLayers,
    fun i j y y' hij hy hy' hsame => hcompiledLayers.of_same hij hy hy' hsame⟩

/-- Layers of a function and of a middleware. One of them is listed by both. -/
theorem compiled_layers_middleware :
    let layer (name : String) : Json := .single "Ref" (.single "resource" (.string name))
    let plain : Json := .object [("Type", .string "Layer"), ("Properties", .object [])]
    let functionBody : Json :=
      .object [("Type", .string "AWS::Serverless::Function"), ("Properties", .object
        [("CodeUri", .single "Function" (.object [("name", .string "handler"),
            ("middlewares", .array [.single "resource" (.string "auth")])])),
          ("Layers", .array [layer "one", .string "arn"])])]
    let authBody : Json := .object [("Type", .string "Middleware"), ("Properties", .object
      [("CodeUri", .single "Middleware" (.single "name" (.string "check"))),
        ("Layers", .array [layer "two", layer "one"])])]
    let resources : Fields Json :=
      [("api", functionBody), ("auth", authBody), ("one", plain), ("two", plain)]
    let p : Project :=
      { composer :=
          { families :=
              { documents := [("app", ⟨.single "Resources" (.object resources), none⟩)]
                links := resources.map fun r => ⟨⟨"app", r.1⟩, r.2, none, []⟩
                families :=
                  resources.map fun r => ⟨⟨"app", r.1⟩, [⟨"app", r.1⟩], r.2,
                    .leaf ⟨"app", r.1⟩⟩ }
            schema := .standard
            extensions := [] }
        keywords := builtinKeywords .standard
        parameters := []
        rootDir := "."
        moduleHash := fun module => module ++ "-" }
    let ys : List Json :=
      [.single "Ref" (.string "app-one"), .string "arn", .single "Ref" (.string "app-two")]
    p.families.documents.WellFormed ∧
      Families.ofDocuments p.families.documents = .ok p.families ∧
      ∃ compiled function, outcome (p.compile "app") = .ok compiled ∧
        compiled.resources.get? "app-api" = some function ∧
        p.composer.schema.isFunctionType (function.textField "Type") = true ∧
        p.composer.schema.layers? function = some (.array ys) ∧
        ∃ name composed xs, "app-api" = p.moduleHash "app" ++ name ∧
          p.composer.compose ⟨"app", name⟩ = .ok composed ∧
          p.composer.schema.layers? composed.resource = some (.array xs) ∧
          p.CompiledLayers "app" name xs ys := by
  intro layer plain functionBody authBody resources p ys
  have hdocuments : p.families.documents.WellFormed := by decide
  have hfamilies : Families.ofDocuments p.families.documents = .ok p.families := by cbv
  have hresult : (outcome (p.compile "app")).toOption.bind (fun compiled =>
      (compiled.resources.get? "app-api").bind fun function =>
        (p.composer.schema.layers? function).map fun layers =>
          (function.textField "Type", layers)) =
      some ("AWS::Serverless::Function", .array ys) := by decide +kernel
  obtain ⟨compiled, hcompiled, hresult⟩ := Option.bind_eq_some_iff.mp hresult
  obtain ⟨function, hfunction, hresult⟩ := Option.bind_eq_some_iff.mp hresult
  obtain ⟨_, hlayers, heq⟩ := Option.map_eq_some_iff.mp hresult
  obtain ⟨htype, rfl⟩ := Prod.mk.inj heq
  rw [toOption_eq_some_iff] at hcompiled
  have hfunctionType : p.composer.schema.isFunctionType (function.textField "Type") = true := by
    rw [htype]
    decide
  obtain ⟨name, composed, xs, hkey, hcomposed, hxs, hitems, -⟩ :=
    compiled_layers hdocuments hfamilies rfl sound_nil hcompiled hfunction hfunctionType hlayers
  exact ⟨hdocuments, hfamilies, compiled, function, hcompiled, hfunction, hfunctionType, hlayers,
    name, composed, xs, hkey, hcomposed, hxs, hitems⟩

/-- References to a layer and to a resource that extends it. Both become a reference to the
layer. -/
theorem compiled_layers_same_root :
    let layer (name : String) : Json := .single "Ref" (.single "resource" (.string name))
    let function : Json :=
      .object [("Type", .string "AWS::Serverless::Function"), ("Properties", .object
        [("CodeUri", .single "Function" (.single "name" (.string "handler"))),
          ("Layers", .array [layer "one", layer "more"])])]
    let one : Json := .object [("Type", .string "Layer"), ("Properties", .object [])]
    let more : Json :=
      .object [("Type", .string "Layer"), ("Extend", .single "resource" (.string "one")),
        ("Properties", .object [])]
    let p : Project :=
      { composer :=
          { families :=
              { documents := [("app", ⟨.single "Resources" (.object
                  [("api", function), ("one", one), ("more", more)]), none⟩)]
                links :=
                  [⟨⟨"app", "api"⟩, function, none, []⟩,
                    ⟨⟨"app", "one"⟩, one, none, []⟩,
                    ⟨⟨"app", "more"⟩, more, some ⟨"app", "one"⟩, []⟩]
                families :=
                  [⟨⟨"app", "api"⟩, [⟨"app", "api"⟩], function,
                      .leaf ⟨"app", "api"⟩⟩,
                    ⟨⟨"app", "one"⟩, [⟨"app", "one"⟩, ⟨"app", "more"⟩], one,
                      .leaf ⟨"app", "one"⟩⟩] }
            schema := .standard
            extensions := [] }
        keywords := builtinKeywords .standard
        parameters := []
        rootDir := "."
        moduleHash := fun module => module ++ "-" }
    let reference : Json := .single "Ref" (.string "app-one")
    p.families.documents.WellFormed ∧
      Families.ofDocuments p.families.documents = .ok p.families ∧
      (outcome (p.compile "app")).toOption = some (.single "Resources" (.object
        [("app-api", .object [("Type", .string "AWS::Serverless::Function"), ("Properties", .object
          [("CodeUri", .string "functions/app-/handler"),
            ("Layers", .array [reference, reference])])]),
        ("app-one", one)])) ∧
      p.composer.schema.isFunctionType "AWS::Serverless::Function" = true ∧
      reference.same reference = true := by
  intro layer function one more p reference
  exact ⟨by decide, by cbv, by decide +kernel, by decide, by decide⟩

end Project

end ModularTemplates
