import Mathlib.Tactic.Lemma
import ModularTemplates.Proofs.Each
import ModularTemplates.Proofs.Project.EmittedResources
import ModularTemplates.Proofs.Project.Keywords

/-!
# Compiled documents are settled

Keywords are processed once, from the inside out, and what replaces an object may itself carry the
name of a keyword. Still no keyword is left to be processed afterwards: in the compiled document
every object is settled, and processing it again changes nothing.
-/

namespace ModularTemplates

namespace Project

open Composer

variable {p : Project} {module : String}

/-! ### Everything processed is settled -/

lemma settled_single (hnames : p.composer.schema.keywordNames.Nodup)
    (href : p.composer.schema.functionKeyword ≠ "Ref") {path : Path} {keyword : String}
    {v w : Json} (h : p.Replaces module path keyword v w) (path' : Path) :
    w.EachObject (fun _ => p.composer.schema.Settled) path' := by
  obtain ⟨hparameter, hfunction, hfunction'⟩ := Schema.nodup_keywordNames_iff.mp hnames
  have hsingle : ∀ key text, key ≠ "Parameter" → key ≠ p.composer.schema.functionKeyword →
      (Json.single key (.string text)).EachObject (fun _ => p.composer.schema.Settled) path' := by
    intro key text hkey hkey'
    refine Json.eachObject_object_iff.mpr
      ⟨⟨by simpa using hkey.symm, by simpa using hkey'.symm, ?_⟩, ?_⟩
    · intro v hv
      have hmem := Fields.mem_of_get? hv
      simp only [List.mem_singleton, Prod.mk.injEq] at hmem
      exact ⟨text, hmem.2⟩
    · exact List.forall_mem_singleton.mpr (Json.eachObject_of_string text)
  cases h with
  | reference => exact hsingle _ _ hparameter hfunction
  | parameter name => exact hsingle _ _ (by decide) href.symm
  | code => exact Json.eachObject_of_string _

/-- An object becomes settled throughout if its fields are. -/
lemma Becomes.settled (hnames : p.composer.schema.keywordNames.Nodup)
    (href : p.composer.schema.functionKeyword ≠ "Ref") {path : Path} {gs : Fields Json} {w : Json}
    (h : p.Becomes module path gs w)
    (hfields : ∀ field ∈ gs, field.2.EachObject (fun _ => p.composer.schema.Settled) []) :
    w.EachObject (fun _ => p.composer.schema.Settled) [] := by
  cases h with
  | kept hkept =>
    exact Json.eachObject_object_iff.mpr ⟨Schema.effective_eq_nil_iff.mp hkept,
      fun field hfield => (hfields field hfield).anywhere _⟩
  | replaced _ hw => exact settled_single hnames href hw []

mutual
lemma ensures_settled (hp : p.keywords = builtinKeywords p.composer.schema)
    (hnames : p.composer.schema.keywordNames.Nodup)
    (href : p.composer.schema.functionKeyword ≠ "Ref") (above : List Crumb) (v : Json) :
    p.composer.Ensures ((p.builtinProcessors module).value above v)
      (fun w => w.EachObject (fun _ => p.composer.schema.Settled) []) Interruption.Final := by
  match v with
  | .object fs =>
    refine (ensures_object_exact hp hnames
      (ensures_settled_fields hp hnames href (.object fs) above fs) fun gs hgs => hgs.1).mono ?_ ?_
    · rintro w ⟨gs, ⟨-, hgs⟩, hw⟩
      exact hw.settled hnames href hgs
    · rintro e (he | ⟨he, -⟩)
      · exact he
      · exact he.final
  | .array xs =>
    rw [Processors.value]
    refine (ensures_settled_items hp hnames href (.array xs) above 0 xs).bind fun ys hys =>
      ensures_pure ?_
    refine Json.eachObject_array_iff.mpr fun i y hy => ?_
    exact (hys y (List.mem_of_getElem? hy)).anywhere _
  | .null | .bool _ | .number _ | .string _ =>
    rw [Processors.value]
    · exact ensures_pure (by simp [Json.EachObject, Json.Each])
    all_goals simp

lemma ensures_settled_fields (hp : p.keywords = builtinKeywords p.composer.schema)
    (hnames : p.composer.schema.keywordNames.Nodup)
    (href : p.composer.schema.functionKeyword ≠ "Ref") (parent : Json) (above : List Crumb)
    (fs : List (String × Json)) :
    p.composer.Ensures ((p.builtinProcessors module).fields parent above fs)
      (fun gs => Fields.keys gs = Fields.keys fs ∧
        ∀ field ∈ gs, field.2.EachObject (fun _ => p.composer.schema.Settled) [])
      Interruption.Final := by
  match fs with
  | [] =>
    rw [Processors.fields]
    exact ensures_pure (by simp)
  | (k, v) :: fs =>
    rw [Processors.fields]
    refine (ensures_settle (ensures_settled hp hnames href (⟨.key k, parent⟩ :: above) v)).bind
      fun w hw => ?_
    refine (ensures_settled_fields hp hnames href parent above fs).bind fun gs hgs =>
      ensures_pure ?_
    exact ⟨by rw [Fields.keys_cons, Fields.keys_cons, hgs.1],
      List.forall_mem_cons.mpr ⟨hw, hgs.2⟩⟩

lemma ensures_settled_items (hp : p.keywords = builtinKeywords p.composer.schema)
    (hnames : p.composer.schema.keywordNames.Nodup)
    (href : p.composer.schema.functionKeyword ≠ "Ref") (parent : Json) (above : List Crumb)
    (i : Nat) (xs : List Json) :
    p.composer.Ensures ((p.builtinProcessors module).items parent above i xs)
      (fun ys => ∀ y ∈ ys, y.EachObject (fun _ => p.composer.schema.Settled) [])
      Interruption.Final := by
  match xs with
  | [] =>
    rw [Processors.items]
    exact ensures_pure (by simp)
  | x :: xs =>
    rw [Processors.items]
    refine (ensures_settle
      (ensures_settled hp hnames href (⟨.index i, parent⟩ :: above) x)).bind
      fun y hy => ?_
    refine (ensures_settled_items hp hnames href parent above (i + 1) xs).bind fun ys hys => ?_
    exact ensures_pure (List.forall_mem_cons.mpr ⟨hy, hys⟩)
end

/-! ### Names of processed resources -/

lemma local_builtinProcessors (hp : p.keywords = builtinKeywords p.composer.schema)
    (hnames : p.composer.schema.keywordNames.Nodup) :
    (p.builtinProcessors module).Local p.composer :=
  local_of_builtin hp (setUp_builtinProcessors hp hnames module)

/-- What replaces an object holds no object. -/
lemma Replaces.field?_ne_object {path : Path} {keyword : String} {v w : Json}
    (h : p.Replaces module path keyword v w) (key : String) (fs : Fields Json) :
    w.field? key ≠ some (.object fs) := by
  have hsingle : ∀ key' text,
      (Json.single key' (.string text)).field? key ≠ some (.object fs) := by
    intro key' text hfield
    have hmem : (key, Json.object fs) ∈ [(key', Json.string text)] := Fields.mem_of_get? hfield
    simp at hmem
  cases h with
  | reference => exact hsingle _ _
  | parameter => exact hsingle _ _
  | code => exact fun hfield => by cases hfield

/-- The object of the resources of a document gets no new names. -/
lemma ensures_resource_names (hp : p.keywords = builtinKeywords p.composer.schema)
    (hnames : p.composer.schema.keywordNames.Nodup) {document : Json} {resources : Fields Json}
    (hobjects : ∀ r ∈ resources, ∃ fs, r.2 = .object fs) :
    p.composer.Ensures
      ((p.builtinProcessors module).value [⟨.key "Resources", document⟩] (.object resources))
      (fun w => ∀ rs, w = .object rs →
        Fields.keys rs ⊆ resources.keys) Interruption.Final := by
  have hfields : p.composer.Ensures ((p.builtinProcessors module).fields (.object resources)
      [⟨.key "Resources", document⟩] resources)
      (Fields.Kept (fun _ w => ∃ fs, w = .object fs) resources) Interruption.Final := by
    refine ensures_each_field fun r hr => ?_
    obtain ⟨fs, hfs⟩ := hobjects r hr
    rw [hfs]
    exact ensures_object_of_builtin hp (setUp_builtinProcessors hp hnames module)
      fun resource => by rintro ⟨⟩
  refine (ensures_object_exact hp hnames hfields fun gs hgs => hgs.keys_eq).mono ?_ ?_
  · rintro w ⟨gs, hgs, hw⟩ rs rfl
    cases hw with
    | kept => exact hgs.keys_eq ▸ List.Subset.refl _
    | replaced hone hw =>
      rename_i keyword
      have hkeyword : keyword ∈ gs.keys := by
        have hmem : keyword ∈ p.composer.schema.effective gs := by simp [hone]
        exact List.mem_of_mem_filter hmem
      rcases replaces_iff.mp hw
        with ⟨-, -, name, -, hsingle⟩ | ⟨-, name, hname, -⟩ | ⟨-, _, _, -, -, hcode⟩
      · cases hsingle
        simpa [hgs.keys_eq] using hkeyword
      · -- the value is a processed resource and no text
        obtain ⟨body, hbody⟩ := Fields.mem_keys_iff.mp (hgs.keys_eq ▸ hkeyword)
        obtain ⟨_, hafter, fs, rfl⟩ := hgs.exists_of_get? hbody
        rw [hafter] at hname
        cases hname
      · cases hcode
  · rintro e (he | ⟨he, -⟩)
    · exact he
    · exact he.final

/-- A processed document has no resources but those that it had before. -/
lemma ensures_names (hp : p.keywords = builtinKeywords p.composer.schema)
    (hnames : p.composer.schema.keywordNames.Nodup) {document : Json}
    (hobjects : ∀ r ∈ document.resources, ∃ fs, r.2 = .object fs) :
    p.composer.Ensures ((p.builtinProcessors module).value [] document)
      (fun w => ∀ rs, w.field? "Resources" = some (.object rs) →
        Fields.keys rs ⊆ document.resources.keys)
      Interruption.Final := by
  have hlocal : (p.builtinProcessors module).Local p.composer := local_builtinProcessors hp hnames
  cases document with
  | object fs =>
    have hfields : p.composer.Ensures ((p.builtinProcessors module).fields (.object fs) [] fs)
        (Fields.Kept (fun field w => field.1 = "Resources" →
          Fields.get? fs "Resources" = some field.2 →
          ∀ rs, w = .object rs → Fields.keys rs ⊆ (Json.resources (.object fs)).keys) fs)
        Interruption.Final := by
      refine ensures_each_field fun field _ => ?_
      obtain ⟨k, v⟩ := field
      by_cases hk : k = "Resources" ∧ Fields.get? fs "Resources" = some v
      · obtain ⟨rfl, hv⟩ := hk
        cases v with
        | object resources =>
          have hresources : Json.resources (.object fs) = resources := resources_of_object hv
          rw [hresources] at hobjects ⊢
          exact (ensures_resource_names hp hnames hobjects).mono (fun w hw _ _ => hw) fun _ he => he
        | _ =>
          refine (ensures_no_object hlocal _ rfl).mono ?_ fun _ he => he
          rintro w hw - - rs rfl
          cases hw
      · refine (ensures_value hlocal _ v).mono (fun w _ hkey hv => ?_) fun _ he => he
        exact absurd ⟨hkey, hv⟩ hk
    refine (ensures_object_exact hp hnames hfields fun gs hgs => hgs.keys_eq).mono ?_ ?_
    · rintro w ⟨gs, hgs, hw⟩ rs hrs
      cases hw with
      | kept =>
        obtain ⟨v, hv, hgood⟩ := hgs.exists_before hrs
        exact hgood rfl hv rs rfl
      | replaced _ hw => exact absurd hrs (hw.field?_ne_object "Resources" rs)
    · rintro e (he | ⟨he, -⟩)
      · exact he
      · exact he.final
  | _ =>
    refine (ensures_no_object hlocal [] rfl).mono ?_ fun _ he => he
    intro w hw rs hrs
    rw [Json.field?, hw] at hrs
    cases hrs

/-! ### Renaming -/

lemma settled_rename {module : String} {rs : Fields Json}
    (hrs : (Json.object rs).EachObject (fun _ => p.composer.schema.Settled) [])
    (hids : ∀ r ∈ rs.keys,
      p.services.logicalId ⟨module, r⟩ ∉ p.composer.schema.keywordNames) :
    (Json.object (p.rename module rs)).EachObject (fun _ => p.composer.schema.Settled) [] := by
  have hkeys : ∀ key ∈ (p.rename module rs).keys, key ∉ p.composer.schema.keywordNames := by
    intro key hkey
    obtain ⟨r, hr, rfl⟩ := mem_keys_rename_iff.mp hkey
    exact hids r hr
  have hkeyword : ∀ key ∈ p.composer.schema.keywordNames, key ∉ (p.rename module rs).keys :=
    fun key hkeyword hkey => hkeys key hkey hkeyword
  refine Json.eachObject_object_iff.mpr ⟨⟨?_, ?_, fun v hv => ?_⟩, fun field hfield => ?_⟩
  · exact hkeyword _ (by simp [Schema.keywordNames])
  · exact hkeyword _ (by simp [Schema.keywordNames])
  · exact absurd (Fields.mem_keys_of_get? hv) (hkeyword _ (by simp [Schema.keywordNames]))
  · obtain ⟨r, hr, rfl⟩ := mem_rename hfield
    exact ((Json.eachObject_object_iff.mp hrs).2 r hr).anywhere _

/-- Renaming resources to names that are no keywords leaves a document settled. -/
lemma settled_renameDocument {module : String} {processed : Json}
    (hprocessed : processed.EachObject (fun _ => p.composer.schema.Settled) [])
    (hids : ∀ rs, processed.field? "Resources" = some (.object rs) → ∀ r ∈ Fields.keys rs,
      p.services.logicalId ⟨module, r⟩ ∉ p.composer.schema.keywordNames) :
    (p.renameDocument module processed).EachObject (fun _ => p.composer.schema.Settled) [] := by
  unfold renameDocument
  split
  · rename_i rs hrs
    cases processed with
    | object fs =>
      obtain ⟨htop, hfields⟩ := Json.eachObject_object_iff.mp hprocessed
      have hget : Fields.get? fs "Resources" = some (.object rs) := hrs
      have hsettled := (hfields _ (Fields.mem_of_get? hget)).anywhere []
      refine hprocessed.set ((settled_rename hsettled (hids rs hrs)).anywhere _) ?_
      have hkeys := Fields.keys_set_of_mem (Fields.mem_keys_of_get? hget)
        (.object (p.rename module rs))
      refine ⟨by rw [hkeys]; exact htop.parameter, by rw [hkeys]; exact htop.function,
        fun v hv => ?_⟩
      rw [Fields.get?_set] at hv
      split_ifs at hv with hreference
      · -- the resources are an object and so the keyword is not their name
        obtain ⟨s, hs⟩ := htop.reference _ (hreference ▸ hget)
        cases hs
      · exact htop.reference v hv
    | _ => cases hrs
  · exact hprocessed

/-! ### Nothing is left to be processed -/

lemma answers_of_settled (hp : p.keywords = builtinKeywords p.composer.schema)
    (hnames : p.composer.schema.keywordNames.Nodup) (module : String) (node : Node)
    {gs : Fields Json} {fs : List (String × Json)}
    (h : ∀ key ∈ Fields.keys fs, p.composer.schema.takesEffect gs key = false) :
    answers (p.builtinProcessors module) node gs fs = pure [] := by
  induction fs with
  | nil => rfl
  | cons field fs ih =>
    obtain ⟨k, v⟩ := field
    have hrest := ih fun key hkey => h key (List.mem_cons_of_mem _ hkey)
    have hk := h k List.mem_cons_self
    rw [answers, hrest]
    split
    · rfl
    · rename_i processor hprocessor
      rw [Bool.eq_false_iff, ne_eq, Schema.takesEffect_iff, not_or, not_or] at hk
      obtain ⟨rfl, rfl⟩ | ⟨rfl, rfl⟩ | ⟨rfl, rfl⟩ :=
        builtin_of_setUp hp (setUp_builtinProcessors hp hnames module) hprocessor
      · have hstring :
            ((Fields.get? gs p.composer.schema.referenceKeyword).getD .null).asString? ≠ none :=
          fun hnone => hk.2.2 ⟨rfl, hnone⟩
        cases hvalue : (Fields.get? gs p.composer.schema.referenceKeyword).getD .null with
        | string s => rfl
        | _ =>
          rw [hvalue] at hstring
          exact absurd rfl hstring
      · exact absurd rfl hk.1
      · exact absurd rfl hk.2.1

mutual
lemma value_of_settled (hp : p.keywords = builtinKeywords p.composer.schema)
    (hnames : p.composer.schema.keywordNames.Nodup) (module : String) (above : List Crumb)
    {path : Path} {v : Json} (h : v.EachObject (fun _ => p.composer.schema.Settled) path) :
    (p.builtinProcessors module).value above v = pure v := by
  match v with
  | .object fs =>
    obtain ⟨hsettled, hfields⟩ := Json.eachObject_object_iff.mp h
    have heffective := Schema.effective_eq_nil_iff.mpr hsettled
    rw [Schema.effective, List.filter_eq_nil_iff] at heffective
    rw [Processors.value, fields_of_settled hp hnames module (.object fs) above hfields, pure_bind,
      answers_of_settled hp hnames module _ fun key hkey => by simpa using heffective key hkey]
    rfl
  | .array xs =>
    have hitems : ∀ x ∈ xs, x.EachObject (fun _ => p.composer.schema.Settled) path := by
      intro x hx
      obtain ⟨i, hi⟩ := List.mem_iff_getElem?.mp hx
      exact (Json.eachObject_array_iff.mp h i x hi).anywhere path
    rw [Processors.value, items_of_settled hp hnames module (.array xs) above 0 hitems]
    rfl
  | .null | .bool _ | .number _ | .string _ =>
    rw [Processors.value]
    all_goals simp

lemma fields_of_settled (hp : p.keywords = builtinKeywords p.composer.schema)
    (hnames : p.composer.schema.keywordNames.Nodup) (module : String) (parent : Json)
    (above : List Crumb) {path : Path} {fs : List (String × Json)}
    (h : ∀ field ∈ fs, field.2.EachObject (fun _ => p.composer.schema.Settled)
      (path ++ [.key field.1])) :
    (p.builtinProcessors module).fields parent above fs = pure fs := by
  match fs with
  | [] => rw [Processors.fields]
  | (k, v) :: fs =>
    rw [List.forall_mem_cons] at h
    rw [Processors.fields, value_of_settled hp hnames module _ h.1,
      fields_of_settled hp hnames module parent above h.2]
    rfl

lemma items_of_settled (hp : p.keywords = builtinKeywords p.composer.schema)
    (hnames : p.composer.schema.keywordNames.Nodup) (module : String) (parent : Json)
    (above : List Crumb) (i : Nat) {path : Path} {xs : List Json}
    (h : ∀ x ∈ xs, x.EachObject (fun _ => p.composer.schema.Settled) path) :
    (p.builtinProcessors module).items parent above i xs = pure xs := by
  match xs with
  | [] => rw [Processors.items]
  | x :: xs =>
    rw [List.forall_mem_cons] at h
    rw [Processors.items, value_of_settled hp hnames module _ h.1,
      items_of_settled hp hnames module parent above (i + 1) h.2]
    rfl
end

/-- Processing a settled document changes nothing. -/
lemma processKeywords_of_settled (hp : p.keywords = builtinKeywords p.composer.schema)
    (hnames : p.composer.schema.keywordNames.Nodup) (module : String) {v : Json}
    (h : v.EachObject (fun _ => p.composer.schema.Settled) []) :
    processKeywords (p.builtinProcessors module) v = pure v := by
  rw [processKeywords, value_of_settled hp hnames module [] h]
  rfl

/-! ### Compiled documents -/

lemma ensures_expanded_resources
    (hobjects : ∀ family ∈ p.families.families, ∃ fs, family.resource = .object fs)
    (document : Json) : p.composer.Ensures (p.expandDocument module document)
      (fun expanded => expanded.resources.keys ⊆ document.resources.keys ∧
        ∀ r ∈ expanded.resources, ∃ fs, r.2 = .object fs)
      fun _ => True := by
  refine ensures_expandDocument (fun resources hresources => ?_) fun hresources => ?_
  · refine (ensures_expand hobjects module resources).mono
      (fun kept hkept => ?_) fun _ _ => trivial
    have hobject : (document.setField "Resources" (.object kept)).resources = kept :=
      resources_of_object (by rw [Json.field?_setField hresources, if_pos rfl])
    rw [hobject, hkept.1, resources_of_object hresources]
    exact ⟨(List.filter_sublist.map Prod.fst).subset, hkept.2⟩
  · rw [resources_eq_nil hresources]
    simp

lemma ensures_settled_compiled (hp : p.keywords = builtinKeywords p.composer.schema)
    (hnames : p.composer.schema.keywordNames.Nodup)
    (href : p.composer.schema.functionKeyword ≠ "Ref")
    (hobjects : ∀ family ∈ p.families.families, ∃ fs, family.resource = .object fs)
    {document : Json} (hdocument : p.document module = .ok document)
    (hids : ∀ r ∈ document.resources.keys,
      p.services.logicalId ⟨module, r⟩ ∉ p.composer.schema.keywordNames) :
    p.composer.Ensures (p.compile module)
      (fun compiled => compiled.EachObject (fun _ => p.composer.schema.Settled) []) fun _ =>
        True := by
  refine ensures_of_steps hdocument (ensures_expanded_resources hobjects document) ?_
  rintro expanded ⟨hkeys, hresources⟩
  refine ensures_of_value fun processors hsetUp => ?_
  cases (setUp_builtinProcessors hp hnames module).symm.trans hsetUp
  refine ((ensures_settled hp hnames href [] expanded).and
    (ensures_names hp hnames hresources)).mono
    (fun processed hprocessed => ?_) fun _ he => he.1
  exact settled_renameDocument hprocessed.1 fun rs hrs r hr =>
    hids r (hkeys (hprocessed.2 rs hrs hr))

/-- No keyword survives compilation: no object of a compiled document holds a parameter or
code, every reference in it is by name, and processing the keywords of the document again
changes nothing. -/
theorem no_keyword_survives {documents : Documents} (hdocuments : documents.WellFormed)
    (hfamilies : Families.ofDocuments documents = .ok p.families)
    (hkeywords : p.keywords = builtinKeywords p.composer.schema)
    (hnames : p.composer.schema.keywordNames.Nodup)
    (href : p.composer.schema.functionKeyword ≠ "Ref")
    (hids : ∀ id ∈ documents.ids, p.services.logicalId id ∉ p.composer.schema.keywordNames)
    {module : String} {cache : FunctionCache} (hcache : p.composer.Sound cache) {compiled : Json}
    (hcompiled : ((p.compile module).run.run cache).1 = .ok compiled) :
    compiled.EachObject (fun _ => p.composer.schema.Settled) [] ∧
    ∃ processors : Processors KeywordFailure Composing,
      p.setUp (fun definition => definition.processor (p.context module)) = .ok processors ∧
      processKeywords processors compiled = pure compiled := by
  have hobjects : ∀ family ∈ p.families.families, ∃ fs, family.resource = .object fs := by
    intro family hfamily
    obtain ⟨fs, -, hresource⟩ := (Families.resolves hdocuments hfamilies hfamily).resource
    exact ⟨_, hresource⟩
  obtain ⟨document, hdocument⟩ := exists_document_of_compile hcompiled
  have hnotKeyword : ∀ r ∈ document.resources.keys,
      p.services.logicalId ⟨module, r⟩ ∉ p.composer.schema.keywordNames := by
    intro r hr
    refine hids _ ?_
    rw [Project.document, (Families.of_ofDocuments hfamilies).1] at hdocument
    split at hdocument
    · rename_i entry hentry
      cases hdocument
      rw [Documents.ids_eq]
      exact List.mem_flatMap.mpr
        ⟨_, Fields.mem_of_get? hentry, List.mem_map.mpr ⟨r, hr, rfl⟩⟩
    · cases hdocument
  have hsettled :=
    (ensures_settled_compiled hkeywords hnames href hobjects hdocument hnotKeyword).of_run
      hcache hcompiled
  exact ⟨hsettled, _, setUp_builtinProcessors hkeywords hnames module,
    processKeywords_of_settled hkeywords hnames module hsettled⟩

/-- A function with code, a parameter, and a reference in a list. -/
theorem no_keyword_survives_function :
    let apiBody : Json :=
      .object [("Type", .string "AWS::Serverless::Function"), ("Properties", .object
        [("CodeUri", .object [("Function", .object [("name", .string "api")])]),
          ("Stage", .object [("Parameter", .string "Stage")]),
          ("Tables", .array [.object [("Ref", .object [("resource", .string "table")])]])])]
    let tableBody : Json := .object [("Type", .string "Table"), ("Properties", .object [])]
    let api : ResourceId := ⟨"app", "api"⟩
    let table : ResourceId := ⟨"app", "table"⟩
    let p : Project :=
      { composer :=
          { families :=
              { documents := [("app", ⟨.object [("Resources", .object
                  [("api", apiBody), ("table", tableBody)])], none⟩)]
                links := [⟨api, apiBody, none, []⟩, ⟨table, tableBody, none, []⟩]
                families :=
                  [⟨api, [api], apiBody, .leaf api⟩,
                    ⟨table, [table], tableBody, .leaf table⟩] }
            schema := .standard
            extensions := [] }
        keywords := builtinKeywords .standard
        parameters := ["Stage"]
        rootDir := "."
        moduleHash := fun module => module ++ "-" }
    let compiled : Json := .object [("Resources", .object
      [("app-api", .object [("Type", .string "AWS::Serverless::Function"), ("Properties", .object
        [("CodeUri", .string "functions/app-/api"), ("Stage", .single "Ref" (.string "Stage")),
          ("Tables", .array [.single "Ref" (.string "app-table")])])]),
        ("app-table", .object [("Type", .string "Table"), ("Properties", .object [])])])]
    p.families.documents.WellFormed ∧
      Families.ofDocuments p.families.documents = .ok p.families ∧
      p.composer.schema.keywordNames.Nodup ∧ p.composer.schema.functionKeyword ≠ "Ref" ∧
      (∀ id ∈ p.families.documents.ids,
        p.services.logicalId id ∉ p.composer.schema.keywordNames) ∧
      outcome (p.compile "app") = .ok compiled ∧
      compiled.EachObject (fun _ => p.composer.schema.Settled) [] := by
  intro apiBody tableBody api table p compiled
  have hdocuments : p.families.documents.WellFormed := by decide
  have hfamilies : Families.ofDocuments p.families.documents = .ok p.families := by cbv
  have hnames : p.composer.schema.keywordNames.Nodup := by decide
  have href : p.composer.schema.functionKeyword ≠ "Ref" := by decide
  have hids : ∀ id ∈ p.families.documents.ids,
      p.services.logicalId id ∉ p.composer.schema.keywordNames := by decide
  have hcompiled : outcome (p.compile "app") = .ok compiled := by
    have hsome : (outcome (p.compile "app")).toOption = some compiled := by decide +kernel
    cases h : outcome (p.compile "app") with
    | error e =>
      rw [h] at hsome
      cases hsome
    | ok v =>
      rw [h] at hsome
      cases hsome
      rfl
  exact ⟨hdocuments, hfamilies, hnames, href, hids, hcompiled,
    (no_keyword_survives hdocuments hfamilies rfl hnames href hids sound_nil hcompiled).1⟩

end Project

end ModularTemplates
