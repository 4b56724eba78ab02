import Mathlib.Tactic.Lemma
import ModularTemplates.Proofs.Project.History
import ModularTemplates.Proofs.Project.References

/-!
# Emitted resources

A document passes through three rebuilds when its module is compiled, and no resource gets lost
or doubled on the way, as long as no keyword stands at the top of the document or among its
resources. The resources that are left out are exactly those that are no roots of families, and
the middlewares.
-/

namespace ModularTemplates

/-! ### Objects without keywords -/

namespace Project

open Composer

variable {p : Project} {module : String} {processors : Processors KeywordFailure Composing}

lemma ask_of_builtin (hp : p.keywords = builtinKeywords p.composer.schema)
    (h : p.setUp (fun definition => definition.processor (p.context module)) = .ok processors) :
    processors.Ask p.composer := by
  intro keyword processor hprocessor
  obtain ⟨definition, hmem, -, hmake⟩ := exists_of_setUp h hprocessor
  exact fun name => stateless_of_builtin hp definition hmem module processor hmake name

lemma ensures_outcome (hp : p.keywords = builtinKeywords p.composer.schema)
    (h : p.setUp (fun definition => definition.processor (p.context module)) = .ok processors)
    (above : List Crumb) (v : Json) :
    p.composer.Ensures (processors.value above v)
      (fun w => outcome (processors.value above v) = .ok w)
      Interruption.Final := by
  refine ((asking_value (ask_of_builtin hp h) above v).ensures.and
    (ensures_value (local_of_builtin hp h) above v)).mono ?_ ?_
  · exact fun w hw => hw.1
  · exact fun e he => he.2

/-- `KeptAt processors above fs gs`: every field of `gs` is what processing makes of the field of
`fs` in its place. -/
def KeptAt (processors : Processors KeywordFailure Composing) (above : List Crumb)
    (fs gs : Fields Json) : Prop :=
  Fields.Kept (fun field v =>
    outcome (processors.value (⟨.key field.1, .object fs⟩ :: above) field.2) = .ok v) fs gs

/-- An object without a keyword keeps its fields, and the value of each of them is
processed on its own. -/
lemma ensures_keyword_free_object (hp : p.keywords = builtinKeywords p.composer.schema)
    (h : p.setUp (fun definition => definition.processor (p.context module)) = .ok processors)
    {above : List Crumb} {fs : Fields Json}
    (hfree : ∀ definition ∈ p.keywords, definition.keyword ∉ fs.keys) :
    p.composer.Ensures (processors.value above (.object fs))
      (fun w => ∃ gs, KeptAt processors above fs gs ∧ w = .object gs) Interruption.Final := by
  refine ensures_kept_object (ensures_each_field fun field _ => ensures_outcome hp h _ field.2) ?_
  intro processed _ keyword processor hkeyword hprocessor
  obtain ⟨definition, hmem, rfl, -⟩ := exists_of_setUp h hprocessor
  exact absurd hkeyword (hfree definition hmem)

/-- What is no object does not become one. -/
lemma ensures_no_object {c : Composer} {ε : Type} {ps : Processors ε Composing} (hps : ps.Local c)
    (above : List Crumb) {v : Json} (hv : v.asObject? = none) :
    c.Ensures (ps.value above v) (fun w => w.asObject? = none) Interruption.Final := by
  cases v with
  | object fs => cases hv
  | array xs =>
    rw [Processors.value]
    exact (ensures_items hps (.array xs) above 0 xs).bind fun _ _ => ensures_pure rfl
  | null | bool _ | number _ | string _ =>
    rw [Processors.value]
    · exact ensures_pure rfl
    all_goals simp

/-! ### Documents without keywords -/

/-- Neither the document nor the object of its resources has a property named like a keyword. -/
structure KeywordFree (p : Project) (document : Json) : Prop where
  top : ∀ definition ∈ p.keywords, document.field? definition.keyword = none
  resources : ∀ definition ∈ p.keywords, document.resources.get? definition.keyword = none

instance (p : Project) (document : Json) : Decidable (p.KeywordFree document) :=
  decidable_of_iff
    ((∀ definition ∈ p.keywords, document.field? definition.keyword = none) ∧
      ∀ definition ∈ p.keywords, document.resources.get? definition.keyword = none)
    ⟨fun h => ⟨h.1, h.2⟩, fun h => ⟨h.top, h.resources⟩⟩

/-- The containers around a resource of a document. -/
def aroundResource (document : Json) (name : String) : List Crumb :=
  [⟨.key name, .object document.resources⟩, ⟨.key "Resources", document⟩]

/-- `p.Processed module document after`: every resource of the document keeps its name and becomes
what keyword processing makes of it in its place. -/
def Processed (p : Project) (module : String) (document : Json) (after : Fields Json) : Prop :=
  ∃ processors : Processors KeywordFailure Composing,
    p.setUp (fun definition => definition.processor (p.context module)) = .ok processors ∧
    Fields.Kept (fun field v =>
      outcome (processors.value (aroundResource document field.1) field.2) = .ok v)
      document.resources after

lemma resources_of_object {document : Json} {fs : Fields Json}
    (h : document.field? "Resources" = some (.object fs)) : document.resources = fs := by
  rw [Json.resources, h]
  rfl

lemma resources_of_no_object {document : Json}
    (h : ∀ v, document.field? "Resources" = some v → v.asObject? = none) :
    document.resources = [] := by
  unfold Json.resources
  cases hfield : document.field? "Resources" with
  | none => rfl
  | some v => rw [Option.bind_some, h v hfield, Option.getD_none]

lemma resources_eq_nil {document : Json}
    (h : ∀ fs, document.field? "Resources" ≠ some (.object fs)) : document.resources = [] := by
  refine resources_of_no_object fun v hv => ?_
  cases v with
  | object fs => exact absurd hv (h fs)
  | _ => rfl

/-- If the fields of a document are processed one by one, so are its resources. -/
lemma processed_of_kept (hp : p.keywords = builtinKeywords p.composer.schema)
    (h : p.setUp (fun definition => definition.processor (p.context module)) = .ok processors)
    {fs gs : Fields Json} (hfree : p.KeywordFree (.object fs))
    (hkept : KeptAt processors [] fs gs) :
    p.Processed module (.object fs) (Json.resources (.object gs)) := by
  refine ⟨processors, h, ?_⟩
  by_cases hobject : ∃ rs, Json.field? (.object fs) "Resources" = some (.object rs)
  · obtain ⟨rs, hrs⟩ := hobject
    obtain ⟨w, hw, hvalue⟩ := hkept.exists_of_get? hrs
    have hresources := resources_of_object hrs
    have hkeys : ∀ definition ∈ p.keywords, definition.keyword ∉ Fields.keys rs := by
      intro definition hmem
      rw [← Fields.get?_eq_none_iff, ← hresources]
      exact hfree.resources definition hmem
    obtain ⟨rs', hkept', rfl⟩ :=
      (ensures_keyword_free_object hp h hkeys).of_run sound_nil hvalue
    have hresources' : Json.resources (.object gs) = rs' := resources_of_object hw
    rw [hresources', hresources]
    simpa only [KeptAt, aroundResource, hresources] using hkept'
  · have hnone : ∀ v, Json.field? (.object fs) "Resources" = some v → v.asObject? = none := by
      intro v hv
      cases v with
      | object rs => exact absurd ⟨rs, hv⟩ hobject
      | _ => rfl
    have hnone' : ∀ w, Json.field? (.object gs) "Resources" = some w → w.asObject? = none := by
      intro w hw
      obtain ⟨v, hv, hvalue⟩ := hkept.exists_before hw
      exact (ensures_no_object (local_of_builtin hp h) _ (hnone v hv)).of_run sound_nil hvalue
    rw [resources_of_no_object hnone, resources_of_no_object hnone']
    exact .nil

/-- The resources of a document without keywords are processed one by one. -/
lemma ensures_process_keyword_free (hp : p.keywords = builtinKeywords p.composer.schema)
    {document : Json} (hfree : p.KeywordFree document) :
    p.composer.Ensures (p.processDocument module document)
      (fun processed => p.Processed module document processed.resources) fun _ => True := by
  refine ensures_of_value fun processors h => ?_
  cases document with
  | object fs =>
    refine (ensures_keyword_free_object hp h ?_).mono ?_ fun _ he => he
    · exact fun definition hmem => Fields.get?_eq_none_iff.mp (hfree.top definition hmem)
    · rintro _ ⟨gs, hkept, rfl⟩
      exact processed_of_kept hp h hfree hkept
  | _ =>
    refine (ensures_no_object (local_of_builtin hp h) [] rfl).mono ?_ fun _ he => he
    intro w hw
    have hnone : ∀ v, w.field? "Resources" = some v → v.asObject? = none := by
      intro v hv
      rw [Json.field?, hw] at hv
      cases hv
    rw [resources_of_no_object hnone]
    exact ⟨processors, h, .nil⟩

/-! ### From the document to the compiled one -/

/-- What is emitted for a resource before its keywords are processed: the composed function, or the
resource of the family with its properties qualified. -/
def Emits (p : Project) (id : ResourceId) (body made : Json) : Prop :=
  if p.composer.schema.isFunctionType (body.textField "Type") = true then
    ∃ composed, p.composer.compose id = .ok composed ∧ made = composed.resource
  else
    ∃ family, p.families.get? id = some family ∧ made = p.emitted family

/-- A resource is expanded unless its function can not be composed. -/
lemma ensures_emits {id : ResourceId} {body : Json} (hskips : p.skips id body = false) :
    p.composer.Ensures (p.expandResource id body)
      (fun expanded => ∃ made, expanded = some made ∧ p.Emits id body made)
      fun e => (∃ cause, e = .function cause) ∨ p.families.get? id = none := by
  unfold Emits
  cases htype : p.composer.schema.isFunctionType (body.textField "Type") with
  | true =>
    rw [expandResource_of_function hskips htype]
    have hfunction :
      p.composer.Ensures (ExceptT.adapt ProjectError.function (p.composer.function id))
        (fun composed => p.composer.compose id = .ok composed)
        fun e => (∃ cause, e = .function cause) ∨ p.families.get? id = none :=
      Ensures.adapt ((p.composer.ensures_function id).mono (fun _ h => h) fun cause _ =>
        .inl ⟨cause, rfl⟩)
    refine hfunction.bind fun composed hcomposed => ensures_pure ?_
    exact ⟨_, rfl, by simpa using ⟨composed, hcomposed, rfl⟩⟩
  | false =>
    rw [expandResource_of_other hskips htype]
    split
    · rename_i hfamily
      exact ensures_throw (.inr hfamily)
    · rename_i family hfamily
      exact ensures_pure ⟨_, rfl, by simpa using ⟨family, hfamily, rfl⟩⟩

/-- The resources that are not left out keep their order. -/
lemma ensures_expand_kept (module : String) (resources : Fields Json) :
    p.composer.Ensures (p.expand module resources)
      (Fields.Kept (fun field made => p.Emits ⟨module, field.1⟩ field.2 made)
        (p.emittedAmong module resources))
      fun e => (∃ cause, e = .function cause) ∨
        ∃ name ∈ resources.keys, p.families.get? ⟨module, name⟩ = none := by
  induction resources with
  | nil => exact ensures_pure .nil
  | cons r resources ih =>
    obtain ⟨name, body⟩ := r
    have hrest := ih.mono (fun _ h => h) fun e he => he.imp id fun ⟨other, hother, hnone⟩ =>
      (⟨other, List.mem_cons_of_mem name hother, hnone⟩ :
        ∃ other ∈ Fields.keys ((name, body) :: resources),
          p.families.get? ⟨module, other⟩ = none)
    rw [expand, emittedAmong, List.filter_cons]
    cases hskips : p.skips ⟨module, name⟩ body with
    | true =>
      rw [expandResource_of_skips hskips, pure_bind]
      exact hrest.bind fun rest hkept => ensures_pure (by simpa [emittedAmong] using hkept)
    | false =>
      refine ((ensures_emits hskips).mono (fun _ h => h) fun e he => he.imp id fun hnone =>
        ⟨name, List.mem_cons_self, hnone⟩).bind fun expanded hexpanded =>
          hrest.bind fun rest hkept => ?_
      obtain ⟨made, rfl, hmade⟩ := hexpanded
      exact ensures_pure (.cons ⟨rfl, hmade⟩ hkept)

lemma asking_expandDocument (p : Project) (module : String) (document : Json) :
    p.composer.Asking (p.expandDocument module document) := by
  obtain ⟨ids, r, hasks, -⟩ := p.asks_expandDocument module document
  exact ⟨ids, r, hasks⟩

lemma ensures_expandDocument_emits (p : Project) (module : String) (document : Json) :
    p.composer.Ensures (p.expandDocument module document)
      (fun expanded => Fields.Kept (fun field made => p.Emits ⟨module, field.1⟩ field.2 made)
        (p.emittedAmong module document.resources) expanded.resources)
      fun _ => True := by
  refine ensures_expandDocument (fun resources hresources => ?_) fun hresources => ?_
  · refine (ensures_expand_kept module resources).mono (fun kept hkept => ?_) fun _ _ => trivial
    have hobject : (document.setField "Resources" (.object kept)).resources = kept :=
      resources_of_object (by rw [Json.field?_setField hresources, if_pos rfl])
    rw [hobject, resources_of_object hresources]
    exact hkept
  · rw [resources_eq_nil hresources]
    exact .nil

lemma ensures_expandDocument_free (module : String) {document : Json}
    (hfree : p.KeywordFree document) :
    p.composer.Ensures (p.expandDocument module document) p.KeywordFree fun _ => True := by
  refine ensures_expandDocument (fun resources hresources => ?_) fun _ => hfree
  refine (ensures_expand_kept module resources).mono (fun kept hkept => ?_) fun _ _ => trivial
  have hfield := Json.field?_setField hresources
  have hobject : (document.setField "Resources" (.object kept)).resources = kept :=
    resources_of_object (by rw [hfield, if_pos rfl])
  refine ⟨fun definition hmem => ?_, fun definition hmem => ?_⟩
  · have htop := hfree.top definition hmem
    rw [hfield]
    split_ifs with hkeyword
    · rw [hkeyword, hresources] at htop
      cases htop
    · exact htop
  · rw [hobject, Fields.get?_eq_none_iff, hkept.keys_eq]
    have hnone := Fields.get?_eq_none_iff.mp (hfree.resources definition hmem)
    rw [resources_of_object hresources] at hnone
    exact fun hmem' => hnone ((List.filter_sublist.map Prod.fst).subset hmem')

/-! ### Compiled resources -/

lemma rename_eq (module : String) {resources : Fields Json} (h : resources.Distinct) :
    p.rename module resources =
      resources.map fun r => (p.services.logicalId ⟨module, r.1⟩, r.2) := by
  refine Fields.ofList_of_distinct ?_
  have hkeys : Fields.keys (resources.map fun r => (p.services.logicalId ⟨module, r.1⟩, r.2)) =
      resources.keys.map fun name => p.services.logicalId ⟨module, name⟩ := by
    simp [Fields.keys]
  rw [Fields.Distinct, hkeys]
  exact h.map fun _ _ => logicalId_injective

/-- What the compiled document of a module has of the module's resources. -/
structure EmitsExactly (p : Project) (module : String) (document compiled : Json) : Prop where
  /-- the resources that are not left out, in document order -/
  keys : compiled.resources.keys =
    (p.emittedAmong module document.resources).keys.map (p.moduleHash module ++ ·)
  /-- no name is used twice -/
  nodup : compiled.resources.keys.Nodup
  /-- what was made for each of them, processed in its place in the expanded document -/
  values : ∃ (processors : Processors KeywordFailure Composing) (expanded : Json),
    p.setUp (fun definition => definition.processor (p.context module)) = .ok processors ∧
    outcome (p.expandDocument module document) = .ok expanded ∧
    expanded.resources.keys = (p.emittedAmong module document.resources).keys ∧
    ∀ name body, (name, body) ∈ p.emittedAmong module document.resources →
      ∃ made v, p.Emits ⟨module, name⟩ body made ∧
        expanded.resources.get? name = some made ∧
        outcome (processors.value (aroundResource expanded name) made) = .ok v ∧
        compiled.resources.get? (p.moduleHash module ++ name) = some v

lemma distinct_emittedAmong {resources : Fields Json} (h : resources.Distinct) (module : String) :
    (p.emittedAmong module resources).Distinct :=
  h.sublist (List.filter_sublist.map Prod.fst)

lemma emitsExactly_of_kept {document expanded processed : Json}
    (hdistinct : document.resources.Distinct)
    (hexpanded : outcome (p.expandDocument module document) = .ok expanded)
    (hemitted : Fields.Kept (fun field made => p.Emits ⟨module, field.1⟩ field.2 made)
      (p.emittedAmong module document.resources) expanded.resources)
    (hprocessed : p.Processed module expanded processed.resources) :
    p.EmitsExactly module document (p.renameDocument module processed) := by
  obtain ⟨processors, hsetUp, hkept⟩ := hprocessed
  have hemittedDistinct := distinct_emittedAmong hdistinct module (p := p)
  have hkeys := hkept.keys_eq.trans hemitted.keys_eq
  have hprocessedDistinct : processed.resources.Distinct := by
    rw [Fields.Distinct, hkeys]
    exact hemittedDistinct
  have hresources : (p.renameDocument module processed).resources =
      processed.resources.map fun r => (p.services.logicalId ⟨module, r.1⟩, r.2) := by
    rw [resources_renameDocument, rename_eq module hprocessedDistinct]
  have hnames : (p.renameDocument module processed).resources.keys =
      (p.emittedAmong module document.resources).keys.map (p.moduleHash module ++ ·) := by
    rw [← hkeys, hresources]
    simp [Fields.keys, Services.logicalId, services]
  refine ⟨hnames, ?_, processors, expanded, hsetUp, hexpanded, hemitted.keys_eq, ?_⟩
  · rw [hnames]
    exact hemittedDistinct.map fun _ _ => (String.append_right_inj _).mp
  · intro name body hbody
    obtain ⟨made, hmade, hemits⟩ := hemitted.exists_of_get? (hemittedDistinct.get?_of_mem hbody)
    obtain ⟨v, hv, hvalue⟩ := hkept.exists_of_get? hmade
    refine ⟨made, v, hemits, hmade, hvalue, ?_⟩
    have hget := Fields.get?_map_key (f := (p.moduleHash module ++ ·))
      (fun _ _ => (String.append_right_inj _).mp) processed.resources name
    rw [hresources, ← hv]
    exact hget

lemma ensures_emitsExactly (hp : p.keywords = builtinKeywords p.composer.schema) {document : Json}
    (hdocument : p.document module = .ok document) (hdistinct : document.resources.Distinct)
    (hfree : p.KeywordFree document) :
    p.composer.Ensures (p.compile module) (p.EmitsExactly module document) fun _ => True := by
  have hexpand := (p.asking_expandDocument module document).ensures.and
    ((ensures_expandDocument_free module hfree).and
      (p.ensures_expandDocument_emits module document))
  refine ensures_of_steps hdocument (hexpand.mono (fun _ h => h) fun _ _ => trivial) ?_
  rintro expanded ⟨houtcome, hexpandedFree, hemitted⟩
  refine (ensures_process_keyword_free hp hexpandedFree).mono
    (fun processed hprocessed => ?_) fun _ h => h
  exact emitsExactly_of_kept hdistinct houtcome hemitted hprocessed

/-! ### All modules -/

/-- The resources of all modules that are not left out. -/
def emittedIds (p : Project) : List ResourceId :=
  (p.families.documents.resources.filter fun r => !p.skips r.1 r.2).map Prod.fst

lemma emittedIds_eq (p : Project) :
    p.emittedIds = p.families.documents.flatMap fun entry =>
      (p.emittedAmong entry.1 entry.2.document.resources).keys.map (ResourceId.mk entry.1) := by
  unfold emittedIds Documents.resources emittedAmong
  rw [List.filter_flatMap, List.map_flatMap]
  refine List.flatMap_congr fun entry _ => ?_
  simp [Fields.keys, List.filter_map, Function.comp_def]

lemma mem_emittedIds_iff (hdocuments : p.families.documents.WellFormed) {id : ResourceId} :
    id ∈ p.emittedIds ↔
      ∃ body, p.families.documents.resource? id = some body ∧ p.skips id body = false := by
  simp [emittedIds, Documents.resource?_eq_some_iff hdocuments]

lemma nodup_emittedIds (hdocuments : p.families.documents.WellFormed) : p.emittedIds.Nodup :=
  (Documents.nodup_ids hdocuments).sublist (List.filter_sublist.map Prod.fst)

/-- A member of a family is emitted exactly if it is the root and no middleware. -/
lemma mem_emittedIds_of_mem_members (hdocuments : p.families.documents.WellFormed)
    (hfamilies : Families.ofDocuments p.families.documents = .ok p.families) {family : Family}
    (hfamily : family ∈ p.families.families) {id : ResourceId} (hid : id ∈ family.members) :
    id ∈ p.emittedIds ↔
      id = family.root ∧ family.resource.textField "Type" ≠
        p.composer.schema.middlewareType := by
  obtain ⟨document, hdocument⟩ : ∃ document,
      p.document family.root.module = .ok document := by
    obtain ⟨fs, hbody, -⟩ := (Families.resolves hdocuments hfamilies hfamily).resource
    obtain ⟨entry, hentry, -⟩ := Option.bind_eq_some_iff.mp hbody
    exact ⟨entry.document, by rw [Project.document, hentry]⟩
  obtain ⟨-, body, hbody, hskips⟩ := exists_root_resource hdocuments hfamilies hfamily hdocument
  have hroot : p.families.documents.resource? family.root = some body :=
    (resource?_of_document hdocument _).trans hbody
  rw [mem_emittedIds_iff hdocuments]
  constructor
  · rintro ⟨other, hother, hkept⟩
    have hleads := (Families.mem_members_iff_leadsTo hdocuments hfamilies hfamily).mp hid
    have htarget : p.families.target? id = none := by
      rw [skips, Bool.or_eq_false_iff] at hkept
      simpa using hkept.1
    have hself : p.families.LeadsTo id id := ⟨⟨0, rfl⟩, htarget⟩
    have heq := hself.unique hdocuments hfamilies hleads
    subst heq
    cases hroot.symm.trans hother
    rw [hkept] at hskips
    exact ⟨rfl, by simpa using hskips.symm⟩
  · rintro ⟨rfl, htype⟩
    exact ⟨body, hroot, by rw [hskips]; simpa using htype⟩

lemma root_mem_members (hdocuments : p.families.documents.WellFormed)
    (hfamilies : Families.ofDocuments p.families.documents = .ok p.families) {family : Family}
    (hfamily : family ∈ p.families.families) : family.root ∈ family.members := by
  rw [Families.mem_members_iff_leadsTo hdocuments hfamilies hfamily,
    Families.leadsTo_iff hdocuments hfamilies]
  exact ⟨⟨0, .root⟩, (Families.resolves hdocuments hfamilies hfamily).root_extends⟩

/-- Of the members of a family the root is emitted, and nothing if it is a middleware. -/
lemma filter_emittedIds_members (hdocuments : p.families.documents.WellFormed)
    (hfamilies : Families.ofDocuments p.families.documents = .ok p.families) {family : Family}
    (hfamily : family ∈ p.families.families) :
    p.emittedIds.filter (· ∈ family.members) =
      if family.resource.textField "Type" = p.composer.schema.middlewareType then []
      else [family.root] := by
  have hmem : ∀ id, id ∈ p.emittedIds.filter (· ∈ family.members) ↔
      id = family.root ∧ family.resource.textField "Type" ≠
          p.composer.schema.middlewareType := by
    intro id
    rw [List.mem_filter, decide_eq_true_iff]
    constructor
    · rintro ⟨hid, hmember⟩
      exact (mem_emittedIds_of_mem_members hdocuments hfamilies hfamily hmember).mp hid
    · rintro ⟨rfl, htype⟩
      have hroot := root_mem_members hdocuments hfamilies hfamily
      exact ⟨(mem_emittedIds_of_mem_members hdocuments hfamilies hfamily hroot).mpr
        ⟨rfl, htype⟩, hroot⟩
  split_ifs with htype
  · exact List.eq_nil_iff_forall_not_mem.mpr fun id hid => ((hmem id).mp hid).2 htype
  · have hnodup := (nodup_emittedIds hdocuments).filter (· ∈ family.members)
    refine List.perm_singleton.mp
      ((List.perm_ext_iff_of_nodup hnodup (List.nodup_singleton _)).mpr ?_)
    intro id
    rw [hmem, List.mem_singleton]
    exact and_iff_left htype

/-- The compiled document of a module without keywords at its top or among its resources has one
resource for every resource that is not left out, and nothing else. If that holds of all modules,
every family is emitted once, under its root, unless the root is a middleware, and no resource that
extends another one is emitted. -/
theorem compiled_resources_exact {documents : Documents} (hdocuments : documents.WellFormed)
    (hfamilies : Families.ofDocuments documents = .ok p.families)
    (hkeywords : p.keywords = builtinKeywords p.composer.schema) :
    (∀ module document cache compiled, p.document module = .ok document →
      p.KeywordFree document →
      p.composer.Sound cache → ((p.compile module).run.run cache).1 = .ok compiled →
      p.EmitsExactly module document compiled) ∧
    ∀ compiled : String → Json,
      (∀ entry ∈ p.families.documents, p.KeywordFree entry.2.document ∧
        outcome (p.compile entry.1) = .ok (compiled entry.1)) →
      (p.moduleNames.flatMap fun module => (compiled module).resources.keys.map (Prod.mk module)) =
        p.emittedIds.map (fun id => (id.module, p.moduleHash id.module ++ id.resource)) ∧
      p.emittedIds.Nodup ∧
      (∀ family ∈ p.families.families,
        p.emittedIds.filter (· ∈ family.members) =
          if family.resource.textField "Type" = p.composer.schema.middlewareType then []
          else [family.root]) ∧
      ∀ id ∈ p.emittedIds, p.families.target? id = none := by
  obtain ⟨rfl, -⟩ := Families.of_ofDocuments hfamilies
  have hmodule : ∀ module document cache compiled, p.document module = .ok document →
      p.KeywordFree document → p.composer.Sound cache →
      ((p.compile module).run.run cache).1 = .ok compiled →
          p.EmitsExactly module document compiled := by
    intro module document cache compiled hdocument hfree hcache hcompiled
    have hdistinct : document.resources.Distinct := by
      rw [Project.document] at hdocument
      split at hdocument
      · rename_i entry hentry
        cases hdocument
        exact (hdocuments.document _ (Fields.mem_of_get? hentry)).distinct_resources
      · cases hdocument
    exact (ensures_emitsExactly hkeywords hdocument hdistinct hfree).of_run hcache hcompiled
  refine ⟨hmodule, fun compiled hcompiled => ⟨?_, nodup_emittedIds hdocuments,
    fun family hfamily => filter_emittedIds_members hdocuments hfamilies hfamily,
    fun id hid => ?_⟩⟩
  · rw [emittedIds_eq, moduleNames, Fields.keys, List.flatMap_map, List.map_flatMap]
    refine List.flatMap_congr fun entry hentry => ?_
    have hdocument : p.document entry.1 = .ok entry.2.document := by
      rw [Project.document, hdocuments.distinct.get?_of_mem (v := entry.2) hentry]
    obtain ⟨hfree, houtcome⟩ := hcompiled entry hentry
    rw [(hmodule _ _ [] _ hdocument hfree sound_nil houtcome).keys]
    simp [Function.comp_def]
  · obtain ⟨body, -, hskips⟩ := (mem_emittedIds_iff hdocuments).mp hid
    rw [skips, Bool.or_eq_false_iff] at hskips
    simpa using hskips.1

/-- A family over two modules, a middleware, and a resource with a reference. -/
theorem compiled_resources_exact_modules :
    let tableBody : Json := .object [("Type", .string "T"),
      ("Properties", .object [("Stage", .object [("Parameter", .string "Stage")])])]
    let partBody : Json := .object [("Type", .string "T"),
      ("Extend", .object [("module", .string "base"), ("resource", .string "table")]),
      ("Properties", .object [])]
    let userBody : Json := .object [("Type", .string "T"),
      ("Properties", .object [("Uses", .object [("Ref", .object [("resource", .string "part")])])])]
    let mwBody : Json := .object [("Type", .string "Middleware"), ("Properties", .object [])]
    let table : ResourceId := ⟨"base", "table"⟩
    let mw : ResourceId := ⟨"base", "mw"⟩
    let part : ResourceId := ⟨"app", "part"⟩
    let user : ResourceId := ⟨"app", "user"⟩
    let p : Project :=
      { composer :=
          { families :=
              { documents :=
                  [("base",
                    ⟨.object [("Resources", .object [("table", tableBody), ("mw", mwBody)])],
                      none⟩),
                    ("app",
                      ⟨.object [("Resources", .object [("part", partBody), ("user", userBody)])],
                        none⟩)]
                links := [⟨table, tableBody, none, []⟩, ⟨mw, mwBody, none, []⟩,
                  ⟨part, partBody, some table, []⟩, ⟨user, userBody, none, []⟩]
                families :=
                  [⟨table, [table, part], tableBody, .leaf table⟩,
                    ⟨mw, [mw], mwBody, .leaf mw⟩,
                    ⟨user, [user], userBody, .leaf user⟩] }
            schema := .standard
            extensions := [] }
        keywords := builtinKeywords .standard
        parameters := ["Stage"]
        rootDir := "."
        moduleHash := fun module => module ++ "-" }
    let compiled (module : String) : Json := (outcome (p.compile module)).toOption.getD .null
    p.families.documents.WellFormed ∧
      Families.ofDocuments p.families.documents = .ok p.families ∧
      (∀ entry ∈ p.families.documents, p.KeywordFree entry.2.document ∧
        outcome (p.compile entry.1) = .ok (compiled entry.1)) ∧
      (["base", "app"].flatMap fun module =>
        (compiled module).resources.keys.map (Prod.mk module)) =
        [("base", "base-table"), ("app", "app-user")] ∧
      p.emittedIds.filter (· ∈ [table, part]) = [table] := by
  intro tableBody partBody userBody mwBody table mw part user p compiled
  have hdocuments : p.families.documents.WellFormed := by decide
  have hfamilies : Families.ofDocuments p.families.documents = .ok p.families := by cbv
  have hok : ∀ r : Except ProjectError Json, r.isOk = true →
      r = .ok (r.toOption.getD .null) := by
    rintro (e | v) h
    · cases h
    · rfl
  have hall : ∀ entry ∈ p.families.documents, p.KeywordFree entry.2.document ∧
      outcome (p.compile entry.1) = .ok (compiled entry.1) := by
    refine List.forall_mem_cons.mpr ⟨⟨by decide, hok _ (by decide +kernel)⟩, ?_⟩
    exact List.forall_mem_singleton.mpr ⟨by decide, hok _ (by decide +kernel)⟩
  obtain ⟨-, hmodules⟩ := compiled_resources_exact hdocuments hfamilies rfl
  obtain ⟨hkeys, -, hfamily, -⟩ := hmodules compiled hall
  refine ⟨hdocuments, hfamilies, hall, hkeys, ?_⟩
  exact hfamily ⟨table, [table, part], tableBody, .leaf table⟩ (by simp [p, families])

end Project

end ModularTemplates
