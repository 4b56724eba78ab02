import Mathlib.Tactic.Lemma
import ModularTemplates.Proofs.Family.Partition
import ModularTemplates.Proofs.Function.Steps
import ModularTemplates.Proofs.Project.Outcomes

/-!
# The resources of compiled modules

A compiled module has one resource for every resource of its document that is not left out, under
the compiled name. This takes two things for granted that compiling does not check: no keyword
replaces the document as a whole, and none replaces the object that holds the resources.
-/

namespace ModularTemplates

/-! ### Fields that are kept -/

lemma Json.field?_setField {v w : Json} {key : String} (h : v.field? key = some w) (other : String)
    (u : Json) :
    (v.setField key u).field? other = if other = key then some u else v.field? other := by
  cases v with
  | object fs => exact Fields.get?_set fs key other u
  | _ => cases h

namespace Fields

variable {fs gs : Fields Json} {good : String × Json → Json → Prop} {key : String}

lemma Kept.exists_of_get? (h : Kept good fs gs) {v : Json} (hv : fs.get? key = some v) :
    ∃ w, gs.get? key = some w ∧ good (key, v) w := by
  induction h with
  | nil => simp at hv
  | @cons field field' fs gs hfield _ ih =>
    obtain ⟨k, u⟩ := field
    obtain ⟨k', w⟩ := field'
    obtain ⟨rfl, hgood⟩ := hfield
    rw [get?_cons] at hv ⊢
    split_ifs at hv ⊢ with hk
    · cases hv
      exact ⟨w, rfl, hk ▸ hgood⟩
    · exact ih hv

lemma Kept.exists_before (h : Kept good fs gs) {w : Json} (hw : gs.get? key = some w) :
    ∃ v, fs.get? key = some v ∧ good (key, v) w := by
  induction h with
  | nil => simp at hw
  | @cons field field' fs gs hfield _ ih =>
    obtain ⟨k, u⟩ := field
    obtain ⟨k', u'⟩ := field'
    obtain ⟨rfl, hgood⟩ := hfield
    rw [get?_cons] at hw ⊢
    split_ifs at hw ⊢ with hk
    · cases hw
      exact ⟨u, rfl, hk ▸ hgood⟩
    · exact ih hw

lemma Kept.exists_of_mem (h : Kept good fs gs) {after : String × Json} (hafter : after ∈ gs) :
    ∃ before ∈ fs, after.1 = before.1 ∧ good before after.2 := by
  induction h with
  | nil => cases hafter
  | @cons before _ _ _ hgood hrest ih =>
    rcases List.mem_cons.mp hafter with rfl | hafter
    · exact ⟨before, List.mem_cons_self, hgood⟩
    · obtain ⟨field, hfield, hkept⟩ := ih hafter
      exact ⟨field, List.mem_cons_of_mem _ hfield, hkept⟩

lemma Kept.keys_eq (h : Kept good fs gs) : gs.keys = fs.keys := by
  induction h with
  | nil => rfl
  | cons hfield _ ih => rw [keys_cons, keys_cons, ih, hfield.1]

end Fields

/-! ### The keywords of every project -/

namespace Project

open Composer

variable {p : Project} {module keyword : String} {processors : Processors KeywordFailure Composing}
  {node : Node} {v : Json}

lemma ensures_reference :
    p.composer.Ensures (referenceProcessor (p.context module) keyword node v)
      (fun answer => answer = .unchanged ∨
        ∃ name, answer = .object (.single keyword (.string name)) 0 ∧
          (p.context module).resolve v = .ok name)
      fun _ => True := by
  unfold referenceProcessor
  split
  · exact ensures_pure (.inl rfl)
  · split
    · rename_i name hname
      exact ensures_pure (.inr ⟨name, rfl, hname⟩)
    · exact ensures_throw trivial

lemma ensures_parameter :
    p.composer.Ensures (parameterProcessor keyword node v)
      (fun answer => ∃ name, answer = .object (.single "Ref" (.string name)) 0 ∧
        v = .string name)
      fun _ => True := by
  unfold parameterProcessor
  split
  · exact ensures_pure ⟨_, rfl, rfl⟩
  · exact ensures_throw trivial

lemma ensures_code :
    p.composer.Ensures (p.composer.schema.functionProcessor (p.context module) keyword node v)
      (fun answer => (∃ key, answer = .object (.string key) 0) ∧
        ∃ resource, p.composer.schema.resourceWithCode node.path = .ok resource)
      fun _ => True := by
  unfold Schema.functionProcessor
  split
  · exact ensures_throw trivial
  · rename_i resource hresource
    have hfunction := p.composer.ensures_function ⟨module, resource⟩
    refine hfunction.adapt.bind fun composed _ => ?_
    exact ensures_pure ⟨⟨_, rfl⟩, resource, hresource⟩

/-- Every processor is one of those that come with the project, registered under its own name. -/
lemma builtin_of_setUp (hp : p.keywords = builtinKeywords p.composer.schema)
    (h : p.setUp (fun definition => definition.processor (p.context module)) = .ok processors)
    {processor : Processor KeywordFailure Composing}
    (hget : processors.get? keyword = some processor) :
    keyword = p.composer.schema.referenceKeyword ∧
    processor = referenceProcessor (p.context module) ∨
    keyword = "Parameter" ∧ processor = parameterProcessor ∨
    keyword = p.composer.schema.functionKeyword ∧
      processor = p.composer.schema.functionProcessor (p.context module) := by
  obtain ⟨definition, hmem, rfl, hmake⟩ := exists_of_setUp h hget
  rw [hp, builtinKeywords, List.mem_cons, List.mem_cons, List.mem_singleton] at hmem
  rcases hmem with rfl | rfl | rfl
  · cases hmake
    exact .inl ⟨rfl, rfl⟩
  · cases hmake
    exact .inr (.inl ⟨rfl, rfl⟩)
  · cases hmake
    exact .inr (.inr ⟨rfl, rfl⟩)

lemma local_of_builtin (hp : p.keywords = builtinKeywords p.composer.schema)
    (h : p.setUp (fun definition => definition.processor (p.context module)) = .ok processors) :
    processors.Local p.composer := by
  intro keyword processor hprocessor name node v
  obtain ⟨-, rfl⟩ | ⟨-, rfl⟩ | ⟨-, rfl⟩ := builtin_of_setUp hp h hprocessor
  · refine ensures_reference.mono ?_ fun _ he => he
    rintro _ (rfl | ⟨_, rfl, -⟩) w level ⟨⟩
    rfl
  · refine ensures_parameter.mono ?_ fun _ he => he
    rintro _ ⟨_, rfl, -⟩ w level ⟨⟩
    rfl
  · refine ensures_code.mono ?_ fun _ he => he
    rintro _ ⟨⟨_, rfl⟩, -⟩ w level ⟨⟩
    rfl

/-- An object that is no code property stays an object. -/
lemma ensures_object_of_builtin (hp : p.keywords = builtinKeywords p.composer.schema)
    (h : p.setUp (fun definition => definition.processor (p.context module)) = .ok processors)
    {above : List Crumb} {fs : List (String × Json)}
    (hpath : ∀ resource,
      p.composer.schema.resourceWithCode (Node.path ⟨.object fs, above⟩) ≠ .ok resource) :
    p.composer.Ensures (processors.value above (.object fs)) (fun w => ∃ gs, w = .object gs)
      Interruption.Final := by
  refine ensures_object (ensures_fields (local_of_builtin hp h) (.object fs) above fs) ?_
  intro processed _ keyword processor _ hprocessor
  obtain ⟨-, rfl⟩ | ⟨-, rfl⟩ | ⟨-, rfl⟩ := builtin_of_setUp hp h hprocessor
  · refine ensures_reference.mono ?_ fun _ he => he
    rintro _ (rfl | ⟨_, rfl, -⟩) w level ⟨⟩
    exact ⟨rfl, _, rfl⟩
  · refine ensures_parameter.mono ?_ fun _ he => he
    rintro _ ⟨_, rfl, -⟩ w level ⟨⟩
    exact ⟨rfl, _, rfl⟩
  · refine ensures_code.mono ?_ fun _ he => he
    rintro _ ⟨-, resource, hresource⟩
    exact absurd hresource (hpath resource)

/-! ### A document with resources -/

/-- The resources keep their names if they are objects and none of them is named like the
reference keyword. -/
lemma ensures_resources (hp : p.keywords = builtinKeywords p.composer.schema)
    (h : p.setUp (fun definition => definition.processor (p.context module)) = .ok processors)
    {document : Json} {resources : List (String × Json)}
    (hobjects : ∀ r ∈ resources, ∃ fs, r.2 = .object fs)
    (hnames : p.composer.schema.referenceKeyword ∉ Fields.keys resources) :
    p.composer.Ensures (processors.value [⟨.key "Resources", document⟩] (.object resources))
      (fun w => ∃ gs, w = .object gs ∧ Fields.keys gs = Fields.keys resources)
      Interruption.Final := by
  have hfields : p.composer.Ensures
      (processors.fields (.object resources) [⟨.key "Resources", document⟩] resources)
      (Fields.Kept (fun _ w => ∃ fs, w = .object fs) resources) Interruption.Final := by
    refine ensures_each_field fun r hr => ?_
    obtain ⟨fs, hfs⟩ := hobjects r hr
    rw [hfs]
    exact ensures_object_of_builtin hp h fun resource => by rintro ⟨⟩
  refine (ensures_kept_object hfields ?_).mono ?_ fun _ he => he
  · intro processed hprocessed keyword processor hkeyword hprocessor
    obtain ⟨rfl, rfl⟩ | ⟨rfl, rfl⟩ | ⟨rfl, rfl⟩ := builtin_of_setUp hp h hprocessor
    · exact absurd hkeyword hnames
    · -- the value is a processed resource and no text
      obtain ⟨body, hbody⟩ := Fields.mem_keys_iff.mp hkeyword
      obtain ⟨_, hafter, fs, rfl⟩ := hprocessed.exists_of_get? hbody
      refine ensures_parameter.mono ?_ fun _ he => he
      rintro _ ⟨name, rfl, hname⟩
      rw [hafter] at hname
      cases hname
    · refine ensures_code.mono ?_ fun _ he => he
      rintro _ ⟨-, resource, hresource⟩
      cases hresource
  · rintro _ ⟨gs, hgs, rfl⟩
    exact ⟨gs, rfl, hgs.keys_eq⟩

/-- Below a document the resources keep their names, and texts stay as they are. -/
lemma ensures_document_fields (hp : p.keywords = builtinKeywords p.composer.schema)
    (h : p.setUp (fun definition => definition.processor (p.context module)) = .ok processors)
    {resources : List (String × Json)} (hobjects : ∀ r ∈ resources, ∃ fs, r.2 = .object fs)
    (hnames : p.composer.schema.referenceKeyword ∉ Fields.keys resources)
    (fs : List (String × Json)) :
    p.composer.Ensures (processors.fields (.object fs) [] fs)
      (Fields.Kept (fun field w => (∀ s, field.2 = .string s → w = .string s) ∧
        (field = ("Resources", .object resources) →
          ∃ gs, w = .object gs ∧ Fields.keys gs = Fields.keys resources)) fs)
      Interruption.Final := by
  refine ensures_each_field fun field hfield => ?_
  by_cases heq : field = ("Resources", .object resources)
  · subst heq
    refine (ensures_resources hp h hobjects hnames).mono ?_ fun _ he => he
    exact fun w hw => ⟨by simp, fun _ => hw⟩
  · by_cases hstring : ∃ s, field.2 = .string s
    · obtain ⟨s, hs⟩ := hstring
      rw [hs, Processors.value]
      · exact ensures_pure ⟨fun _ hs' => hs', fun heq' => absurd heq' heq⟩
      all_goals simp
    · refine (ensures_value (local_of_builtin hp h) _ field.2).mono ?_ fun _ he => he
      exact fun w _ => ⟨fun s hs => absurd ⟨s, hs⟩ hstring, fun heq' => absurd heq' heq⟩

/-- A document keeps the names of its resources if no keyword of its own takes effect. -/
lemma ensures_processDocument (hp : p.keywords = builtinKeywords p.composer.schema)
    {document : Json} {resources : List (String × Json)}
    (hresources : document.field? "Resources" = some (.object resources))
    (hobjects : ∀ r ∈ resources, ∃ fs, r.2 = .object fs)
    (hnames : p.composer.schema.referenceKeyword ∉ Fields.keys resources)
    (hparameter : document.field? "Parameter" = none)
    (hreference : ∀ v, document.field? p.composer.schema.referenceKeyword = some v →
      ∃ s, v = .string s) :
    p.composer.Ensures (p.processDocument module document)
      (fun processed => processed.resources.keys = Fields.keys resources) fun _ => True := by
  refine ensures_of_value fun processors h => ?_
  cases document with
  | object fs =>
    refine (ensures_kept_object (ensures_document_fields hp h hobjects hnames fs) ?_).mono ?_
      fun _ he => he
    · intro processed hprocessed keyword processor hkeyword hprocessor
      obtain ⟨rfl, rfl⟩ | ⟨rfl, rfl⟩ | ⟨rfl, rfl⟩ := builtin_of_setUp hp h hprocessor
      · obtain ⟨v, hv⟩ := Fields.mem_keys_iff.mp hkeyword
        obtain ⟨s, rfl⟩ := hreference v hv
        obtain ⟨w, hw, hstring, -⟩ := hprocessed.exists_of_get? hv
        rw [hw, Option.getD_some, hstring s rfl]
        exact ensures_pure rfl
      · exact absurd hkeyword (Fields.get?_eq_none_iff.mp hparameter)
      · refine ensures_code.mono ?_ fun _ he => he
        rintro _ ⟨-, resource, hresource⟩
        cases hresource
    · rintro _ ⟨gs, hgs, rfl⟩
      obtain ⟨w, hw, -, hkept⟩ := hgs.exists_of_get? hresources
      obtain ⟨rs, rfl, hkeys⟩ := hkept rfl
      have hfield : Json.field? (.object gs) "Resources" = some (.object rs) := hw
      rw [Json.resources, hfield]
      exact hkeys
  | _ => cases hresources

/-! ### From the document to the compiled one -/

/-- The resources of a module that are not left out. -/
def emittedAmong (p : Project) (module : String) (resources : Fields Json) : Fields Json :=
  resources.filter fun r => !p.skips ⟨module, r.1⟩ r.2

/-- No keyword of the document replaces it as a whole, and none replaces the object of its
emitted resources. -/
structure KeepsResources (p : Project) (module : String) (document : Json) : Prop where
  parameter : document.field? "Parameter" = none
  reference : ∀ v, document.field? p.composer.schema.referenceKeyword = some v →
    ∃ s, v = .string s
  resource : ∀ body, document.resources.get? p.composer.schema.referenceKeyword = some body →
    p.skips ⟨module, p.composer.schema.referenceKeyword⟩ body = true

lemma ensures_expandResource
    (hobjects : ∀ family ∈ p.families.families, ∃ fs, family.resource = .object fs)
    (id : ResourceId) (body : Json) :
    p.composer.Ensures (p.expandResource id body)
      (fun expanded =>
        if p.skips id body = true then expanded = none else ∃ fs, expanded = some (.object fs))
      fun _ => True := by
  have hobject : ∀ family, p.families.get? id = some family →
      ∃ fs, family.resource = .object fs :=
    fun family hfamily => hobjects family (List.mem_of_find?_eq_some hfamily)
  cases hskips : p.skips id body with
  | true =>
    rw [expandResource_of_skips hskips]
    exact ensures_pure rfl
  | false =>
    cases htype : p.composer.schema.isFunctionType (body.textField "Type") with
    | true =>
      rw [expandResource_of_function hskips htype]
      refine (p.composer.ensures_function id).adapt.bind fun composed hcomposed => ensures_pure ?_
      obtain ⟨_, family, _, _, -, hfamily, -, -, -, hresource⟩ := compose_eq_ok hcomposed
      obtain ⟨fs, hfs⟩ := hobject family hfamily
      rw [hfs] at hresource
      exact ⟨_, congrArg some hresource⟩
    | false =>
      rw [expandResource_of_other hskips htype]
      split
      · exact ensures_throw trivial
      · rename_i family hfamily
        obtain ⟨fs, hfs⟩ := hobject family hfamily
        refine ensures_pure ?_
        rw [if_neg (by simp), emitted, hfs]
        split
        · exact ⟨_, rfl⟩
        · exact ⟨_, rfl⟩

lemma ensures_expand
    (hobjects : ∀ family ∈ p.families.families, ∃ fs, family.resource = .object fs)
    (module : String) (resources : Fields Json) :
    p.composer.Ensures (p.expand module resources)
      (fun expanded => Fields.keys expanded = (p.emittedAmong module resources).keys ∧
        ∀ r ∈ expanded, ∃ fs, r.2 = .object fs)
      fun _ => True := by
  induction resources with
  | nil => exact ensures_pure ⟨rfl, by simp⟩
  | cons r resources ih =>
    obtain ⟨name, body⟩ := r
    rw [expand]
    refine (ensures_expandResource hobjects ⟨module, name⟩ body).bind
      fun expanded hexpanded => ?_
    refine ih.bind fun rest hrest => ensures_pure ?_
    have hkeys : (p.emittedAmong module ((name, body) :: resources)).keys =
        if p.skips ⟨module, name⟩ body = true then (p.emittedAmong module resources).keys
        else name :: (p.emittedAmong module resources).keys := by
      unfold emittedAmong
      rw [List.filter_cons]
      cases p.skips ⟨module, name⟩ body <;> rfl
    rw [hkeys]
    split_ifs at hexpanded ⊢ with hskips
    · subst hexpanded
      exact hrest
    · obtain ⟨fs, rfl⟩ := hexpanded
      exact ⟨by rw [Fields.keys_cons, hrest.1],
        List.forall_mem_cons.mpr ⟨⟨fs, rfl⟩, hrest.2⟩⟩

lemma resources_renameDocument (module : String) (document : Json) :
    (p.renameDocument module document).resources = p.rename module document.resources := by
  unfold renameDocument
  split
  · rename_i resources hresources
    rw [Json.resources, Json.resources, hresources, Json.field?_setField hresources, if_pos rfl]
    rfl
  · rename_i hresources
    unfold Json.resources
    cases h : document.field? "Resources" with
    | none => rfl
    | some v =>
      cases v with
      | object fs => exact absurd h (hresources fs)
      | _ => rfl

lemma mem_rename {rs : Fields Json} {field : String × Json} (h : field ∈ p.rename module rs) :
    ∃ r ∈ rs, field = (p.services.logicalId ⟨module, r.1⟩, r.2) := by
  rcases Fields.mem_update h with h | h
  · cases h
  · obtain ⟨r, hr, rfl⟩ := List.mem_map.mp h
    exact ⟨r, hr, rfl⟩

lemma mem_keys_rename_iff {module name : String} {resources : Fields Json} :
    name ∈ (p.rename module resources).keys ↔
      ∃ r ∈ resources.keys, p.services.logicalId ⟨module, r⟩ = name := by
  rw [rename, Fields.ofList, Fields.mem_keys_update_iff]
  simp [Fields.keys]

lemma mem_keys_emittedAmong_iff {resources : Fields Json} (h : resources.Distinct) {name : String} :
    name ∈ (p.emittedAmong module resources).keys ↔
      ∃ body, resources.get? name = some body ∧ p.skips ⟨module, name⟩ body = false := by
  constructor
  · intro hname
    obtain ⟨⟨_, body⟩, hr, rfl⟩ := List.mem_map.mp hname
    obtain ⟨hbody, hskips⟩ := List.mem_filter.mp hr
    exact ⟨body, h.get?_of_mem hbody, by simpa using hskips⟩
  · rintro ⟨body, hbody, hskips⟩
    refine List.mem_map.mpr ⟨(name, body),
      List.mem_filter.mpr ⟨Fields.mem_of_get? hbody, ?_⟩, rfl⟩
    simp [hskips]

/-- The compiled module has the resources that are not left out, under their compiled names. -/
theorem ensures_compile (hp : p.keywords = builtinKeywords p.composer.schema)
    (hobjects : ∀ family ∈ p.families.families, ∃ fs, family.resource = .object fs)
    {document : Json} (hdocument : p.document module = .ok document)
    (hresources : document.field? "Resources" = some (.object document.resources))
    (hdistinct : document.resources.Distinct) (hkeeps : p.KeepsResources module document) :
    p.composer.Ensures (p.compile module)
      (fun compiled => ∀ name, name ∈ compiled.resources.keys ↔
        ∃ r ∈ (p.emittedAmong module document.resources).keys,
          p.services.logicalId ⟨module, r⟩ = name)
      fun _ => True := by
  have hnames :
      p.composer.schema.referenceKeyword ∉ (p.emittedAmong module document.resources).keys := by
    rw [mem_keys_emittedAmong_iff hdistinct]
    rintro ⟨body, hbody, hskips⟩
    rw [hkeeps.resource body hbody] at hskips
    cases hskips
  have hexpand : p.composer.Ensures (p.expandDocument module document)
      (fun expanded => ∃ kept, expanded = document.setField "Resources" (.object kept) ∧
        Fields.keys kept = (p.emittedAmong module document.resources).keys ∧
        ∀ r ∈ kept, ∃ fs, r.2 = .object fs)
      fun _ => True := by
    rw [expandDocument, hresources]
    exact (ensures_expand hobjects module document.resources).bind fun kept hkept =>
      ensures_pure ⟨kept, rfl, hkept⟩
  refine ensures_of_steps hdocument hexpand ?_
  rintro _ ⟨kept, rfl, hkeys, hkept⟩
  have hfield := Json.field?_setField hresources
  have hkeptField : (document.setField "Resources" (.object kept)).field? "Resources" =
      some (.object kept) := by
    rw [hfield, if_pos rfl]
  refine (ensures_processDocument hp hkeptField hkept (by rwa [hkeys]) ?_ ?_).mono
    (fun processed hprocessed name => ?_) fun _ h => h
  · rw [hfield, if_neg (by decide)]
    exact hkeeps.parameter
  · intro v hv
    rw [hfield] at hv
    split_ifs at hv with hreference
    · -- the resources are an object and so the keyword is not their name
      obtain ⟨s, hs⟩ := hkeeps.reference _ (hreference ▸ hresources)
      cases hs
    · exact hkeeps.reference v hv
  · rw [resources_renameDocument, mem_keys_rename_iff, hprocessed, hkeys]

end Project

end ModularTemplates
