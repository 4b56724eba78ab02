import Mathlib.Tactic.Lemma
import ModularTemplates.Proofs.Project.EmittedResources
import ModularTemplates.Proofs.Project.Keywords

/-!
# Where processed values come from

A keyword replaces an object by a text, or by an object whose only field is a text. So every other
value of a processed document stands where something stood before, and it is what processing made of
that. The same holds of the resources of a compiled module, apart from their names.
-/

namespace ModularTemplates

/-- A text, or an object whose only field is a text. -/
def Json.IsSubstitute (w : Json) : Prop :=
  (∃ s, w = .string s) ∨ ∃ key s, w = .single key (.string s)

lemma Json.asString?_of_field? {v u : Json} {key : String} (h : v.field? key = some u) :
    v.asString? = none := by
  cases v with
  | string s => cases h
  | _ => rfl

namespace Project

open Composer

variable {p : Project} {module : String} {processors : Processors KeywordFailure Composing}
  {above : List Crumb} {fs gs : Fields Json} {v w : Json}

/-! ### Objects -/

/-- A keyword that takes effect has the object replaced by a substitute. -/
lemma ensures_substitute (hp : p.keywords = builtinKeywords p.composer.schema)
    (h : p.setUp (fun definition => definition.processor (p.context module)) = .ok processors)
    {keyword : String} {processor : Processor KeywordFailure Composing}
    (hprocessor : processors.get? keyword = some processor) (node : Node) (v : Json) :
    p.composer.Ensures (processor keyword node v)
      (fun answer => answer = .unchanged ∨ ∃ w, answer = .object w 0 ∧ w.IsSubstitute)
      fun _ => True := by
  obtain ⟨-, rfl⟩ | ⟨-, rfl⟩ | ⟨-, rfl⟩ := builtin_of_setUp hp h hprocessor
  · refine ensures_reference.mono ?_ fun _ he => he
    rintro _ (rfl | ⟨name, rfl, -⟩)
    · exact .inl rfl
    · exact .inr ⟨_, rfl, .inr ⟨_, _, rfl⟩⟩
  · refine ensures_parameter.mono ?_ fun _ he => he
    rintro _ ⟨name, rfl, -⟩
    exact .inr ⟨_, rfl, .inr ⟨_, _, rfl⟩⟩
  · refine ensures_code.mono ?_ fun _ he => he
    rintro _ ⟨⟨key, rfl⟩, -⟩
    exact .inr ⟨_, rfl, .inl ⟨_, rfl⟩⟩

/-- An object keeps its fields, or a substitute takes its place. -/
lemma ensures_kept_or_substitute (hp : p.keywords = builtinKeywords p.composer.schema)
    (h : p.setUp (fun definition => definition.processor (p.context module)) = .ok processors)
    (above : List Crumb) (fs : Fields Json) :
    p.composer.Ensures (processors.value above (.object fs))
      (fun w => (∃ gs, KeptAt processors above fs gs ∧ w = .object gs) ∨ w.IsSubstitute)
      Interruption.Final := by
  rw [Processors.value]
  refine (ensures_each_field fun field _ => ensures_outcome hp h _ field.2).bind fun gs hgs => ?_
  refine (ensures_answers _ _ fun keyword processor _ hprocessor =>
    ensures_substitute hp h hprocessor _ _).bind fun replies hreplies => ?_
  have hreplace : List.Forall₂ (fun keyword reply => reply.1 = keyword ∧
      ∃ w, reply.2 = Replacement.object w 0 ∧
          w.IsSubstitute) (replies.map Prod.fst) replies := by
    rw [List.forall₂_map_left_iff, List.forall₂_same]
    intro reply hreply
    obtain ⟨hreplaced, hchanged⟩ := hreplies reply hreply
    exact ⟨rfl, hreplaced.resolve_left hchanged⟩
  obtain ⟨hok, herror⟩ := applyAnswers_of_replies (R := fun _ w => w.IsSubstitute)
    ⟨.object fs, above⟩ gs hreplace
  refine ensures_mk_pure (fun w hw => ?_) fun e he => (herror e he).1.final
  rcases hok w hw with ⟨-, rfl⟩ | ⟨_, -, hw⟩
  · exact .inl ⟨gs, hgs, rfl⟩
  · exact .inr hw

/-- An object with a field that is no text has kept its fields. -/
lemma kept_of_value (hp : p.keywords = builtinKeywords p.composer.schema)
    (h : p.setUp (fun definition => definition.processor (p.context module)) = .ok processors)
    (hvalue : outcome (processors.value above v) = .ok (.object gs)) {field : String × Json}
    (hfield : field ∈ gs) (htext : field.2.asString? = none) :
    ∃ fs, v = .object fs ∧ KeptAt processors above fs gs := by
  cases v with
  | object fs =>
    obtain ⟨_, hkept, ⟨⟩⟩ | ⟨_, ⟨⟩⟩ | ⟨key, s, hsingle⟩ :=
      (ensures_kept_or_substitute hp h above fs).of_run sound_nil hvalue
    · exact ⟨fs, rfl, hkept⟩
    · cases hsingle
      rw [List.mem_singleton.mp hfield] at htext
      cases htext
  | _ =>
    have hnone := (ensures_no_object (local_of_builtin hp h) above rfl).of_run sound_nil hvalue
    cases hnone

lemma exists_field_of_value (hp : p.keywords = builtinKeywords p.composer.schema)
    (h : p.setUp (fun definition => definition.processor (p.context module)) = .ok processors)
    (hvalue : outcome (processors.value above v) = .ok w) {key : String} {u : Json}
    (hu : w.field? key = some u) (htext : u.asString? = none) :
    ∃ u', v.field? key = some u' ∧
      outcome (processors.value (⟨.key key, v⟩ :: above) u') = .ok u := by
  cases w with
  | object gs =>
    obtain ⟨fs, rfl, hkept⟩ := kept_of_value hp h hvalue (Fields.mem_of_get? hu) htext
    exact hkept.exists_before hu
  | _ => cases hu

/-! ### Arrays -/

lemma ensures_each_item (hp : p.keywords = builtinKeywords p.composer.schema)
    (h : p.setUp (fun definition => definition.processor (p.context module)) = .ok processors)
    (parent : Json) (above : List Crumb) (i : Nat) (xs : List Json) :
    p.composer.Ensures (processors.items parent above i xs)
      (List.Forall₂ (fun item y =>
        outcome (processors.value (⟨.index item.2, parent⟩ :: above) item.1) = .ok y)
        (xs.zipIdx i))
      Interruption.Final := by
  induction xs generalizing i with
  | nil =>
    rw [Processors.items]
    exact ensures_pure .nil
  | cons x xs ih =>
    rw [Processors.items]
    refine (ensures_settle (ensures_outcome hp h (⟨.index i, parent⟩ :: above) x)).bind
      fun y hy => ?_
    exact (ih (i + 1)).bind fun ys hys => ensures_pure (.cons hy hys)

/-- Every item of an array is what processing made of the item before it, in its place. -/
lemma ensures_array (hp : p.keywords = builtinKeywords p.composer.schema)
    (h : p.setUp (fun definition => definition.processor (p.context module)) = .ok processors)
    (above : List Crumb) (xs : List Json) :
    p.composer.Ensures (processors.value above (.array xs))
      (fun w => ∃ ys, w = .array ys ∧ List.Forall₂ (fun item y =>
        outcome (processors.value (⟨.index item.2, .array xs⟩ :: above) item.1) = .ok y)
        xs.zipIdx ys)
      Interruption.Final := by
  rw [Processors.value]
  exact (ensures_each_item hp h (.array xs) above 0 xs).bind fun ys hys =>
    ensures_pure ⟨ys, rfl, hys⟩

lemma exists_items_of_value (hp : p.keywords = builtinKeywords p.composer.schema)
    (h : p.setUp (fun definition => definition.processor (p.context module)) = .ok processors)
    {ys : List Json} (hvalue : outcome (processors.value above v) = .ok (.array ys)) :
    ∃ xs, v = .array xs ∧ List.Forall₂ (fun item y =>
      outcome (processors.value (⟨.index item.2, .array xs⟩ :: above) item.1) = .ok y)
      xs.zipIdx ys := by
  cases v with
  | array xs =>
    obtain ⟨_, ⟨⟩, hys⟩ := (ensures_array hp h above xs).of_run sound_nil hvalue
    exact ⟨xs, rfl, hys⟩
  | object fs =>
    obtain ⟨_, -, ⟨⟩⟩ | ⟨_, ⟨⟩⟩ | ⟨_, _, ⟨⟩⟩ :=
      (ensures_kept_or_substitute hp h above fs).of_run sound_nil hvalue
  | null | bool _ | number _ | string _ =>
    rw [Processors.value] at hvalue
    · cases hvalue
    all_goals simp

/-! ### Texts -/

/-- Away from code properties a text stays as it is, and nothing becomes a text. -/
lemma asString?_of_value (hp : p.keywords = builtinKeywords p.composer.schema)
    (h : p.setUp (fun definition => definition.processor (p.context module)) = .ok processors)
    (hplace : ∀ resource, p.composer.schema.resourceWithCode (Node.path ⟨v, above⟩) ≠
      .ok resource)
    (hvalue : outcome (processors.value above v) = .ok w) : w.asString? = v.asString? := by
  cases v with
  | object fs =>
    obtain ⟨gs, rfl⟩ := (ensures_object_of_builtin hp h hplace).of_run sound_nil hvalue
    rfl
  | array xs =>
    obtain ⟨ys, rfl, -⟩ := (ensures_array hp h above xs).of_run sound_nil hvalue
    rfl
  | null | bool _ | number _ | string _ =>
    rw [Processors.value] at hvalue
    · cases hvalue
      rfl
    all_goals simp

lemma textField_of_kept (hp : p.keywords = builtinKeywords p.composer.schema)
    (h : p.setUp (fun definition => definition.processor (p.context module)) = .ok processors)
    (hkept : KeptAt processors above fs gs) {key : String}
    (hplace : ∀ u resource, p.composer.schema.resourceWithCode
      (Node.path ⟨u, ⟨.key key, .object fs⟩ :: above⟩) ≠ .ok resource) :
    (Json.object gs).textField key = (Json.object fs).textField key := by
  unfold Json.textField
  congr 1
  cases hu : Json.field? (.object fs) key with
  | none =>
    have hkeys : key ∉ Fields.keys gs := hkept.keys_eq ▸ Fields.get?_eq_none_iff.mp hu
    have hnone : Json.field? (.object gs) key = none := Fields.get?_eq_none_iff.mpr hkeys
    rw [hnone]
  | some u =>
    obtain ⟨u', hu', houtcome⟩ := hkept.exists_of_get? hu
    have hsome : Json.field? (.object gs) key = some u' := hu'
    rw [hsome]
    exact asString?_of_value hp h (hplace u) houtcome

/-! ### Compiled resources -/

/-- `p.Makes module name body v`: the resource of a module is emitted, and keyword processing
makes `v` of it. -/
def Makes (p : Project) (module name : String) (body v : Json) : Prop :=
  ∃ (processors : Processors KeywordFailure Composing) (expanded made : Json),
    p.setUp (fun definition => definition.processor (p.context module)) = .ok processors ∧
    p.skips ⟨module, name⟩ body = false ∧ p.Emits ⟨module, name⟩ body made ∧
    outcome (processors.value (aroundResource expanded name) made) = .ok v

/-- A resource of a processed document that is no text was made of one that was emitted. -/
lemma makes_of_processed (hp : p.keywords = builtinKeywords p.composer.schema)
    (h : p.setUp (fun definition => definition.processor (p.context module)) = .ok processors)
    {document expanded processed : Json} (hdistinct : document.resources.Distinct)
    (hemitted : Fields.Kept (fun field made => p.Emits ⟨module, field.1⟩ field.2 made)
      (p.emittedAmong module document.resources) expanded.resources)
    (hvalue : outcome (processors.value [] expanded) = .ok processed) {r : String × Json}
    (hr : r ∈ processed.resources) (htext : r.2.asString? = none) :
    ∃ body, document.resources.get? r.1 = some body ∧ p.Makes module r.1 body r.2 := by
  obtain ⟨rs, hrs⟩ : ∃ rs, processed.field? "Resources" = some (.object rs) := by
    by_contra hnone
    push Not at hnone
    rw [resources_eq_nil hnone] at hr
    cases hr
  rw [resources_of_object hrs] at hr
  obtain ⟨u, hu, hvalue⟩ := exists_field_of_value hp h hvalue hrs rfl
  obtain ⟨fs, rfl, hkept⟩ := kept_of_value hp h hvalue hr htext
  have hresources := resources_of_object hu
  rw [hresources] at hemitted
  obtain ⟨⟨name, made⟩, hmade, hname, hvalue⟩ := hkept.exists_of_mem hr
  obtain ⟨⟨_, body⟩, hbody, rfl, hemits⟩ := hemitted.exists_of_mem hmade
  obtain ⟨hmem, hskips⟩ := List.mem_filter.mp hbody
  rw [hname]
  refine ⟨body, hdistinct.get?_of_mem hmem, processors, expanded, made, h, by simpa using hskips,
    hemits, ?_⟩
  simpa only [aroundResource, hresources] using hvalue

/-- A resource of a compiled module that is no text was made of a resource of the
module's document. -/
lemma ensures_makes (hp : p.keywords = builtinKeywords p.composer.schema) {document : Json}
    (hdocument : p.document module = .ok document) (hdistinct : document.resources.Distinct) :
    p.composer.Ensures (p.compile module)
      (fun compiled => ∀ key v, compiled.resources.get? key = some v → v.asString? = none →
        ∃ name body, key = p.moduleHash module ++ name ∧
          document.resources.get? name = some body ∧ p.Makes module name body v)
      fun _ => True := by
  refine ensures_of_steps hdocument (p.ensures_expandDocument_emits module document) ?_
  intro expanded hemitted
  refine ensures_of_value fun processors h => ?_
  refine (ensures_outcome hp h [] expanded).mono (fun processed hvalue key v hget htext => ?_)
    fun _ he => he
  rw [resources_renameDocument] at hget
  obtain ⟨r, hr, ⟨⟩⟩ := mem_rename (Fields.mem_of_get? hget)
  obtain ⟨body, hbody, hmakes⟩ := makes_of_processed hp h hdistinct hemitted hvalue hr htext
  exact ⟨r.1, body, rfl, hbody, hmakes⟩

end Project

end ModularTemplates
