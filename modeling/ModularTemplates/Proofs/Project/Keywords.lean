import Mathlib.Tactic.Lemma
import ModularTemplates.Proofs.Project.CompiledNames

/-!
# What keywords do to an object

Reference, parameter and function code either leave an object as it is or have it replaced as a
whole. So an object keeps its fields if none of its keywords takes effect, it is replaced if just
one does, and it can not be processed otherwise.
-/

namespace ModularTemplates

namespace Schema

/-- The names of the keywords. -/
def keywordNames (schema : Schema) : List String :=
  [schema.referenceKeyword, "Parameter", schema.functionKeyword]

lemma nodup_keywordNames_iff {schema : Schema} : schema.keywordNames.Nodup ↔
    schema.referenceKeyword ≠ "Parameter" ∧
    schema.referenceKeyword ≠ schema.functionKeyword ∧
    "Parameter" ≠ schema.functionKeyword := by
  simp [keywordNames, and_assoc]

/-- Whether a property of an object has it replaced: a keyword that is no reference by name. -/
def takesEffect (schema : Schema) (fs : Fields Json) (key : String) : Bool :=
  key == "Parameter" || key == schema.functionKeyword ||
    key == schema.referenceKeyword && ((fs.get? key).bind Json.asString?).isNone

/-- The properties of an object that have it replaced. -/
def effective (schema : Schema) (fs : Fields Json) : List String :=
  fs.keys.filter (schema.takesEffect fs)

/-- An object holds no parameter and no code, and its reference is by name. -/
structure Settled (schema : Schema) (fs : Fields Json) : Prop where
  parameter : "Parameter" ∉ fs.keys
  function : schema.functionKeyword ∉ fs.keys
  reference : ∀ v, fs.get? schema.referenceKeyword = some v → ∃ s, v = .string s

variable {schema : Schema} {fs : Fields Json}

lemma takesEffect_iff {key : String} : schema.takesEffect fs key = true ↔
    key = "Parameter" ∨ key = schema.functionKeyword ∨
      key = schema.referenceKeyword ∧ ((fs.get? key).getD .null).asString? = none := by
  have hvalue : ((fs.get? key).bind Json.asString?).isNone = true ↔
      ((fs.get? key).getD .null).asString? = none := by
    cases fs.get? key with
    | none => simp [Json.asString?]
    | some v => simp
  simp only [takesEffect, Bool.or_eq_true, beq_iff_eq, Bool.and_eq_true, hvalue, or_assoc]

/-- In settled objects, and only there, no keyword takes effect. -/
lemma effective_eq_nil_iff : schema.effective fs = [] ↔ schema.Settled fs := by
  simp only [effective, List.filter_eq_nil_iff, takesEffect_iff]
  constructor
  · intro h
    refine ⟨fun hmem => h _ hmem (.inl rfl), fun hmem => h _ hmem (.inr (.inl rfl)),
      fun v hv => ?_⟩
    have hstring := h _ (Fields.mem_keys_of_get? hv)
    rw [hv] at hstring
    cases v with
    | string s => exact ⟨s, rfl⟩
    | _ => exact absurd (.inr (.inr ⟨rfl, rfl⟩)) hstring
  · rintro ⟨hparameter, hfunction, hreference⟩ key hkey (rfl | rfl | ⟨rfl, hstring⟩)
    · exact hparameter hkey
    · exact hfunction hkey
    · obtain ⟨v, hv⟩ := Fields.mem_keys_iff.mp hkey
      obtain ⟨s, rfl⟩ := hreference v hv
      rw [hv] at hstring
      cases hstring

end Schema

/-- A processor has failed, or replacements of one object are in conflict. -/
inductive Interruption.Refused {ε : Type} : Interruption ε → Prop
  | failed (path : Path) (keyword : String) (cause : ε) :
      Refused (.failed (.failed path keyword cause))
  | conflict (path : Path) (keywords : List String) : Refused (.failed (.conflict path keywords))

lemma Interruption.Refused.final {ε : Type} {e : Interruption ε} (h : e.Refused) : e.Final := by
  cases h <;> trivial

namespace Project

open Composer

variable {p : Project} {module : String} {processors : Processors KeywordFailure Composing}

/-- The processors of the keywords in a module. -/
def builtinProcessors (p : Project) (module : String) : Processors KeywordFailure Composing :=
  [(p.composer.schema.referenceKeyword, referenceProcessor (p.context module)),
    ("Parameter", parameterProcessor),
    (p.composer.schema.functionKeyword, p.composer.schema.functionProcessor (p.context module))]

lemma setUp_builtinProcessors (hp : p.keywords = builtinKeywords p.composer.schema)
    (hnames : p.composer.schema.keywordNames.Nodup) (module : String) :
    p.setUp (fun definition => definition.processor (p.context module)) =
      .ok (p.builtinProcessors module) := by
  refine setUp_eq_ok ?_ hnames
  rw [hp]
  exact .cons ⟨rfl, rfl⟩ (.cons ⟨rfl, rfl⟩ (.cons ⟨rfl, rfl⟩ .nil))

lemma get?_builtinProcessors (module : String) (hnames : p.composer.schema.keywordNames.Nodup) :
    (p.builtinProcessors module).get? p.composer.schema.referenceKeyword =
      some (referenceProcessor (p.context module)) ∧
    (p.builtinProcessors module).get? "Parameter" = some parameterProcessor ∧
    (p.builtinProcessors module).get? p.composer.schema.functionKeyword =
      some (p.composer.schema.functionProcessor (p.context module)) := by
  obtain ⟨hparameter, hfunction, hfunction'⟩ := Schema.nodup_keywordNames_iff.mp hnames
  simp [builtinProcessors, Fields.get?, hparameter, hfunction, hfunction']

/-- `p.Replaces module path keyword v w`: a keyword with the value `v` has the object at a path
replaced by `w`. -/
inductive Replaces (p : Project) (module : String) (path : Path) :
    (keyword : String) → (v w : Json) → Prop
  | reference {v : Json} {name : String} (hv : v.asString? = none)
      (hname : (p.context module).resolve v = .ok name) :
      Replaces p module path p.composer.schema.referenceKeyword v
        (.single p.composer.schema.referenceKeyword (.string name))
  | parameter (name : String) :
      Replaces p module path "Parameter" (.string name) (.single "Ref" (.string name))
  | code {v : Json} {resource : String} {composed : ComposedFunction}
      (hplace : p.composer.schema.resourceWithCode path = .ok resource)
      (hcomposed : p.composer.compose ⟨module, resource⟩ = .ok composed) :
      Replaces p module path p.composer.schema.functionKeyword v
        (.string (composed.function.artifactKey (p.moduleHash composed.function.module)))

/-- What becomes of an object whose fields have been processed. -/
inductive Becomes (p : Project) (module : String) (path : Path) (fs : Fields Json) : Json → Prop
  | kept (h : p.composer.schema.effective fs = []) : Becomes p module path fs (.object fs)
  | replaced {keyword : String} {w : Json} (h : p.composer.schema.effective fs = [keyword])
      (hw : p.Replaces module path keyword ((fs.get? keyword).getD .null) w) :
      Becomes p module path fs w

/-! ### One keyword -/

variable {path : Path} {keyword : String} {node : Node} {v w : Json}

lemma replaces_iff : p.Replaces module path keyword v w ↔
    (keyword = p.composer.schema.referenceKeyword ∧ v.asString? = none ∧
      ∃ name, (p.context module).resolve v = .ok name ∧ w = .single keyword (.string name)) ∨
    (keyword = "Parameter" ∧ ∃ name, v = .string name ∧ w = .single "Ref" (.string name)) ∨
    (keyword = p.composer.schema.functionKeyword ∧
      ∃ resource composed, p.composer.schema.resourceWithCode path = .ok resource ∧
        p.composer.compose ⟨module, resource⟩ = .ok composed ∧
        w = .string (composed.function.artifactKey (p.moduleHash composed.function.module))) := by
  constructor
  · rintro (⟨hv, hname⟩ | ⟨name⟩ | ⟨hplace, hcomposed⟩)
    · exact .inl ⟨rfl, hv, _, hname, rfl⟩
    · exact .inr (.inl ⟨rfl, _, rfl, rfl⟩)
    · exact .inr (.inr ⟨rfl, _, _, hplace, hcomposed, rfl⟩)
  · rintro (⟨rfl, hv, name, hname, rfl⟩ | ⟨rfl, name, rfl, rfl⟩ |
      ⟨rfl, resource, composed, hplace, hcomposed, rfl⟩)
    · exact .reference hv hname
    · exact .parameter name
    · exact .code hplace hcomposed

lemma ensures_reference_exact (hnames : p.composer.schema.keywordNames.Nodup)
    (hv : v.asString? = none) :
    p.composer.Ensures
      (referenceProcessor (p.context module) p.composer.schema.referenceKeyword node v)
      (fun answer => ∃ w, answer = .object w 0 ∧
        p.Replaces module node.path p.composer.schema.referenceKeyword v w)
      fun _ => ∀ w, ¬ p.Replaces module node.path p.composer.schema.referenceKeyword v w := by
  obtain ⟨hparameter, hfunction, hfunction'⟩ := Schema.nodup_keywordNames_iff.mp hnames
  unfold referenceProcessor
  split
  · cases hv
  · split
    · rename_i name hname
      exact ensures_pure ⟨_, rfl, .reference hv hname⟩
    · rename_i e he
      refine ensures_throw fun w => ?_
      rw [replaces_iff]
      rintro (⟨-, -, name, hname, -⟩ | ⟨hkeyword, -⟩ | ⟨hkeyword, -⟩)
      · rw [he] at hname
        cases hname
      · exact hparameter hkeyword
      · exact hfunction hkeyword

lemma ensures_parameter_exact (hnames : p.composer.schema.keywordNames.Nodup) :
    p.composer.Ensures (parameterProcessor "Parameter" node v)
      (fun answer => ∃ w, answer = .object w 0 ∧ p.Replaces module node.path "Parameter" v w)
      fun _ => ∀ w, ¬ p.Replaces module node.path "Parameter" v w := by
  obtain ⟨hparameter, hfunction, hfunction'⟩ := Schema.nodup_keywordNames_iff.mp hnames
  unfold parameterProcessor
  split
  · exact ensures_pure ⟨_, rfl, .parameter _⟩
  · rename_i hv
    refine ensures_throw fun w => ?_
    rw [replaces_iff]
    rintro (⟨hkeyword, -⟩ | ⟨-, name, hname, -⟩ | ⟨hkeyword, -⟩)
    · exact hparameter hkeyword.symm
    · exact hv name hname
    · exact hfunction' hkeyword

lemma ensures_code_exact (hnames : p.composer.schema.keywordNames.Nodup) :
    p.composer.Ensures
      (p.composer.schema.functionProcessor
        (p.context module) p.composer.schema.functionKeyword node v)
      (fun answer => ∃ w, answer = .object w 0 ∧
        p.Replaces module node.path p.composer.schema.functionKeyword v w)
      fun _ => ∀ w, ¬ p.Replaces module node.path p.composer.schema.functionKeyword v w := by
  obtain ⟨hparameter, hfunction, hfunction'⟩ := Schema.nodup_keywordNames_iff.mp hnames
  have hnot :
    (∀ resource composed, p.composer.schema.resourceWithCode node.path = .ok resource →
      p.composer.compose ⟨module, resource⟩ ≠ .ok composed) →
      ∀ w, ¬ p.Replaces module node.path p.composer.schema.functionKeyword v w := by
    intro h w
    rw [replaces_iff]
    rintro (⟨hkeyword, -⟩ | ⟨hkeyword, -⟩ | ⟨-, resource, composed, hplace,
      hcomposed, -⟩)
    · exact hfunction hkeyword.symm
    · exact hfunction' hkeyword.symm
    · exact h resource composed hplace hcomposed
  unfold Schema.functionProcessor
  split
  · rename_i e he
    refine ensures_throw (hnot fun resource composed hplace => ?_)
    rw [he] at hplace
    cases hplace
  · rename_i resource hplace
    refine Ensures.bind (Ensures.adapt ((p.composer.ensures_compose ⟨module, resource⟩).mono
      (fun _ h => h) fun e he => hnot fun other composed hother hcomposed => ?_))
      fun composed hcomposed => ensures_pure ⟨_, rfl, .code hplace hcomposed⟩
    cases hplace.symm.trans hother
    cases he.symm.trans hcomposed

lemma ensures_reference_unchanged (hv : v.asString? ≠ none) :
    p.composer.Ensures (referenceProcessor (p.context module) keyword node v) (· = .unchanged)
      fun _ => False := by
  unfold referenceProcessor
  split
  · exact ensures_pure rfl
  · rename_i hv'
    cases v with
    | string s => exact absurd rfl (hv' s)
    | _ => exact absurd rfl hv

/-- What takes effect has a processor. -/
lemma exists_of_takesEffect (hnames : p.composer.schema.keywordNames.Nodup) {fs : Fields Json}
    (h : p.composer.schema.takesEffect fs keyword = true) :
    ∃ processor, (p.builtinProcessors module).get? keyword = some processor := by
  obtain ⟨hreference, hparameter, hfunction⟩ := get?_builtinProcessors module hnames
  rcases Schema.takesEffect_iff.mp h with rfl | rfl | ⟨rfl, -⟩
  · exact ⟨_, hparameter⟩
  · exact ⟨_, hfunction⟩
  · exact ⟨_, hreference⟩

/-- A keyword replaces the object if it takes effect, unless its processor fails. -/
lemma ensures_keyword (hp : p.keywords = builtinKeywords p.composer.schema)
    (hnames : p.composer.schema.keywordNames.Nodup) {processor : Processor KeywordFailure Composing}
    (hprocessor : (p.builtinProcessors module).get? keyword = some processor) (node : Node)
    (fs : Fields Json) :
    if p.composer.schema.takesEffect fs keyword = true then
      p.composer.Ensures (processor keyword node ((fs.get? keyword).getD .null))
        (fun answer => ∃ w, answer = .object w 0 ∧
          p.Replaces module node.path keyword ((fs.get? keyword).getD .null) w)
        fun _ => ∀ w, ¬ p.Replaces module node.path keyword ((fs.get? keyword).getD .null) w
    else
      p.composer.Ensures (processor keyword node ((fs.get? keyword).getD .null)) (· = .unchanged)
        fun _ => False := by
  have hsetUp := setUp_builtinProcessors hp hnames module
  obtain ⟨rfl, rfl⟩ | ⟨rfl, rfl⟩ | ⟨rfl, rfl⟩ := builtin_of_setUp hp hsetUp hprocessor
  · split_ifs with heffect
    · refine ensures_reference_exact hnames ?_
      obtain ⟨hparameter, hfunction, -⟩ := Schema.nodup_keywordNames_iff.mp hnames
      rcases Schema.takesEffect_iff.mp heffect with heq | heq | ⟨-, hv⟩
      · exact absurd heq hparameter
      · exact absurd heq hfunction
      · exact hv
    · refine ensures_reference_unchanged fun hv => heffect ?_
      exact Schema.takesEffect_iff.mpr (.inr (.inr ⟨rfl, hv⟩))
  · rw [if_pos (Schema.takesEffect_iff.mpr (.inl rfl))]
    exact ensures_parameter_exact hnames
  · rw [if_pos (Schema.takesEffect_iff.mpr (.inr (.inl rfl)))]
    exact ensures_code_exact hnames

/-! ### All keywords of an object -/

/-- One replacement is made, none keeps the object, and more are in conflict. -/
lemma applyAnswers_of_replies {R : String → Json → Prop} {keywords : List String}
    {replies : List (String × Replacement)} (node : Node) (fs : Fields Json)
    (h : List.Forall₂
      (fun keyword reply => reply.1 = keyword ∧ ∃ w, reply.2 = .object w 0 ∧ R keyword w)
      keywords replies) :
    (∀ v, applyAnswers (ε := KeywordFailure) node fs replies = .ok v →
      keywords = [] ∧ v = .object fs ∨ ∃ keyword, keywords = [keyword] ∧ R keyword v) ∧
    ∀ e, applyAnswers (ε := KeywordFailure) node fs replies = .error e →
      e.Refused ∧ 2 ≤ keywords.length := by
  cases h with
  | nil =>
    refine ⟨?_, by simp [applyAnswers]⟩
    rintro _ ⟨⟩
    exact .inl ⟨rfl, rfl⟩
  | @cons _ reply _ _ hreply hrest =>
    obtain ⟨rfl, w, hw, hR⟩ := hreply
    cases hrest with
    | nil =>
      obtain ⟨keyword, answer⟩ := reply
      subst hw
      refine ⟨?_, by simp [applyAnswers]⟩
      rintro _ ⟨⟩
      exact .inr ⟨_, rfl, hR⟩
    | @cons _ reply' _ replies =>
      have hconflict : applyAnswers (ε := KeywordFailure) node fs (reply :: reply' :: replies) =
          .error (.failed (.conflict node.path ((reply :: reply' :: replies).map Prod.fst))) := by
        simp [applyAnswers, hw, Replacement.isObject]
      rw [hconflict]
      refine ⟨by simp, ?_⟩
      rintro _ ⟨⟩
      exact ⟨.conflict _ _, by simp⟩

/-- The properties of an object that take effect are replied to in their order, unless a
processor fails. -/
lemma ensures_replies (module : String) (hp : p.keywords = builtinKeywords p.composer.schema)
    (hnames : p.composer.schema.keywordNames.Nodup) (node : Node) (processed : Fields Json)
    (fs : List (String × Json)) :
    p.composer.Ensures (answers (p.builtinProcessors module) node processed fs)
      (fun replies => List.Forall₂ (fun keyword reply => reply.1 = keyword ∧
        ∃ w, reply.2 = .object w 0 ∧
          p.Replaces module node.path keyword ((processed.get? keyword).getD .null) w)
        ((Fields.keys fs).filter (p.composer.schema.takesEffect processed)) replies)
      fun e => e.Refused ∧
        ∃ keyword ∈ (Fields.keys fs).filter (p.composer.schema.takesEffect processed),
          ∀ w, ¬ p.Replaces module node.path keyword
            ((processed.get? keyword).getD .null) w := by
  induction fs with
  | nil => exact ensures_pure .nil
  | cons field fs ih =>
    obtain ⟨k, v⟩ := field
    rw [answers, Fields.keys_cons, List.filter_cons]
    cases hprocessor : (p.builtinProcessors module).get? k with
    | none =>
      have heffect : p.composer.schema.takesEffect processed k = false := by
        rw [Bool.eq_false_iff]
        intro heffect
        obtain ⟨processor, hsome⟩ := exists_of_takesEffect hnames heffect
        rw [hprocessor] at hsome
        cases hsome
      rw [heffect]
      exact ih
    | some processor =>
      have hkeyword := ensures_keyword hp hnames hprocessor node processed
      dsimp only
      split_ifs at hkeyword ⊢ with heffect
      · have hask := hkeyword.mono (fun _ h => h) fun e he =>
          (⟨.failed _ _ e, k, List.mem_cons_self, he⟩ :
            Interruption.Refused (.failed (.failed node.path k e)) ∧
            ∃ keyword ∈ k :: (Fields.keys fs).filter (p.composer.schema.takesEffect processed),
              ∀ w, ¬ p.Replaces module node.path keyword ((processed.get? keyword).getD .null) w)
        refine (Ensures.adapt hask).bind ?_
        rintro _ ⟨w, rfl, hw⟩
        refine (ih.mono (fun _ h => h) ?_).bind fun replies hreplies =>
          ensures_pure (.cons ⟨rfl, w, rfl, hw⟩ hreplies)
        rintro e ⟨hrefused, keyword, hmem, hno⟩
        exact ⟨hrefused, keyword, List.mem_cons_of_mem k hmem, hno⟩
      · have hask : p.composer.Ensures
            (askProcessor processor k node ((processed.get? k).getD .null)) (· = .unchanged)
            fun e => e.Refused ∧
              ∃ keyword ∈ (Fields.keys fs).filter (p.composer.schema.takesEffect processed),
                ∀ w, ¬ p.Replaces module node.path keyword
                  ((processed.get? keyword).getD .null) w :=
          Ensures.adapt (hkeyword.mono (fun _ h => h) fun _ he => he.elim)
        refine hask.bind ?_
        rintro _ rfl
        exact ih.bind fun replies hreplies => ensures_pure hreplies

/-- What becomes of an object is known from its processed fields. -/
lemma ensures_becomes (hp : p.keywords = builtinKeywords p.composer.schema)
    (hnames : p.composer.schema.keywordNames.Nodup) (above : List Crumb) {fs gs : Fields Json}
    (hkeys : gs.keys = fs.keys) :
    p.composer.Ensures (do
        let replies ← answers (p.builtinProcessors module) ⟨.object fs, above⟩ gs fs
        ExceptT.mk (pure (applyAnswers ⟨.object fs, above⟩ gs replies)))
      (p.Becomes module (Node.path ⟨.object fs, above⟩) gs)
      fun e => e.Refused ∧ ∀ w,
        ¬ p.Becomes module (Node.path ⟨.object fs, above⟩) gs w := by
  have heffective : (Fields.keys fs).filter (p.composer.schema.takesEffect gs) =
      p.composer.schema.effective gs := by
    rw [Schema.effective, hkeys]
  have hreplies := ensures_replies module hp hnames ⟨.object fs, above⟩ gs fs
  rw [heffective] at hreplies
  refine (hreplies.mono (fun _ h => h) ?_).bind fun replies hreplies => ?_
  · rintro e ⟨hrefused, keyword, hmem, hno⟩
    refine ⟨hrefused, ?_⟩
    rintro w (hkept | ⟨hone, hw⟩)
    · rw [hkept] at hmem
      cases hmem
    · rw [hone, List.mem_singleton] at hmem
      subst hmem
      exact hno w hw
  · obtain ⟨hok, herror⟩ := applyAnswers_of_replies ⟨.object fs, above⟩ gs hreplies
    refine ensures_mk_pure (fun w hw => ?_) fun e he => ?_
    · rcases hok w hw with ⟨hnil, rfl⟩ | ⟨keyword, hone, hw⟩
      · exact .kept hnil
      · exact .replaced hone hw
    · obtain ⟨hrefused, hlength⟩ := herror e he
      refine ⟨hrefused, ?_⟩
      rintro w (hnil | ⟨hone, -⟩)
      · simp [hnil] at hlength
      · simp [hone] at hlength

/-- An object whose fields can be processed becomes what its processed fields tell. -/
lemma ensures_object_exact (hp : p.keywords = builtinKeywords p.composer.schema)
    (hnames : p.composer.schema.keywordNames.Nodup) {above : List Crumb} {fs : Fields Json}
    {good : Fields Json → Prop} {bad : Interruption KeywordFailure → Prop}
    (hfields : p.composer.Ensures
      ((p.builtinProcessors module).fields (.object fs) above fs) good bad)
    (hkeys : ∀ gs, good gs → gs.keys = fs.keys) :
    p.composer.Ensures ((p.builtinProcessors module).value above (.object fs))
      (fun w => ∃ gs, good gs ∧ p.Becomes module (Node.path ⟨.object fs, above⟩) gs w)
      fun e => bad e ∨
        e.Refused ∧ ∃ gs, good gs ∧
          ∀ w, ¬ p.Becomes module (Node.path ⟨.object fs, above⟩) gs w := by
  rw [Processors.value]
  refine (hfields.mono (fun _ h => h) fun _ he => .inl he).bind fun gs hgs => ?_
  refine (ensures_becomes hp hnames above (hkeys gs hgs)).mono ?_ ?_
  · exact fun w hw => ⟨gs, hgs, hw⟩
  · exact fun e ⟨hrefused, hno⟩ => .inr ⟨hrefused, gs, hgs, hno⟩

end Project

end ModularTemplates
