import Mathlib.Data.List.Forall2
import Mathlib.Tactic.Lemma
import ModularTemplates.Proofs.Project.Requests
import ModularTemplates.Proofs.Project.Steps

/-!
# What becomes of a document

A statement about a computation tells what holds of its answer, if it has one, and of its error
otherwise, whatever functions have been composed before. Processors that never reach for a container
around an object never interrupt what is rebuilt around it.
-/

namespace ModularTemplates

/-! ### Answers and errors -/

namespace Composer

variable {c : Composer} {ε ε' α β : Type} {x : ExceptT ε Composing α}
  {f : α → ExceptT ε Composing β} {good good' : α → Prop} {goodB : β → Prop}
  {bad bad' : ε → Prop}

/-- Whatever has been composed before, an answer is good and an error is bad, and the cache is used
as it is meant to be. -/
def Ensures (c : Composer) (x : ExceptT ε Composing α) (good : α → Prop)
    (bad : ε → Prop) : Prop :=
  ∀ cache, c.Sound cache → c.Sound (x.run.run cache).2 ∧
    match (x.run.run cache).1 with
    | .ok a => good a
    | .error e => bad e

lemma Ensures.of_run (h : c.Ensures x good bad) {cache : FunctionCache} (hcache : c.Sound cache)
    {a : α} (hrun : (x.run.run cache).1 = .ok a) : good a := by
  obtain ⟨-, houtcome⟩ := h cache hcache
  rwa [hrun] at houtcome

lemma Ensures.mono (h : c.Ensures x good bad) (hgood : ∀ a, good a → good' a)
    (hbad : ∀ e, bad e → bad' e) : c.Ensures x good' bad' := by
  intro cache hcache
  obtain ⟨hafter, houtcome⟩ := h cache hcache
  refine ⟨hafter, ?_⟩
  split at houtcome
  · exact hgood _ houtcome
  · exact hbad _ houtcome

lemma ensures_mk_pure {r : Except ε α} (hgood : ∀ a, r = .ok a → good a)
    (hbad : ∀ e, r = .error e → bad e) :
    c.Ensures (ExceptT.mk (pure r) : ExceptT ε Composing α) good bad := by
  intro cache hcache
  refine ⟨hcache, ?_⟩
  cases r with
  | ok a => exact hgood a rfl
  | error e => exact hbad e rfl

lemma ensures_pure {a : α} (h : good a) : c.Ensures (pure a : ExceptT ε Composing α) good bad :=
  fun _ hcache => ⟨hcache, h⟩

lemma ensures_throw {e : ε} (h : bad e) : c.Ensures (throw e : ExceptT ε Composing α) good bad :=
  fun _ hcache => ⟨hcache, h⟩

lemma ensures_function (c : Composer) (id : ResourceId) :
    c.Ensures (c.function id) (fun composed => c.compose id = .ok composed) fun _ => True := by
  intro cache hcache
  rw [hcache.run_function]
  refine ⟨hcache.remember id, ?_⟩
  split
  · assumption
  · trivial

lemma Ensures.bind (h : c.Ensures x good bad) (hf : ∀ a, good a → c.Ensures (f a) goodB bad) :
    c.Ensures (x >>= f) goodB bad := by
  intro cache hcache
  have houtcome := h cache hcache
  rw [ExceptT.run_bind, StateT.run_bind]
  generalize x.run.run cache = outcome at houtcome
  obtain ⟨r, after⟩ := outcome
  cases r with
  | ok a => exact hf a houtcome.2 after houtcome.1
  | error e => exact houtcome

lemma Ensures.adapt {g : ε → ε'} {bad : ε' → Prop}
    (h : c.Ensures x good fun e => bad (g e)) :
    c.Ensures (ExceptT.adapt g x) good bad := by
  intro cache hcache
  have houtcome := h cache hcache
  have hrun : (ExceptT.adapt g x).run = Except.mapError g <$> x.run := rfl
  rw [hrun, StateT.run_map]
  generalize x.run.run cache = outcome at houtcome
  obtain ⟨r, after⟩ := outcome
  cases r with
  | ok a => exact houtcome
  | error e => exact houtcome

lemma Ensures.tryCatch {handle : ε → ExceptT ε Composing α} (h : c.Ensures x good bad)
    (hhandle : ∀ e, bad e → c.Ensures (handle e) good bad') :
    c.Ensures (MonadExcept.tryCatch x handle) good bad' := by
  intro cache hcache
  have houtcome := h cache hcache
  have hrun : (MonadExcept.tryCatch x handle).run = x.run >>= fun r =>
      match r with
      | .ok a => pure (.ok a)
      | .error e => (handle e).run := rfl
  rw [hrun, StateT.run_bind]
  generalize x.run.run cache = outcome at houtcome
  obtain ⟨r, after⟩ := outcome
  cases r with
  | ok a => exact houtcome
  | error e => exact hhandle e houtcome.2 after houtcome.1

lemma ensures_compose (c : Composer) (id : ResourceId) :
    c.Ensures (c.function id) (fun composed => c.compose id = .ok composed)
      fun e => c.compose id = .error e := by
  intro cache hcache
  rw [hcache.run_function]
  refine ⟨hcache.remember id, ?_⟩
  split <;> assumption

lemma Ensures.and {good' : α → Prop} {bad' : ε → Prop} (h : c.Ensures x good bad)
    (h' : c.Ensures x good' bad') :
    c.Ensures x (fun a => good a ∧ good' a) fun e => bad e ∧ bad' e := by
  intro cache hcache
  obtain ⟨hafter, houtcome⟩ := h cache hcache
  obtain ⟨-, houtcome'⟩ := h' cache hcache
  refine ⟨hafter, ?_⟩
  split at houtcome
  · rename_i a ha
    rw [ha] at houtcome'
    exact ⟨houtcome, houtcome'⟩
  · rename_i e he
    rw [he] at houtcome'
    exact ⟨houtcome, houtcome'⟩

/-! ### Answers that do not depend on the cache -/

/-- What a computation answers if no function has been composed before. -/
def outcome (x : ExceptT ε Composing α) : Except ε α :=
  (x.run.run []).1

lemma Asking.run_eq (hx : c.Asking x) {cache : FunctionCache} (hcache : c.Sound cache) :
    (x.run.run cache).1 = outcome x := by
  obtain ⟨ids, r, hasks⟩ := hx
  rw [outcome, hasks.run_eq hcache, hasks.run_eq sound_nil]

/-- A computation goes on with the outcome of its first step. -/
lemma outcome_bind {x : ExceptT ε Composing α} {f : α → ExceptT ε Composing β}
    (hx : c.Asking x) (hf : ∀ a, c.Asking (f a)) :
    outcome (x >>= f) = outcome x >>= fun a => outcome (f a) := by
  obtain ⟨ids, r, hasks⟩ := hx
  have hrun := hasks.run_eq sound_nil
  have hr : outcome x = r := congrArg Prod.fst hrun
  rw [hr]
  cases r with
  | error e => exact congrArg Prod.fst (hasks.bind_error.run_eq sound_nil)
  | ok a =>
    obtain ⟨ids', r', hasks'⟩ := hf a
    have hrun' := hasks'.run_eq sound_nil
    exact (congrArg Prod.fst ((hasks.bind_ok hasks').run_eq sound_nil)).trans
      (congrArg Prod.fst hrun').symm

lemma outcome_adapt (g : ε → ε') (x : ExceptT ε Composing α) :
    outcome (ExceptT.adapt g x) = (outcome x).mapError g :=
  rfl

lemma Asking.ensures (hx : c.Asking x) :
    c.Ensures x (fun a => outcome x = .ok a) fun e => outcome x = .error e := by
  intro cache hcache
  have hrun := hx.run_eq hcache
  obtain ⟨ids, r, hasks⟩ := hx
  refine ⟨?_, ?_⟩
  · rw [hasks.run_eq hcache]
    exact hcache.foldl_remember ids
  · cases h : (x.run.run cache).1 <;> exact hrun.symm.trans h

end Composer

/-! ### Rebuilding -/

section Rebuild

open Composer

variable {c : Composer} {ε : Type} {ps : Processors ε Composing}

/-- Nothing around the place of the interruption is going to be replaced. -/
def Interruption.Final : Interruption ε → Prop
  | .pending _ _ _ _ => False
  | .failed _ => True

lemma ensures_settle {x : Rebuild ε Composing Json} {good : Json → Prop}
    (h : c.Ensures x good Interruption.Final) : c.Ensures (settle x) good Interruption.Final := by
  refine h.tryCatch fun e he => ?_
  cases e with
  | pending level v origin requested => exact he.elim
  | failed e => exact ensures_throw trivial

lemma ensures_answers {Q : Replacement → Prop} (node : Node) (processed : Fields Json)
    {fs : List (String × Json)}
    (h : ∀ keyword processor, keyword ∈ Fields.keys fs → ps.get? keyword = some processor →
      c.Ensures (processor keyword node ((processed.get? keyword).getD .null)) Q fun _ => True) :
    c.Ensures (answers ps node processed fs)
      (fun replies => ∀ reply ∈ replies, Q reply.2 ∧
        reply.2 ≠ .unchanged) Interruption.Final := by
  induction fs with
  | nil => exact ensures_pure (by simp)
  | cons field fs ih =>
    obtain ⟨k, v⟩ := field
    have hrest := ih fun keyword processor hkeyword =>
      h keyword processor (List.mem_cons_of_mem _ hkeyword)
    rw [answers]
    split
    · exact hrest
    · rename_i processor hprocessor
      have hanswer : c.Ensures (askProcessor processor k node ((processed.get? k).getD .null)) Q
          Interruption.Final :=
        ((h k processor List.mem_cons_self hprocessor).mono (fun _ ha => ha) fun _ _ =>
          trivial).adapt
      refine hanswer.bind fun answer hQ => hrest.bind fun replies hreplies => ensures_pure ?_
      cases answer with
      | unchanged => exact hreplies
      | object w level => exact List.forall_mem_cons.mpr ⟨⟨hQ, by simp⟩, hreplies⟩
      | keyword properties => exact List.forall_mem_cons.mpr ⟨⟨hQ, by simp⟩, hreplies⟩

/-- Replies that replace at most the object itself. -/
lemma applyAnswers_final (good : Json → Prop) (node : Node) (fs : Fields Json)
    {replies : List (String × Replacement)}
    (h : ∀ reply ∈ replies, ∀ w level, reply.2 = .object w level → level = 0 ∧ good w) :
    (∀ w, applyAnswers (ε := ε) node fs replies = .ok w →
        good w ∨ ∃ gs, w = .object gs) ∧
      ∀ e, applyAnswers (ε := ε) node fs replies = .error e → e.Final := by
  unfold applyAnswers
  split
  · rename_i k w
    refine ⟨?_, by simp⟩
    rintro _ ⟨⟩
    exact .inl (h _ List.mem_cons_self w 0 rfl).2
  · rename_i k w level
    exact absurd (h _ List.mem_cons_self w (level + 1) rfl).1 (by simp)
  · split
    · refine ⟨by simp, ?_⟩
      rintro _ ⟨⟩
      trivial
    · refine ⟨?_, by simp⟩
      rintro _ ⟨⟩
      exact .inr ⟨_, rfl⟩

/-- Processors that replace no container around the object. -/
def Processors.Local (c : Composer) (ps : Processors ε Composing) : Prop :=
  ∀ keyword processor, ps.get? keyword = some processor → ∀ name node v,
    c.Ensures (processor name node v)
      (fun answer => ∀ w level, answer = .object w level → level = 0)
      fun _ => True

mutual
lemma ensures_value (hps : ps.Local c) (above : List Crumb) (v : Json) :
    c.Ensures (ps.value above v) (fun _ => True) Interruption.Final := by
  match v with
  | .object fs =>
    rw [Processors.value]
    refine (ensures_fields hps (.object fs) above fs).bind fun processed _ => ?_
    have hanswers := ensures_answers ⟨.object fs, above⟩ processed (fun keyword processor
      (_ : keyword ∈ Fields.keys fs) hprocessor => hps keyword processor hprocessor keyword _ _)
    refine hanswers.bind fun replies hreplies => ?_
    have hfinal := applyAnswers_final (ε := ε) (fun _ => True) ⟨.object fs, above⟩ processed
      fun reply hreply w level hw => ⟨(hreplies reply hreply).1 w level hw, trivial⟩
    exact ensures_mk_pure (fun _ _ => trivial) hfinal.2
  | .array xs =>
    rw [Processors.value]
    exact (ensures_items hps (.array xs) above 0 xs).bind fun _ _ => ensures_pure trivial
  | .null | .bool _ | .number _ | .string _ =>
    rw [Processors.value]
    · exact ensures_pure trivial
    all_goals simp

lemma ensures_fields (hps : ps.Local c) (parent : Json) (above : List Crumb)
    (fs : List (String × Json)) :
    c.Ensures (ps.fields parent above fs) (fun _ => True) Interruption.Final := by
  match fs with
  | [] =>
    rw [Processors.fields]
    exact ensures_pure trivial
  | (k, v) :: fs =>
    rw [Processors.fields]
    refine (ensures_settle (ensures_value hps (⟨.key k, parent⟩ :: above) v)).bind fun _ _ => ?_
    exact (ensures_fields hps parent above fs).bind fun _ _ => ensures_pure trivial

lemma ensures_items (hps : ps.Local c) (parent : Json) (above : List Crumb) (i : Nat)
    (xs : List Json) :
    c.Ensures (ps.items parent above i xs) (fun _ => True) Interruption.Final := by
  match xs with
  | [] =>
    rw [Processors.items]
    exact ensures_pure trivial
  | x :: xs =>
    rw [Processors.items]
    refine (ensures_settle (ensures_value hps (⟨.index i, parent⟩ :: above) x)).bind
      fun _ _ => ?_
    exact (ensures_items hps parent above (i + 1) xs).bind fun _ _ => ensures_pure trivial
end

/-- Every field keeps its name, and what becomes of its value is good. -/
def Fields.Kept (good : String × Json → Json → Prop) (before after : Fields Json) : Prop :=
  List.Forall₂ (fun field field' => field'.1 = field.1 ∧ good field field'.2) before after

lemma ensures_each_field {good : String × Json → Json → Prop} {parent : Json}
    {above : List Crumb} {fs : List (String × Json)}
    (h : ∀ field ∈ fs, c.Ensures (ps.value (⟨.key field.1, parent⟩ :: above) field.2)
      (good field) Interruption.Final) :
    c.Ensures (ps.fields parent above fs) (Fields.Kept good fs) Interruption.Final := by
  induction fs with
  | nil =>
    rw [Processors.fields]
    exact ensures_pure .nil
  | cons field fs ih =>
    obtain ⟨k, v⟩ := field
    rw [Processors.fields]
    refine (ensures_settle (h (k, v) List.mem_cons_self)).bind fun w hw => ?_
    refine (ih fun field hfield => h field (List.mem_cons_of_mem _ hfield)).bind fun gs hgs => ?_
    exact ensures_pure (.cons ⟨rfl, hw⟩ hgs)

/-- An object stays an object if all replacements of it are objects. -/
lemma ensures_object {good : Fields Json → Prop} {above : List Crumb} {fs : List (String × Json)}
    (hfields : c.Ensures (ps.fields (.object fs) above fs) good Interruption.Final)
    (hanswers : ∀ processed, good processed →
      ∀ keyword processor, keyword ∈ Fields.keys fs →
      ps.get? keyword = some processor →
        c.Ensures (processor keyword ⟨.object fs, above⟩ ((processed.get? keyword).getD .null))
          (fun answer => ∀ w level, answer = .object w level →
            level = 0 ∧ ∃ gs, w = .object gs)
          fun _ => True) :
    c.Ensures (ps.value above (.object fs))
      (fun w => ∃ gs, w = .object gs) Interruption.Final := by
  rw [Processors.value]
  refine hfields.bind fun processed hprocessed => ?_
  refine (ensures_answers _ _ (hanswers processed hprocessed)).bind fun replies hreplies => ?_
  have hfinal := applyAnswers_final (ε := ε) _ ⟨.object fs, above⟩ processed
    fun reply hreply => (hreplies reply hreply).1
  exact ensures_mk_pure (fun w hw => (hfinal.1 w hw).elim id id) hfinal.2

/-- An object whose keywords all stay as they are keeps its fields. -/
lemma ensures_kept_object {good : Fields Json → Prop} {above : List Crumb}
    {fs : List (String × Json)}
    (hfields : c.Ensures (ps.fields (.object fs) above fs) good Interruption.Final)
    (hanswers : ∀ processed, good processed →
      ∀ keyword processor, keyword ∈ Fields.keys fs →
      ps.get? keyword = some processor →
        c.Ensures (processor keyword ⟨.object fs, above⟩ ((processed.get? keyword).getD .null))
          (· = .unchanged) fun _ => True) :
    c.Ensures (ps.value above (.object fs)) (fun w => ∃ gs, good gs ∧ w = .object gs)
      Interruption.Final := by
  rw [Processors.value]
  refine hfields.bind fun processed hprocessed => ?_
  refine (ensures_answers _ _ (hanswers processed hprocessed)).bind fun replies hreplies => ?_
  have hnil : replies = [] :=
    List.eq_nil_iff_forall_not_mem.mpr fun reply hreply =>
      (hreplies reply hreply).2 (hreplies reply hreply).1
  subst hnil
  refine ensures_mk_pure ?_ ?_
  · rintro _ ⟨⟩
    exact ⟨processed, hprocessed, rfl⟩
  · rintro _ ⟨⟩

end Rebuild

/-! ### The steps of compiling -/

namespace Project

variable {p : Project} {module : String} {document : Json} {good : Json → Prop}
  {bad : ProjectError → Prop}

/-- A document is expanded as its resources are, if it has any. -/
lemma ensures_expandDocument
    (hobject : ∀ resources, document.field? "Resources" = some (.object resources) →
      p.composer.Ensures (p.expand module resources)
        (fun kept => good (document.setField "Resources" (.object kept))) bad)
    (hnone : (∀ resources, document.field? "Resources" ≠ some (.object resources)) →
      good document) :
    p.composer.Ensures (p.expandDocument module document) good bad := by
  unfold expandDocument
  split
  · rename_i resources hresources
    exact (hobject resources hresources).bind fun kept hkept => Composer.ensures_pure hkept
  · rename_i hresources
    exact Composer.ensures_pure (hnone hresources)

/-- A document is processed as its value is by the processors of the project. -/
lemma ensures_of_value
    (h : ∀ processors : Processors KeywordFailure Composing,
      p.setUp (fun definition => definition.processor (p.context module)) = .ok processors →
        p.composer.Ensures (processors.value [] document) good Interruption.Final) :
    p.composer.Ensures (p.processDocument module document) good fun _ => True := by
  have hsetUp : p.composer.Ensures (ExceptT.mk (pure (p.setUp fun definition =>
      definition.processor (p.context module))) : ExceptT ProjectError Composing _)
      (fun processors => p.setUp (fun definition => definition.processor (p.context module)) =
        .ok processors) fun _ => True :=
    Composer.ensures_mk_pure (fun _ h => h) fun _ _ => trivial
  refine hsetUp.bind fun processors hprocessors =>
    Composer.Ensures.adapt (Composer.Ensures.adapt ?_)
  exact (ensures_settle (h processors hprocessors)).mono (fun _ hgood => hgood) fun _ _ => trivial

/-- A module is compiled by expanding its document, processing what comes out, and renaming
the resources. -/
lemma ensures_of_steps {expands : Json → Prop} (hdocument : p.document module = .ok document)
    (hexpand : p.composer.Ensures (p.expandDocument module document) expands bad)
    (hprocess : ∀ expanded, expands expanded →
      p.composer.Ensures (p.processDocument module expanded)
      (fun processed => good (p.renameDocument module processed)) bad) :
    p.composer.Ensures (p.compile module) good bad := by
  have hread :
    p.composer.Ensures (ExceptT.mk (pure (p.document module)) : ExceptT ProjectError Composing _)
      (· = document) bad := by
    rw [hdocument]
    exact Composer.ensures_pure rfl
  rw [compile_eq]
  refine hread.bind fun found hfound => ?_
  rw [hfound]
  exact hexpand.bind fun expanded hexpanded => (hprocess expanded hexpanded).bind
    fun processed hprocessed => Composer.ensures_pure hprocessed

end Project

end ModularTemplates
