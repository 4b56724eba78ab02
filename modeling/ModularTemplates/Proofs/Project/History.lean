import Mathlib.Tactic.Lemma
import ModularTemplates.Proofs.Project.Requests
import ModularTemplates.Proofs.Project.Steps

/-!
# Projects have no history

The functions composed so far are the only state of a project, and no answer shows it. Validating,
compiling and looking up use the cache only to ask for functions, also when they fail half way, as
long as the processors of the keywords do the same.
-/

namespace ModularTemplates

/-! ### Processing keywords -/

section Processing

variable {ε : Type} {c : Composer} {ps : Processors ε Composing}

/-- All processors use the cache only to ask for functions. -/
def Processors.Ask (c : Composer) (ps : Processors ε Composing) : Prop :=
  ∀ keyword processor, ps.get? keyword = some processor →
    ∀ name node v, c.Asking (processor name node v)

lemma asking_settle {x : Rebuild ε Composing Json} (h : c.Asking x) : c.Asking (settle x) := by
  refine h.tryCatch fun e => ?_
  cases e with
  | pending level v origin requested =>
    cases level with
    | zero => exact c.asking_pure v
    | succ level => exact c.asking_throw _
  | failed e => exact c.asking_throw _

lemma asking_answers (hps : ps.Ask c) (node : Node) (processed : Fields Json)
    (fs : List (String × Json)) : c.Asking (answers ps node processed fs) := by
  induction fs with
  | nil => exact c.asking_pure []
  | cons field fs ih =>
    obtain ⟨k, v⟩ := field
    rw [answers]
    split
    · exact ih
    · rename_i processor hprocessor
      refine ((hps k processor hprocessor k node _).adapt _).bind fun answer => ?_
      exact ih.bind fun rest => c.asking_pure _

mutual
lemma asking_value (hps : ps.Ask c) (above : List Crumb) (v : Json) :
    c.Asking (ps.value above v) := by
  match v with
  | .object fs =>
    rw [Processors.value]
    refine (asking_fields hps (.object fs) above fs).bind fun processed => ?_
    exact (asking_answers hps _ processed fs).bind fun replies => c.asking_mk_pure _
  | .array xs =>
    rw [Processors.value]
    exact (asking_items hps (.array xs) above 0 xs).bind fun xs => c.asking_pure _
  | .null | .bool _ | .number _ | .string _ =>
    rw [Processors.value]
    · exact c.asking_pure _
    all_goals simp

lemma asking_fields (hps : ps.Ask c) (parent : Json) (above : List Crumb)
    (fs : List (String × Json)) :
    c.Asking (ps.fields parent above fs) := by
  match fs with
  | [] =>
    rw [Processors.fields]
    exact c.asking_pure []
  | (k, v) :: fs =>
    rw [Processors.fields]
    refine (asking_settle (asking_value hps (⟨.key k, parent⟩ :: above) v)).bind fun v => ?_
    exact (asking_fields hps parent above fs).bind fun fs => c.asking_pure _

lemma asking_items (hps : ps.Ask c) (parent : Json) (above : List Crumb) (i : Nat)
    (xs : List Json) :
    c.Asking (ps.items parent above i xs) := by
  match xs with
  | [] =>
    rw [Processors.items]
    exact c.asking_pure []
  | x :: xs =>
    rw [Processors.items]
    refine (asking_settle (asking_value hps (⟨.index i, parent⟩ :: above) x)).bind fun x => ?_
    exact (asking_items hps parent above (i + 1) xs).bind fun xs => c.asking_pure _
end

theorem asking_processKeywords (hps : ps.Ask c) (document : Json) :
    c.Asking (processKeywords ps document) :=
  (asking_settle (asking_value hps [] document)).adapt _

end Processing

/-! ### Compiling -/

namespace Project

variable {p : Project}

/-- No keyword keeps a state of its own: what a processor does with the cache is to ask for
functions. What it answers may depend on everything that it is given and on the functions
that it asks for. -/
def Stateless (p : Project) : Prop :=
  ∀ definition ∈ p.keywords, ∀ module processor,
    definition.processor (p.context module) = .ok processor →
      ∀ keyword node v, p.composer.Asking (processor keyword node v)

/-- Whether a resource is emitted as a composed function. -/
def composesResource (p : Project) (id : ResourceId) (body : Json) : Bool :=
  !p.skips id body && p.composer.schema.isFunctionType (body.textField "Type")

/-- The functions among resources of a module, in document order. -/
def functionsAmong (p : Project) (module : String) (resources : List (String × Json)) :
    List ResourceId :=
  (resources.filter fun r => p.composesResource ⟨module, r.1⟩ r.2).map fun r =>
    ⟨module, r.1⟩

lemma functionsAmong_cons (module name : String) (body : Json) (resources : List (String × Json)) :
    p.functionsAmong module ((name, body) :: resources) =
      (if p.composesResource ⟨module, name⟩ body then [⟨module, name⟩] else []) ++
        p.functionsAmong module resources := by
  unfold functionsAmong
  rw [List.filter_cons]
  split <;> simp

lemma asks_expandResource (id : ResourceId) (body : Json) :
    ∃ ids r, p.composer.Asks (p.expandResource id body).run ids r ∧
      ∀ expanded, r = .ok expanded → ids = if p.composesResource id body then [id] else [] := by
  unfold composesResource
  cases hskips : p.skips id body with
  | true =>
    rw [expandResource_of_skips hskips]
    exact ⟨[], _, .answer _, by simp⟩
  | false =>
    cases htype : p.composer.schema.isFunctionType (body.textField "Type") with
    | true =>
      rw [expandResource_of_function hskips htype]
      have hfunction := (p.composer.asks_function id).adapt ProjectError.function
      cases hcompose : p.composer.compose id with
      | error e =>
        rw [hcompose] at hfunction
        exact ⟨_, _, hfunction.bind_error, by simp⟩
      | ok f =>
        rw [hcompose] at hfunction
        exact ⟨_, _, hfunction.bind_ok (.answer _), by simp⟩
    | false =>
      rw [expandResource_of_other hskips htype]
      cases p.families.get? id with
      | none => exact ⟨[], _, .answer _, by simp⟩
      | some family => exact ⟨[], _, .answer _, by simp⟩

lemma asks_expand (module : String) (resources : List (String × Json)) :
    ∃ ids r, p.composer.Asks (p.expand module resources).run ids r ∧
      ∀ expanded, r = .ok expanded → ids = p.functionsAmong module resources := by
  induction resources with
  | nil => exact ⟨[], _, .answer _, by simp [functionsAmong]⟩
  | cons r resources ih =>
    obtain ⟨name, body⟩ := r
    obtain ⟨ids, r, hresource, hids⟩ := p.asks_expandResource ⟨module, name⟩ body
    obtain ⟨ids', r', hrest, hids'⟩ := ih
    rw [expand]
    cases r with
    | error e => exact ⟨ids, _, hresource.bind_error, by simp⟩
    | ok expanded =>
      cases r' with
      | error e => exact ⟨_, _, hresource.bind_ok hrest.bind_error, by simp⟩
      | ok rest =>
        refine ⟨_, _, hresource.bind_ok (hrest.bind_ok (.answer _)), ?_⟩
        rintro _ ⟨⟩
        rw [hids _ rfl, hids' _ rfl, functionsAmong_cons, List.append_nil]

/-- The functions that the document of a module is emitted with. -/
def functionsOf (p : Project) (module : String) : List ResourceId :=
  match p.document module with
  | .ok document => p.functionsAmong module document.resources
  | .error _ => []

lemma asks_expandDocument (module : String) (document : Json) :
    ∃ ids r, p.composer.Asks (p.expandDocument module document).run ids r ∧
      ∀ expanded, r = .ok expanded → ids = p.functionsAmong module document.resources := by
  unfold expandDocument Json.resources
  split
  · rename_i resources hresources
    obtain ⟨ids, r, hexpand, hids⟩ := p.asks_expand module resources
    rw [hresources]
    cases r with
    | error e => exact ⟨ids, _, hexpand.bind_error, by simp⟩
    | ok expanded =>
      refine ⟨_, _, hexpand.bind_ok (.answer _), ?_⟩
      rintro _ ⟨⟩
      rw [List.append_nil]
      exact hids _ rfl
  · rename_i hresources
    refine ⟨[], _, .answer _, ?_⟩
    rintro _ ⟨⟩
    have hnone : ((document.field? "Resources").bind Json.asObject?).getD [] = [] := by
      cases h : document.field? "Resources" with
      | none => rfl
      | some v =>
        cases v with
        | object fs => exact absurd h (hresources fs)
        | _ => rfl
    rw [hnone]
    rfl

lemma asking_processDocument (hp : p.Stateless) (module : String) (document : Json) :
    p.composer.Asking (p.processDocument module document) := by
  unfold processDocument
  cases hsetUp : p.setUp fun definition => definition.processor (p.context module) with
  | error e => exact p.composer.asking_throw e
  | ok processors =>
    have hps : Processors.Ask p.composer processors := by
      intro keyword processor hprocessor
      obtain ⟨definition, hmem, -, hmake⟩ := exists_of_setUp hsetUp hprocessor
      exact fun name => hp definition hmem module processor hmake name
    exact (asking_processKeywords hps document).adapt _

/-- Compiling uses the cache only to ask for functions. A module that compiles has asked for all
functions that its document is emitted with. -/
theorem asks_compile (hp : p.Stateless) (module : String) :
    ∃ ids r, p.composer.Asks (p.compile module).run ids r ∧
      ∀ compiled, r = .ok compiled → p.functionsOf module ⊆ ids := by
  rw [compile_eq, functionsOf]
  cases p.document module with
  | error e => exact ⟨[], _, .answer _, by simp⟩
  | ok document =>
    obtain ⟨ids, r, hexpand, hids⟩ := p.asks_expandDocument module document
    cases r with
    | error e => exact ⟨_, _, hexpand.bind_error, by simp⟩
    | ok expanded =>
      obtain ⟨ids', r', hprocess⟩ := asking_processDocument hp module expanded
      cases r' with
      | error e => exact ⟨_, _, hexpand.bind_ok hprocess.bind_error, by simp⟩
      | ok processed =>
        refine ⟨_, _, hexpand.bind_ok (hprocess.bind_ok (.answer _)), ?_⟩
        intro _ _
        rw [hids _ rfl]
        exact List.subset_append_left _ _

/-! ### The keywords of every project -/

theorem stateless_of_builtin {schema : Schema} (h : p.keywords = builtinKeywords schema) :
    p.Stateless := by
  intro definition hmem module processor hprocessor keyword node v
  rw [h, builtinKeywords, List.mem_cons, List.mem_cons, List.mem_singleton] at hmem
  rcases hmem with rfl | rfl | rfl
  · cases hprocessor
    unfold referenceProcessor
    split
    · exact p.composer.asking_pure _
    · split
      · exact p.composer.asking_pure _
      · exact p.composer.asking_throw _
  · cases hprocessor
    unfold parameterProcessor
    split
    · exact p.composer.asking_pure _
    · exact p.composer.asking_throw _
  · cases hprocessor
    unfold Schema.functionProcessor
    split
    · exact p.composer.asking_throw _
    · refine ((p.composer.asking_function _).adapt _).bind fun composed => ?_
      exact p.composer.asking_pure _

theorem Stateless.withKeyword (hp : p.Stateless) {definition : KeywordDefinition Composing}
    (h : ∀ module processor, definition.processor (p.context module) = .ok processor →
      ∀ keyword node v, p.composer.Asking (processor keyword node v)) :
    (p.withKeyword definition).Stateless := by
  intro other hmem
  rcases List.mem_append.mp hmem with hmem | hmem
  · exact hp other (List.mem_of_mem_filter hmem)
  · rw [List.mem_singleton.mp hmem]
    exact h

/-! ### Calls -/

/-- What a project can be asked to do. -/
inductive Call where
  | validate (module : String)
  | validateAll
  | compile (module : String)
  | function (id : ResourceId)
  | resource (id : ResourceId)
deriving DecidableEq, Repr

/-- What a call answers. -/
def Call.Answer : Call → Type
  | .validate _ => Except ProjectError (List LocatedError)
  | .validateAll => Except ProjectError Report
  | .compile _ => Except ProjectError Json
  | .function _ => Except FunctionError ComposedFunction
  | .resource _ => Option Family

/-- Answer a call. -/
def answer (p : Project) : (call : Call) → Composing call.Answer
  | .validate module => pure (p.validate module)
  | .validateAll => pure p.validateAll
  | .compile module => (p.compile module).run
  | .function id => (p.composer.function id).run
  | .resource id => pure (p.families.get? id)

/-- Answer calls one after the other. -/
def answerAll (p : Project) : List Call → Composing (List (Sigma Call.Answer))
  | [] => return []
  | call :: calls => do
    let answer ← p.answer call
    let answers ← p.answerAll calls
    return ⟨call, answer⟩ :: answers

/-- The answer of a new project. -/
def firstAnswer (p : Project) (call : Call) : call.Answer :=
  ((p.answer call).run []).1

/-- The functions that a new project has composed after some calls. -/
def composedBy (p : Project) (calls : List Call) : FunctionCache :=
  ((p.answerAll calls).run []).2

lemma asks_answer (hp : p.Stateless) (call : Call) :
    ∃ ids, p.composer.Asks (p.answer call) ids (p.firstAnswer call) ∧
      (∀ id, call = .function id → ids = [id]) ∧
      ∀ module, call = .compile module →
        ∀ compiled, ((p.compile module).run.run []).1 = .ok compiled →
          p.functionsOf module ⊆ ids := by
  suffices ∃ ids answer, p.composer.Asks (p.answer call) ids answer ∧
      (∀ id, call = .function id → ids = [id]) ∧
      ∀ module, call = .compile module →
        ∀ compiled, ((p.compile module).run.run []).1 = .ok compiled →
            p.functionsOf module ⊆ ids by
    obtain ⟨ids, answer, hasks, hids⟩ := this
    refine ⟨ids, ?_, hids⟩
    rwa [firstAnswer, hasks.run_eq Composer.sound_nil]
  cases call with
  | validate module => exact ⟨[], _, .answer _, by simp, by simp⟩
  | validateAll => exact ⟨[], _, .answer _, by simp, by simp⟩
  | compile module =>
    obtain ⟨ids, r, hasks, hids⟩ := asks_compile hp module
    refine ⟨ids, r, hasks, by simp, ?_⟩
    rintro _ ⟨⟩ compiled hcompiled
    rw [hasks.run_eq Composer.sound_nil] at hcompiled
    exact hids compiled hcompiled
  | function id =>
    refine ⟨[id], _, p.composer.asks_function id, ?_, by simp⟩
    rintro _ ⟨⟩
    rfl
  | resource id => exact ⟨[], _, .answer _, by simp, by simp⟩

lemma asks_answerAll {requests : Call → List ResourceId}
    (h : ∀ call, p.composer.Asks (p.answer call) (requests call) (p.firstAnswer call))
    (calls : List Call) :
    p.composer.Asks (p.answerAll calls) (calls.flatMap requests)
      (calls.map fun call => ⟨call, p.firstAnswer call⟩) := by
  induction calls with
  | nil => exact .answer _
  | cons call calls ih =>
    have hrest := ih.bind (f := fun answers =>
      pure ((⟨call, p.firstAnswer call⟩ : Sigma Call.Answer) :: answers)) (.answer _)
    rw [List.append_nil] at hrest
    exact (h call).bind hrest

/-- Every call is answered as if it were the first one. There are as many compositions as functions
that some call asked for and that can be composed: a repeated call composes nothing anew, and a
failed composition leaves nothing behind. -/
theorem answers_without_history (hp : p.Stateless) :
    ∃ requests : Call → List ResourceId,
      (∀ call, p.composer.Asks (p.answer call) (requests call) (p.firstAnswer call)) ∧
      (∀ id, requests (.function id) = [id]) ∧
      (∀ module compiled, ((p.compile module).run.run []).1 = .ok compiled →
        p.functionsOf module ⊆ requests (.compile module)) ∧
      ∀ calls : List Call,
        ((p.answerAll calls).run []).1 = calls.map (fun call => ⟨call, p.firstAnswer call⟩) ∧
        ∀ n,
          (p.composedBy (calls.take n)).length =
            (((calls.take n).flatMap requests).filter p.composer.composes).dedup.length ∧
          (∀ call ∈ calls.take n,
            (p.answer call).run (p.composedBy (calls.take n)) =
              (p.firstAnswer call, p.composedBy (calls.take n))) ∧
          ∀ id e, p.composer.compose id = .error e →
            (p.answer (.function id)).run (p.composedBy (calls.take n)) =
              (.error e, p.composedBy (calls.take n)) := by
  choose requests hasks hfunction hcompile using asks_answer hp
  have hcache (calls : List Call) :
      p.composedBy calls = (calls.flatMap requests).foldl p.composer.remember [] := by
    rw [composedBy, (asks_answerAll hasks calls).run_eq Composer.sound_nil]
  have hsound (calls : List Call) : p.composer.Sound (p.composedBy calls) := by
    rw [hcache]
    exact Composer.sound_nil.foldl_remember _
  refine ⟨requests, hasks, fun id => hfunction _ id rfl,
    fun module => hcompile _ module rfl, fun calls => ⟨?_, fun n => ⟨?_, ?_, ?_⟩⟩⟩
  · rw [(asks_answerAll hasks calls).run_eq Composer.sound_nil]
  · rw [hcache, Composer.length_foldl_remember]
  · intro call hcall
    rw [(hasks call).run_eq (hsound _), Composer.foldl_remember_of_forall]
    intro id hid hcomposes
    rw [hcache, Composer.mem_keys_foldl_remember_iff]
    exact .inr ⟨List.mem_flatMap.mpr ⟨call, hcall, hid⟩, hcomposes⟩
  · intro id e hcompose
    have hrun := (hsound (calls.take n)).run_function id
    rw [hcompose, Composer.remember_of_error hcompose] at hrun
    exact hrun

/-- A module that can be compiled and a function that can not be composed. -/
theorem answers_without_history_failing :
    let apiBody : Json :=
      .object [("Type", .string "AWS::Serverless::Function"), ("Properties", .object
        [("CodeUri", .object [("Function", .object [("name", .string "api")])])])]
    let tableBody : Json := .object [("Type", .string "Table"), ("Properties", .object [])]
    let api : ResourceId := ⟨"app", "api"⟩
    let table : ResourceId := ⟨"app", "table"⟩
    let p : Project :=
      { composer :=
          { families :=
              { documents := [("app", ⟨.object [("Resources", .object
                  [("api", apiBody), ("table", tableBody)])], none⟩)]
                links := [⟨api, apiBody, none, []⟩, ⟨table, tableBody, none, []⟩]
                families :=
                  [⟨api, [api], apiBody, .leaf api⟩,
                    ⟨table, [table], tableBody, .leaf table⟩] }
            schema := .standard
            extensions := [] }
        keywords := builtinKeywords .standard
        parameters := []
        rootDir := "."
        moduleHash := id }
    let calls : List Call :=
      [.compile "app", .function table, .function api, .compile "app", .function table]
    Families.ofDocuments p.families.documents = .ok p.families ∧ p.Stateless ∧
      ((p.answerAll calls).run []).1 = calls.map (fun call => ⟨call, p.firstAnswer call⟩) ∧
      (p.composedBy calls).map Prod.fst = [api] ∧
      (p.answer (.compile "app")).run (p.composedBy calls) =
        (p.firstAnswer (.compile "app"), p.composedBy calls) ∧
      (p.answer (.function table)).run (p.composedBy calls) =
        (.error (.notAFunction table "Table"), p.composedBy calls) := by
  intro apiBody tableBody api table p calls
  have hp : p.Stateless := stateless_of_builtin rfl
  have hkeys : (p.composedBy calls).map Prod.fst = [api] := by decide +kernel
  have hcompose : p.composer.compose table = .error (.notAFunction table "Table") := by cbv
  obtain ⟨requests, -, -, -, hcalls⟩ := answers_without_history hp
  obtain ⟨hanswers, hprefixes⟩ := hcalls calls
  obtain ⟨-, hrepeated, hfailed⟩ := hprefixes calls.length
  rw [List.take_length] at hrepeated hfailed
  exact ⟨by cbv, hp, hanswers, hkeys, hrepeated _ List.mem_cons_self, hfailed table _ hcompose⟩

end Project

end ModularTemplates
