import Mathlib.Data.List.ReduceOption
import Mathlib.Tactic.Lemma
import ModularTemplates.Proofs.Keyword.Answers
import ModularTemplates.Proofs.Project.EmittedResources
import ModularTemplates.Proofs.Project.Keywords
import ModularTemplates.Proofs.Same

/-!
# The order of keys

The keys of an object are gone through in their order, twice: its values are rebuilt one after
the other, and then its keywords are asked one after the other. Nothing of that order reaches the
result. What becomes of a value is settled by where the value stands, so an object is rebuilt
from its parts, and a keyword that has its object replaced as a whole answers the same wherever
it stands among the keys.

Only which of several failures comes first is a matter of order. So two runs are compared up
to their errors.
-/

namespace ModularTemplates

/-- Runs over names in different orders, whose values are the same, make objects that
are the same. -/
lemma Json.alike_fields {ε : Type} {names names' : List String} (hnames : names.Perm names')
    (hnodup : names.Nodup) {part part' : String → Except ε Json}
    (h : ∀ k ∈ names, Alike SameValue (part k) (part' k)) :
    Alike (fun fs gs => (object fs).SameValue (object gs))
      (names.mapM fun k => (part k).map fun v => (k, v))
      (names'.mapM fun k => (part' k).map fun v => (k, v)) := by
  have hvalues : ∀ k ∈ names,
    Alike (fun field field' => field.1 = field'.1 ∧ field.2.SameValue field'.2)
      ((part k).map fun v => (k, v)) ((part' k).map fun v => (k, v)) :=
    fun k hk => (h k hk).map fun _ _ hvalue => ⟨rfl, hvalue⟩
  refine ((Alike.mapM hvalues).trans (Alike.mapM_perm hnames _)).imp ?_
  rintro fs gs hfs - ⟨gs', hsame, hperm⟩
  have hkeys : List.Forall₂ Eq names (Fields.keys fs) := by
    refine List.forall₂_map_right_iff.mpr ((mapM_eq_ok_iff.mp hfs).imp fun k field hfield => ?_)
    obtain ⟨v, -, rfl⟩ := map_eq_ok_iff.mp hfield
    rfl
  rw [List.forall₂_eq_eq_eq] at hkeys
  exact .of_fields_perm hsame hperm (by rwa [Fields.Distinct, ← hkeys])

/-! ### Rebuilding part by part -/

section Outcomes

open Composer

variable {c : Composer} {ε : Type} {ps : Processors ε Composing}

/-- What is no pending replacement is not changed by settling it. -/
lemma outcome_settle {x : Rebuild ε Composing Json}
    (h : c.Ensures x (fun _ => True) Interruption.Final) :
    outcome (settle x) = outcome x := by
  obtain ⟨-, hfinal⟩ := h [] sound_nil
  unfold outcome
  obtain ⟨r, cache, hrun⟩ : ∃ r cache, x.run.run [] = (r, cache) := ⟨_, _, rfl⟩
  rw [hrun] at hfinal ⊢
  match r with
  | .ok a => rw [run_settle_of_ok hrun]
  | .error (.failed e) => rw [run_settle_of_failed hrun]
  | .error (.pending _ _ _ _) => exact hfinal.elim

namespace Processors

/-- What becomes of a part of a value that stands at a place. -/
def part (ps : Processors ε Composing) (above : List Crumb) (v : Json) (seg : Segment) :
    Except (Interruption ε) Json :=
  outcome (ps.value (⟨seg, v⟩ :: above) ((v.child? seg).getD .null))

/-- The answer that an object gets for one of its properties, if it changes anything. -/
def reply (ps : Processors ε Composing) (node : Node) (processed : Fields Json) (k : String) :
    Except (Interruption ε) (Option (String × Replacement)) :=
  match ps.get? k with
  | none => .ok none
  | some processor =>
    (outcome (askProcessor processor k node ((processed.get? k).getD .null))).map fun
      | .unchanged => none
      | answer => some (k, answer)

lemma outcome_fields (hask : ps.Ask c) (hlocal : ps.Local c) (above : List Crumb)
    {fs gs : Fields Json} (hfs : fs.Distinct) (hgs : gs ⊆ fs) :
    outcome (ps.fields (.object fs) above gs) =
      (Fields.keys gs).mapM fun k => (ps.part above (.object fs) (.key k)).map fun v => (k, v) := by
  induction gs with
  | nil =>
    rw [fields]
    rfl
  | cons field gs ih =>
    obtain ⟨k, v⟩ := field
    obtain ⟨hfield, hgs⟩ := List.cons_subset.mp hgs
    have hpart : ps.part above (.object fs) (.key k) =
        outcome (ps.value (⟨.key k, .object fs⟩ :: above) v) := by
      rw [part, Json.child?, hfs.get?_of_mem hfield, Option.getD_some]
    rw [fields, outcome_bind (asking_settle (asking_value hask _ v)) fun w =>
      (asking_fields hask _ above gs).bind fun gs => c.asking_pure _,
      outcome_settle (ensures_value hlocal _ v), Fields.keys_cons, List.mapM_cons, hpart,
        ← ih hgs]
    cases outcome (ps.value (⟨.key k, .object fs⟩ :: above) v) with
    | error e => rfl
    | ok w => exact outcome_bind (asking_fields hask _ above gs) fun gs => c.asking_pure _

lemma outcome_items (hask : ps.Ask c) (hlocal : ps.Local c) (parent : Json) (above : List Crumb)
    (i : Nat) (xs : List Json) : outcome (ps.items parent above i xs) =
      (List.range xs.length).mapM fun j =>
        outcome (ps.value (⟨.index (i + j), parent⟩ :: above) (xs[j]?.getD .null)) := by
  induction xs generalizing i with
  | nil =>
    rw [items]
    rfl
  | cons x xs ih =>
    rw [items, outcome_bind (asking_settle (asking_value hask _ x)) fun y =>
      (asking_items hask _ above (i + 1) xs).bind fun ys => c.asking_pure _,
      outcome_settle (ensures_value hlocal _ x), List.length_cons, List.range_succ_eq_map,
        List.mapM_cons, List.mapM_map]
    refine congrArg (outcome (ps.value (⟨.index i, parent⟩ :: above) x) >>= ·)
      (funext fun y => ?_)
    have hindex : ∀ j, i + 1 + j = i + Nat.succ j :=
      fun j => by rw [Nat.add_assoc, Nat.add_comm 1 j]
    rw [outcome_bind (asking_items hask _ above (i + 1) xs) fun ys => c.asking_pure _, ih]
    simp only [hindex]
    rfl

lemma outcome_answers (hask : ps.Ask c) (node : Node) (processed : Fields Json)
    (fs : List (String × Json)) :
    outcome (answers ps node processed fs) =
      ((Fields.keys fs).mapM (ps.reply node processed)).map List.reduceOption := by
  induction fs with
  | nil => rfl
  | cons field fs ih =>
    obtain ⟨k, v⟩ := field
    rw [Fields.keys_cons, List.mapM_cons]
    cases hget : ps.get? k with
    | none =>
      have hreply : ps.reply node processed k = .ok none := by rw [reply, hget]
      rw [answers, hget, ih, hreply]
      cases (Fields.keys fs).mapM (ps.reply node processed) <;> rfl
    | some processor =>
      have hanswer : c.Asking (askProcessor processor k node ((processed.get? k).getD .null)) :=
        (hask k processor hget k node ((processed.get? k).getD .null)).adapt _
      have hreply : ps.reply node processed k =
          (outcome (askProcessor processor k node ((processed.get? k).getD .null))).map fun
            | .unchanged => none
            | answer => some (k, answer) := by rw [reply, hget]
      rw [answers, hget, hreply]
      refine (outcome_bind hanswer fun answer =>
        (asking_answers hask node processed fs).bind fun rest => c.asking_pure _).trans ?_
      cases outcome (askProcessor processor k node ((processed.get? k).getD .null)) with
      | error e => rfl
      | ok answer =>
        refine (outcome_bind (asking_answers hask node processed fs) fun rest =>
          c.asking_pure _).trans ?_
        rw [ih]
        cases (Fields.keys fs).mapM (ps.reply node processed) with
        | error e => rfl
        | ok replies => cases answer <;> rfl

lemma outcome_object (hask : ps.Ask c) (hlocal : ps.Local c) (above : List Crumb) {fs : Fields Json}
    (hfs : fs.Distinct) : outcome (ps.value above (.object fs)) =
      (fs.keys.mapM fun k => (ps.part above (.object fs) (.key k)).map fun v => (k, v)) >>=
        fun processed =>
        (fs.keys.mapM (ps.reply ⟨.object fs, above⟩ processed)) >>= fun replies =>
          applyAnswers ⟨.object fs, above⟩ processed replies.reduceOption := by
  rw [value, outcome_bind (asking_fields hask _ above fs) fun processed =>
    (asking_answers hask _ processed fs).bind fun replies => c.asking_mk_pure _,
    outcome_fields hask hlocal above hfs (List.Subset.refl fs)]
  refine congrArg (_ >>= ·) (funext fun processed => ?_)
  rw [outcome_bind (asking_answers hask _ processed fs) fun replies => c.asking_mk_pure _,
    outcome_answers hask]
  cases fs.keys.mapM (ps.reply ⟨.object fs, above⟩ processed) <;> rfl

lemma outcome_array (hask : ps.Ask c) (hlocal : ps.Local c) (above : List Crumb) (xs : List Json) :
    outcome (ps.value above (.array xs)) =
      ((List.range xs.length).mapM fun i => ps.part above (.array xs) (.index i)).map
        Json.array := by
  rw [value, outcome_bind (asking_items hask _ above 0 xs) fun ys => c.asking_pure _,
    outcome_items hask hlocal]
  simp only [Nat.zero_add]
  rfl

/-- A document is processed as a value that stands in nothing, and only the errors are told
in another way. -/
lemma exists_outcome_processKeywords (hlocal : ps.Local c) : ∃ g, ∀ document,
    outcome (processKeywords ps document) = (outcome (ps.value [] document)).mapError g := by
  refine ⟨_, fun document => (outcome_adapt _ _).trans (congrArg _ ?_)⟩
  exact outcome_settle (ensures_value hlocal [] document)

end Processors

/-! ### Two values apart from the order of their keys -/

/-- The object is replaced as a whole. -/
def Replacement.Whole (answer : Replacement) : Prop :=
  ∃ w : Json, w.WellFormed ∧ answer = .object w 0

namespace Processors

/-- A keyword leaves its object as it is or has it replaced as a whole, and the answer is told by
the place of the object and by the value of the keyword, apart from the order of keys. -/
def OrderBlind (ps : Processors ε Composing) : Prop :=
  ∀ keyword processor, ps.get? keyword = some processor → ∀ (node node' : Node) (v v' : Json),
    node.path = node'.path → v.SameValue v' →
      Alike (fun answer answer' => answer = answer' ∧
          (answer = .unchanged ∨ answer.Whole))
        (outcome (processor keyword node v)) (outcome (processor keyword node' v'))

variable {node node' : Node} {processed processed' : Fields Json}

lemma OrderBlind.alike_reply (hps : ps.OrderBlind) (hpath : node.path = node'.path)
    (hprocessed : ∀ key, Option.Rel Json.SameValue (processed.get? key) (processed'.get? key))
    (k : String) :
    Alike (fun r r' => (∀ answer ∈ r, answer.2.Whole) ∧ r = r')
      (ps.reply node processed k) (ps.reply node' processed' k) := by
  unfold reply
  cases hget : ps.get? k with
  | none => exact .ok ⟨by simp, rfl⟩
  | some processor =>
    have hvalue : ((processed.get? k).getD .null).SameValue ((processed'.get? k).getD .null) := by
      have hrel := hprocessed k
      generalize processed.get? k = a, processed'.get? k = b at hrel
      cases hrel with
      | none => exact .refl (by simp [Json.WellFormed])
      | some h => exact h
    have halike := hps k processor hget node node' _ _ hpath hvalue
    simp only [askProcessor, outcome_adapt]
    generalize outcome (processor k node ((processed.get? k).getD .null)) = x,
      outcome (processor k node' ((processed'.get? k).getD .null)) = y at halike ⊢
    cases halike with
    | error e e' => exact .error _ _
    | ok h =>
      obtain ⟨rfl, rfl | ⟨w, hw, rfl⟩⟩ := h
      · exact .ok ⟨by simp, rfl⟩
      · exact .ok ⟨by simpa using ⟨w, hw, rfl⟩, rfl⟩

/-- The properties of two objects get the same answers, in another order. -/
lemma OrderBlind.alike_replies (hps : ps.OrderBlind) (hpath : node.path = node'.path)
    {names names' : List String} (hnames : names.Perm names')
    (hprocessed : ∀ key, Option.Rel Json.SameValue (processed.get? key) (processed'.get? key)) :
    Alike (fun rs rs' => rs.reduceOption.Perm rs'.reduceOption ∧
        ∀ answer ∈ rs.reduceOption, answer.2.Whole)
      (names.mapM (ps.reply node processed)) (names'.mapM (ps.reply node' processed')) := by
  refine ((Alike.mapM_perm hnames _).trans
    (Alike.mapM fun k _ => hps.alike_reply hpath hprocessed k)).imp ?_
  rintro rs rs' - - ⟨ms, hperm, hsame⟩
  obtain ⟨hwhole, heq⟩ := (List.forall₂_and_left ms rs').mp hsame
  rw [List.forall₂_eq_eq_eq] at heq
  subst heq
  refine ⟨hperm.filterMap id, fun answer hanswer => ?_⟩
  exact hwhole _ (hperm.subset (List.reduceOption_mem_iff.mp hanswer)) answer rfl

end Processors

/-- Replies that replace objects as a whole make the same of two objects that are the same. -/
lemma alike_applyAnswers {node node' : Node} {processed processed' : Fields Json}
    {replies replies' : List (String × Replacement)}
    (hprocessed : (Json.object processed).SameValue (.object processed'))
    (hperm : replies.Perm replies') (hreplies : ∀ answer ∈ replies, answer.2.Whole) :
    Alike Json.SameValue (applyAnswers (ε := ε) node processed replies)
      (applyAnswers (ε := ε) node' processed' replies') := by
  match replies with
  | [] =>
    obtain rfl := hperm.nil_eq
    exact .ok hprocessed
  | [(k, answer)] =>
    obtain rfl := List.singleton_perm.mp hperm
    obtain ⟨w, hw, rfl⟩ := hreplies _ List.mem_cons_self
    exact .ok (.refl hw)
  | first :: second :: rest =>
    have hobject : ∀ answer ∈ first :: second :: rest, answer.2.isObject = true := by
      intro answer hanswer
      obtain ⟨w, -, hw⟩ := hreplies answer hanswer
      rw [hw]
      rfl
    have hfirst := hobject first List.mem_cons_self
    rw [applyAnswers_of_conflict node processed (by simp) ⟨first, List.mem_cons_self, hfirst⟩,
      applyAnswers_of_conflict node' processed' (by simp [← hperm.length_eq])
        ⟨first, hperm.subset List.mem_cons_self, hfirst⟩]
    exact .error _ _

namespace Processors

/-- What becomes of two values is the same if the values are. -/
lemma OrderBlind.alike_value (hask : ps.Ask c) (hlocal : ps.Local c) (hps : ps.OrderBlind)
    (above above' : List Crumb) (v v' : Json) (h : v.SameValue v')
    (hpath : Node.path ⟨v, above⟩ = Node.path ⟨v', above'⟩) :
    Alike Json.SameValue (outcome (ps.value above v)) (outcome (ps.value above' v')) := by
  have hsame := h.same
  have hparts : ∀ seg ∈ v.segments,
      Alike Json.SameValue (ps.part above v seg) (ps.part above' v' seg) := by
    intro seg hseg
    obtain ⟨w, hw⟩ := Json.mem_segments_iff.mp hseg
    obtain ⟨w', hw', hsame⟩ := h.child? hw
    rw [part, part, hw, hw', Option.getD_some, Option.getD_some]
    exact alike_value hask hlocal hps _ _ w w' hsame (by rw [Node.path_cons, Node.path_cons, hpath])
  cases v with
  | object fs =>
    cases v' with
    | object gs =>
      rw [outcome_object hask hlocal above h.left.distinct,
        outcome_object hask hlocal above' h.right.distinct]
      refine (Json.alike_fields h.keys_perm h.left.distinct fun k hk =>
        hparts (.key k) (List.mem_map_of_mem hk)).bind ?_
      rintro processed processed' - - hprocessed
      refine (hps.alike_replies hpath h.keys_perm hprocessed.get?).bind ?_
      rintro rs rs' - - ⟨hperm, hwhole⟩
      exact alike_applyAnswers hprocessed hperm hwhole
    | _ => simp [Json.same] at hsame
  | array xs =>
    cases v' with
    | array ys =>
      rw [outcome_array hask hlocal, outcome_array hask hlocal, ← h.items.length_eq]
      refine (Alike.mapM fun i hi => hparts (.index i) (List.mem_map_of_mem hi)).map ?_
      exact fun _ _ => Json.SameValue.of_items
    | _ => simp [Json.same] at hsame
  | _ =>
    cases v' with
    | object gs => simp [Json.same] at hsame
    | array ys => simp [Json.same] at hsame
    | _ =>
      rw [value_of_primitive above rfl, value_of_primitive above' rfl]
      exact .ok h
termination_by sizeOf v
decreasing_by exact Json.sizeOf_lt_of_child? hw

end Processors

end Outcomes

/-! ### The keywords of a project -/

section Builtin

variable {m : Type → Type} {v v' : Json}

/-- The order of the keys of an address tells nothing. -/
lemma Address.alike_ofJson (h : v.SameValue v') : Alike Eq (ofJson v) (ofJson v') := by
  have hsame := h.same
  cases v with
  | object fs =>
    cases v' with
    | object gs =>
      have hresource : (Fields.get? fs "resource").bind Json.asString? =
          (Fields.get? gs "resource").bind Json.asString? :=
            Json.text?_of_same h.left hsame "resource"
      rw [ofJson, ofJson, hresource]
      cases (Fields.get? gs "resource").bind Json.asString? with
      | none => exact .error _ _
      | some resource =>
        have hrel := h.get? "module"
        dsimp only
        generalize Fields.get? fs "module" = a, Fields.get? gs "module" = b at hrel
        cases hrel with
        | none => exact .ok rfl
        | @some x y hvalue =>
          have hvalue := hvalue.same
          cases x <;> cases y <;> first | exact .error _ _ | simp [Json.same] at hvalue
          exact .ok (by rw [hvalue])
    | _ => simp [Json.same] at hsame
  | _ =>
    cases v' with
    | object gs => simp [Json.same] at hsame
    | _ => exact .error _ _

lemma KeywordContext.alike_resolve (context : KeywordContext m) (h : v.SameValue v') :
    Alike Eq (context.resolve v) (context.resolve v') := by
  refine (Address.alike_ofJson h).bind ?_
  rintro a _ - - rfl
  exact .refl Eq.refl _

lemma referenceProcessor_of_string [Monad m] {context : KeywordContext m} {keyword text : String}
    {node : Node} (h : v.asString? = some text) :
    referenceProcessor context keyword node v = pure .unchanged := by
  cases v with
  | string _ => rfl
  | _ => cases h

lemma referenceProcessor_of_no_string [Monad m] {context : KeywordContext m} {keyword : String}
    {node : Node} (h : v.asString? = none) : referenceProcessor context keyword node v =
      match context.resolve v with
      | .ok name => pure (.object (.single keyword (.string name)) 0)
      | .error e => throw (.message e) := by
  cases v with
  | string text => cases h
  | _ => rfl

end Builtin

namespace Project

open Composer

variable {p : Project} {module : String} {processors : Processors KeywordFailure Composing}

lemma alike_reference (keyword : String) (node node' : Node) {v v' : Json} (h : v.SameValue v') :
    Alike Eq (outcome (referenceProcessor (p.context module) keyword node v))
      (outcome (referenceProcessor (p.context module) keyword node' v')) := by
  have hstring := Json.asString?_of_same h.same
  cases hv : v.asString? with
  | some text =>
    rw [referenceProcessor_of_string hv, referenceProcessor_of_string (hstring ▸ hv)]
    exact .ok rfl
  | none =>
    rw [referenceProcessor_of_no_string hv, referenceProcessor_of_no_string (hstring ▸ hv)]
    have hresolve := (p.context module).alike_resolve h
    generalize (p.context module).resolve v = x, (p.context module).resolve v' = y at hresolve
    cases hresolve with
    | ok heq => exact .ok (by rw [heq])
    | error e e' => exact .error _ _

lemma alike_parameter (keyword : String) (node node' : Node) {v v' : Json} (h : v.SameValue v') :
    Alike Eq (outcome (parameterProcessor keyword node v))
      (outcome (parameterProcessor keyword node' v')) := by
  have hsame := h.same
  cases v with
  | string name =>
    cases v' with
    | string name' =>
      obtain rfl : name = name' := by simpa [Json.same] using hsame
      exact .ok rfl
    | _ => simp [Json.same] at hsame
  | _ =>
    cases v' with
    | string name' => simp [Json.same] at hsame
    | _ => exact .error _ _

/-- The built-in keywords do not look at the order of keys. -/
lemma orderBlind_of_builtin (hp : p.keywords = builtinKeywords p.composer.schema)
    (h : p.setUp (fun definition => definition.processor (p.context module)) = .ok processors) :
    processors.OrderBlind := by
  have htext : ∀ key text, (Json.single key (.string text)).WellFormed := by
    intro key text
    simp [Json.single, Json.WellFormed, Json.WellFormedFields, Fields.Distinct]
  intro keyword processor hprocessor node node' v v' hpath hvalue
  obtain ⟨-, rfl⟩ | ⟨-, rfl⟩ | ⟨-, rfl⟩ := builtin_of_setUp hp h hprocessor
  · refine (alike_reference keyword node node' hvalue).imp fun answer answer' hanswer _ heq =>
      ⟨heq, ?_⟩
    obtain rfl | ⟨name, rfl, -⟩ := ensures_reference.of_run sound_nil hanswer
    · exact .inl rfl
    · exact .inr ⟨_, htext _ _, rfl⟩
  · refine (alike_parameter keyword node node' hvalue).imp fun answer answer' hanswer _ heq =>
      ⟨heq, ?_⟩
    obtain ⟨name, rfl, -⟩ := (@ensures_parameter p keyword node v).of_run sound_nil hanswer
    exact .inr ⟨_, htext _ _, rfl⟩
  · have hsame : p.composer.schema.functionProcessor (p.context module) keyword node v =
        p.composer.schema.functionProcessor (p.context module) keyword node' v' := by
      rw [Schema.functionProcessor, Schema.functionProcessor, hpath]
    rw [hsame]
    refine (Alike.refl Eq.refl _).imp fun answer answer' hanswer _ heq => ⟨heq, ?_⟩
    obtain ⟨⟨key, rfl⟩, -⟩ := ensures_code.of_run sound_nil hanswer
    exact .inr ⟨_, by simp [Json.WellFormed], rfl⟩

/-- The same project without other keywords than those that come with it. -/
def onlyBuiltin (p : Project) : Project :=
  { p with keywords := builtinKeywords p.composer.schema }

/-- The order of keys means nothing to the keywords that come with a project. Two documents that are
the same apart from the order of keys are both processed, and the results are the same apart from
it, or neither is. -/
theorem processed_in_any_key_order (p : Project) (module : String) :
    ∃ processors : Processors KeywordFailure Composing,
      p.onlyBuiltin.setUp (fun definition => definition.processor (p.context module)) =
        .ok processors ∧
      ∀ document document' : Json, document.WellFormed → document'.WellFormed →
        document.same document' = true →
        ∀ cache cache', p.composer.Sound cache → p.composer.Sound cache' →
          Alike (fun result result' => result.same result' = true)
            ((processKeywords processors document).run.run cache).1
            ((processKeywords processors document').run.run cache').1 := by
  have hsetUp : ∃ processors : Processors KeywordFailure Composing,
      p.onlyBuiltin.setUp (fun definition => definition.processor (p.context module)) =
        .ok processors := ⟨_, rfl⟩
  obtain ⟨processors, hprocessors⟩ := hsetUp
  refine ⟨processors, hprocessors, ?_⟩
  intro document document' hdocument hdocument' hsame cache cache' hcache hcache'
  have hask : processors.Ask p.composer :=
    @ask_of_builtin p.onlyBuiltin module processors rfl hprocessors
  have hlocal : processors.Local p.composer :=
    @local_of_builtin p.onlyBuiltin module processors rfl hprocessors
  have hblind := @orderBlind_of_builtin p.onlyBuiltin module processors rfl hprocessors
  rw [(asking_processKeywords hask document).run_eq hcache,
    (asking_processKeywords hask document').run_eq hcache']
  have hvalue :=
    hblind.alike_value hask hlocal [] [] document document' ⟨hdocument, hdocument', hsame⟩ rfl
  obtain ⟨g, hg⟩ := Processors.exists_outcome_processKeywords hlocal
  rw [hg, hg]
  exact (hvalue.imp fun _ _ _ _ hresult => hresult.same).mapError _ _

/-- A document with all three keywords, and with every object turned around. -/
theorem processed_in_any_key_order_turned :
    let type : Json := .string "AWS::Serverless::Function"
    let body : Json := .object [("Type", type), ("Properties", .object [("CodeUri", .object
      [("Function", .object [("name", .string "api")])])])]
    let api : ResourceId := ⟨"app", "api"⟩
    let p : Project :=
      { composer :=
          { families :=
              { documents := [("app", ⟨.object [("Resources", .object [("api", body)])], none⟩)]
                links := [⟨api, body, none, []⟩]
                families := [⟨api, [api], body, .leaf api⟩] }
            schema := .standard
            extensions := [] }
        keywords := []
        parameters := ["Stage"]
        rootDir := "."
        moduleHash := fun module => module ++ "-" }
    let code : Json :=
      .object [("name", .string "api"), ("stage", .object [("Parameter", .string "Stage")])]
    let document : Json := .object
      [("Resources", .object [("api", .object
          [("Type", type), ("Properties",
            .object [("CodeUri", .object [("Function", code), ("x", .null)])])])]),
        ("Outputs",
          .object [("Ref", .object [("module", .string "app"), ("resource", .string "api")])])]
    let turned : Json := .object
      [("Outputs",
        .object [("Ref", .object [("resource", .string "api"), ("module", .string "app")])]),
        ("Resources", .object [("api", .object
          [("Properties", .object [("CodeUri", .object [("x", .null), ("Function", code)])]),
            ("Type", type)])])]
    let result : Json := .object
      [("Resources", .object [("api", .object
          [("Type", type), ("Properties", .object [("CodeUri", .string "functions/app-/api")])])]),
        ("Outputs", .single "Ref" (.string "app-api"))]
    document.WellFormed ∧ turned.WellFormed ∧ document.same turned = true ∧
      outcome (processKeywords (p.builtinProcessors "app") document) = .ok result ∧
      ∃ result', outcome (processKeywords (p.builtinProcessors "app") turned) = .ok result' ∧
        result.same result' = true := by
  intro type body api p code document turned result
  have hdocument : document.WellFormed := by decide
  have hturned : turned.WellFormed := by decide
  have hsame : document.same turned = true := by decide
  have hresult : outcome (processKeywords (p.builtinProcessors "app") document) = .ok result :=
    toOption_eq_some_iff.mp (by decide +kernel)
  obtain ⟨processors, hprocessors, horder⟩ := processed_in_any_key_order p "app"
  obtain rfl := Except.ok.inj
    (hprocessors.symm.trans (@setUp_builtinProcessors p.onlyBuiltin rfl (by decide) "app"))
  have halike : Alike (fun result result' => result.same result' = true)
      (outcome (processKeywords (p.builtinProcessors "app") document))
      (outcome (processKeywords (p.builtinProcessors "app") turned)) :=
    horder document turned hdocument hturned hsame [] [] sound_nil sound_nil
  rw [hresult] at halike
  generalize outcome (processKeywords (p.builtinProcessors "app") turned) = r at halike ⊢
  cases halike with
  | ok h => exact ⟨hdocument, hturned, hsame, hresult, _, rfl, h⟩

end Project

end ModularTemplates
