import Mathlib.Tactic.Lemma
import ModularTemplates.Keyword.Processing
import ModularTemplates.Proofs.Fields
import ModularTemplates.Proofs.PostOrder

/-!
# What the keywords of an object answer

Processors may keep a state between their answers. From a given state the keywords of an object are
asked in key order, each about its processed value, and what becomes of the object depends on those
answers alone that change something.
-/

namespace ModularTemplates

variable {σ ε ε' α β : Type}

/-! ### Runs from a state -/

section Runs

variable {x : ExceptT ε (StateM σ) α} {f : α → ExceptT ε (StateM σ) β} {s s' : σ}

lemma run_bind_of_ok {a : α} (h : x.run.run s = (.ok a, s')) :
    (x >>= f).run.run s = (f a).run.run s' := by
  rw [ExceptT.run_bind, StateT.run_bind, h]
  rfl

lemma run_bind_of_error {e : ε} (h : x.run.run s = (.error e, s')) :
    (x >>= f).run.run s = (.error e, s') := by
  rw [ExceptT.run_bind, StateT.run_bind, h]
  rfl

/-- A run of two steps that succeeds is a successful run of each of them. -/
lemma exists_of_run_bind {b : β} (h : (x >>= f).run.run s = (.ok b, s')) :
    ∃ a s₁, x.run.run s = (.ok a, s₁) ∧ (f a).run.run s₁ = (.ok b, s') := by
  obtain ⟨r, s₁, hx⟩ : ∃ r s₁, x.run.run s = (r, s₁) := ⟨_, _, rfl⟩
  cases r with
  | ok a => exact ⟨a, s₁, hx, (run_bind_of_ok hx).symm.trans h⟩
  | error e =>
    rw [run_bind_of_error hx] at h
    cases h

lemma run_tryCatch_of_ok {handle : ε → ExceptT ε (StateM σ) α} {a : α}
    (h : x.run.run s = (.ok a, s')) :
    (MonadExcept.tryCatch x handle).run.run s = (.ok a, s') := by
  have hrun : (MonadExcept.tryCatch x handle).run = x.run >>= fun r =>
      match r with
      | .ok a => pure (.ok a)
      | .error e => (handle e).run := rfl
  rw [hrun, StateT.run_bind, h]
  rfl

lemma run_tryCatch_of_error {handle : ε → ExceptT ε (StateM σ) α} {e : ε}
    (h : x.run.run s = (.error e, s')) :
    (MonadExcept.tryCatch x handle).run.run s = (handle e).run.run s' := by
  have hrun : (MonadExcept.tryCatch x handle).run = x.run >>= fun r =>
      match r with
      | .ok a => pure (.ok a)
      | .error e => (handle e).run := rfl
  rw [hrun, StateT.run_bind, h]
  rfl

lemma run_adapt_of_ok {g : ε → ε'} {a : α} (h : x.run.run s = (.ok a, s')) :
    (ExceptT.adapt g x).run.run s = (.ok a, s') :=
  congrArg (fun r : Except ε α × σ => (r.1.mapError g, r.2)) h

lemma run_adapt_of_error {g : ε → ε'} {e : ε} (h : x.run.run s = (.error e, s')) :
    (ExceptT.adapt g x).run.run s = (.error (g e), s') :=
  congrArg (fun r : Except ε α × σ => (r.1.mapError g, r.2)) h

end Runs

/-! ### Pending replacements -/

section Settle

variable {x : Rebuild ε (StateM σ) Json} {s s' : σ} {v : Json} {origin : Path}
  {level requested : Nat}

lemma run_settle_of_ok (h : x.run.run s = (.ok v, s')) : (settle x).run.run s = (.ok v, s') :=
  run_tryCatch_of_ok h

/-- A replacement takes effect where no more steps are left to go up. -/
lemma run_settle_of_here (h : x.run.run s = (.error (.pending 0 v origin requested), s')) :
    (settle x).run.run s = (.ok v, s') :=
  run_tryCatch_of_error h

lemma run_settle_of_above
    (h : x.run.run s = (.error (.pending (level + 1) v origin requested), s')) :
    (settle x).run.run s = (.error (.pending level v origin requested), s') :=
  run_tryCatch_of_error h

lemma run_settle_of_failed {e : ProcessError ε} (h : x.run.run s = (.error (.failed e), s')) :
    (settle x).run.run s = (.error (.failed e), s') :=
  run_tryCatch_of_error h

end Settle

/-! ### Rebuilding step by step -/

namespace Processors

variable {ps : Processors ε (StateM σ)} {parent v w : Json} {above : List Crumb}
  {s s₁ s₂ : σ} {i : Nat} {k : String} {fs gs : List (String × Json)} {xs ys : List Json}
  {e : Interruption ε}

lemma run_fields_cons
    (hv : (settle (ps.value (⟨.key k, parent⟩ :: above) v)).run.run s = (.ok w, s₁))
    (hfs : (ps.fields parent above fs).run.run s₁ = (.ok gs, s₂)) :
    (ps.fields parent above ((k, v) :: fs)).run.run s = (.ok ((k, w) :: gs), s₂) := by
  rw [fields]
  exact (run_bind_of_ok hv).trans (run_bind_of_ok hfs)

lemma run_fields_cons_of_error
    (hv : (settle (ps.value (⟨.key k, parent⟩ :: above) v)).run.run s = (.error e, s₁)) :
    (ps.fields parent above ((k, v) :: fs)).run.run s = (.error e, s₁) := by
  rw [fields]
  exact run_bind_of_error hv

lemma run_fields_cons_of_rest
    (hv : (settle (ps.value (⟨.key k, parent⟩ :: above) v)).run.run s = (.ok w, s₁))
    (hfs : (ps.fields parent above fs).run.run s₁ = (.error e, s₂)) :
    (ps.fields parent above ((k, v) :: fs)).run.run s = (.error e, s₂) := by
  rw [fields]
  exact (run_bind_of_ok hv).trans (run_bind_of_error hfs)

lemma run_items_cons
    (hv : (settle (ps.value (⟨.index i, parent⟩ :: above) v)).run.run s = (.ok w, s₁))
    (hxs : (ps.items parent above (i + 1) xs).run.run s₁ = (.ok ys, s₂)) :
    (ps.items parent above i (v :: xs)).run.run s = (.ok (w :: ys), s₂) := by
  rw [items]
  exact (run_bind_of_ok hv).trans (run_bind_of_ok hxs)

lemma run_items_cons_of_error
    (hv : (settle (ps.value (⟨.index i, parent⟩ :: above) v)).run.run s = (.error e, s₁)) :
    (ps.items parent above i (v :: xs)).run.run s = (.error e, s₁) := by
  rw [items]
  exact run_bind_of_error hv

lemma run_items_cons_of_rest
    (hv : (settle (ps.value (⟨.index i, parent⟩ :: above) v)).run.run s = (.ok w, s₁))
    (hxs : (ps.items parent above (i + 1) xs).run.run s₁ = (.error e, s₂)) :
    (ps.items parent above i (v :: xs)).run.run s = (.error e, s₂) := by
  rw [items]
  exact (run_bind_of_ok hv).trans (run_bind_of_error hxs)

lemma run_object_of_error {fs : Fields Json}
    (h : (ps.fields (.object fs) above fs).run.run s = (.error e, s₁)) :
    (ps.value above (.object fs)).run.run s = (.error e, s₁) := by
  rw [value]
  exact run_bind_of_error h

lemma run_array (h : (ps.items (.array xs) above 0 xs).run.run s = (.ok ys, s₁)) :
    (ps.value above (.array xs)).run.run s = (.ok (.array ys), s₁) := by
  rw [value]
  exact run_bind_of_ok h

lemma run_array_of_error (h : (ps.items (.array xs) above 0 xs).run.run s = (.error e, s₁)) :
    (ps.value above (.array xs)).run.run s = (.error e, s₁) := by
  rw [value]
  exact run_bind_of_error h

lemma value_of_primitive (above : List Crumb) (hv : v.shape = .primitive) :
    ps.value above v = pure v := by
  cases v with
  | object fs => cases hv
  | array xs => cases hv
  | _ =>
    rw [value]
    all_goals simp

end Processors

section Document

variable {ps : Processors ε (StateM σ)} {document v : Json} {s s' : σ}

lemma run_processKeywords_of_ok (h : (settle (ps.value [] document)).run.run s = (.ok v, s')) :
    (processKeywords ps document).run.run s = (.ok v, s') :=
  run_adapt_of_ok h

/-- A replacement that is still pending behind the root asked for too many containers. -/
lemma run_processKeywords_of_pending {level requested : Nat} {origin : Path}
    (h : (settle (ps.value [] document)).run.run s =
      (.error (.pending level v origin requested), s')) :
    (processKeywords ps document).run.run s = (.error (.levelNotPossible origin requested), s') :=
  run_adapt_of_error h

lemma run_processKeywords_of_failed {e : ProcessError ε}
    (h : (settle (ps.value [] document)).run.run s = (.error (.failed e), s')) :
    (processKeywords ps document).run.run s = (.error e, s') :=
  run_adapt_of_error h

end Document

/-! ### Answers -/

/-- Without object replacements all answers are applied, one after the other. -/
lemma applyAnswers_of_not_isObject {node : Node} {fs : Fields Json}
    {replies : List (String × Replacement)} (h : ∀ reply ∈ replies, reply.2.isObject = false) :
    applyAnswers (ε := ε) node fs replies = .ok (.object (replies.foldl replaceKeyword fs)) := by
  have hany : replies.any (fun reply => reply.2.isObject) = false := by
    simpa using h
  match replies with
  | [] | [(_, .keyword _)] | [(_, .unchanged)] => rfl
  | [(_, .object _ _)] => exact absurd (h _ List.mem_cons_self) (by simp [Replacement.isObject])
  | reply :: next :: replies =>
    rw [applyAnswers, hany]
    all_goals simp

/-- An object replacement and another answer are in conflict. -/
lemma applyAnswers_of_conflict (node : Node) (fs : Fields Json)
    {replies : List (String × Replacement)} (hlength : 1 < replies.length)
    (hobject : ∃ reply ∈ replies, reply.2.isObject = true) :
    applyAnswers (ε := ε) node fs replies =
      .error (.failed (.conflict node.path (replies.map Prod.fst))) := by
  match replies with
  | [] | [reply] => exact absurd hlength (by simp)
  | reply :: next :: replies =>
    rw [applyAnswers, if_pos (by simpa using hobject)]
    all_goals simp

/-- Whether the replacement changes anything. -/
def Replacement.changes : Replacement → Bool
  | .unchanged => false
  | _ => true

/-- The answers that change something. -/
def changesAmong (replies : List (String × Replacement)) : List (String × Replacement) :=
  replies.filter fun reply => reply.2.changes

namespace Processors

/-- `ps.Replies node processed names s replies s'`: asked in order from the state `s` on, the
keywords among the names answer `replies` about their processed values, and leave the state `s'`. -/
inductive Replies (ps : Processors ε (StateM σ)) (node : Node) (processed : Fields Json) :
    List String → σ → List (String × Replacement) → σ → Prop
  | nil (s : σ) : ps.Replies node processed [] s [] s
  | plain {name : String} {names : List String} {s s' : σ} {replies : List (String × Replacement)}
      (hname : Fields.get? ps name = none) (rest : ps.Replies node processed names s replies s') :
      ps.Replies node processed (name :: names) s replies s'
  | keyword {name : String} {names : List String} {processor : Processor ε (StateM σ)}
      {s s₁ s₂ : σ} {answer : Replacement} {replies : List (String × Replacement)}
      (hname : Fields.get? ps name = some processor)
      (hanswer : (processor name node ((processed.get? name).getD .null)).run.run s =
        (.ok answer, s₁))
      (rest : ps.Replies node processed names s₁ replies s₂) :
      ps.Replies node processed (name :: names) s ((name, answer) :: replies) s₂

variable {ps : Processors ε (StateM σ)} {node : Node} {processed : Fields Json} {s s' : σ}
  {replies : List (String × Replacement)}

/-- The answers of an object are those of its replies that change something. -/
lemma Replies.run_answers {fs : List (String × Json)}
    (h : ps.Replies node processed (Fields.keys fs) s replies s') :
    (answers ps node processed fs).run.run s = (.ok (changesAmong replies), s') := by
  induction fs generalizing s replies with
  | nil =>
    cases h
    rfl
  | cons field fs ih =>
    obtain ⟨k, v⟩ := field
    rw [answers]
    cases h with
    | plain hname rest =>
      rw [hname]
      exact ih rest
    | @keyword _ _ processor _ s₁ _ answer replies hname hanswer rest =>
      rw [hname]
      have hask : (askProcessor processor k node ((processed.get? k).getD .null)).run.run s =
          (.ok answer, s₁) := run_adapt_of_ok hanswer
      refine (run_bind_of_ok hask).trans ((run_bind_of_ok (ih rest)).trans ?_)
      cases answer <;> rfl

/-- What becomes of an object is told by its processed fields and the answers of its keywords. -/
lemma Replies.run_object {above : List Crumb} {fs gs : Fields Json} {s₁ s₂ : σ}
    (h : ps.Replies ⟨.object fs, above⟩ gs fs.keys s₁ replies s₂)
    (hfields : (ps.fields (.object fs) above fs).run.run s = (.ok gs, s₁)) :
    (ps.value above (.object fs)).run.run s =
      (applyAnswers ⟨.object fs, above⟩ gs (changesAmong replies), s₂) := by
  rw [value]
  exact (run_bind_of_ok hfields).trans (run_bind_of_ok h.run_answers)

/-! ### Keywords that change nothing -/

section Idle

variable {P : σ → Prop}

/-- From every state in which `P` holds the keywords of a node change nothing, and `P`
holds afterwards. -/
def Idle (ps : Processors ε (StateM σ)) (P : σ → Prop) (node : Node) : Prop :=
  ∀ name v processor, node.value.field? name = some v → Fields.get? ps name = some processor →
    ∀ s, P s → ∃ s', P s' ∧ (processor name node v).run.run s = (.ok .unchanged, s')

lemma exists_replies_of_idle {above : List Crumb} {fs : Fields Json}
    (h : ps.Idle P ⟨.object fs, above⟩) {names : List String} (hnames : names ⊆ fs.keys)
    (hs : P s) :
    ∃ replies s', P s' ∧ ps.Replies ⟨.object fs, above⟩ fs names s replies s' ∧
      changesAmong replies = [] := by
  induction names generalizing s with
  | nil => exact ⟨[], s, hs, .nil s, rfl⟩
  | cons name names ih =>
    obtain ⟨hname, hnames⟩ := List.cons_subset.mp hnames
    cases hget : Fields.get? ps name with
    | none =>
      obtain ⟨replies, s', hs', hreplies, hchanges⟩ := ih hnames hs
      exact ⟨replies, s', hs', .plain hget hreplies, hchanges⟩
    | some processor =>
      obtain ⟨v, hv⟩ := Fields.mem_keys_iff.mp hname
      obtain ⟨s₁, hs₁, hanswer⟩ := h name v processor hv hget s hs
      obtain ⟨replies, s₂, hs₂, hreplies, hchanges⟩ := ih hnames hs₁
      refine ⟨(name, .unchanged) :: replies, s₂, hs₂, .keyword hget ?_ hreplies, ?_⟩
      · rwa [hv]
      · simpa [changesAmong, Replacement.changes] using hchanges

mutual
/-- A value all of whose keywords change nothing stays as it is. -/
lemma exists_run_of_idle {above : List Crumb} {v : Json}
    (h : ∀ node ∈ Node.postorderFrom above v, ps.Idle P node) {s : σ} (hs : P s) :
    ∃ s', P s' ∧ (settle (ps.value above v)).run.run s = (.ok v, s') := by
  match v with
  | .object fs =>
    rw [Node.postorderFrom, List.forall_mem_append, List.forall_mem_singleton] at h
    obtain ⟨s₁, hs₁, hfields⟩ := exists_run_fields_of_idle h.1 hs
    obtain ⟨replies, s₂, hs₂, hreplies, hchanges⟩ :=
      exists_replies_of_idle h.2 (List.Subset.refl _) hs₁
    have hrun := hreplies.run_object hfields
    rw [hchanges] at hrun
    exact ⟨s₂, hs₂, run_settle_of_ok hrun⟩
  | .array xs =>
    rw [Node.postorderFrom, List.forall_mem_append] at h
    obtain ⟨s', hs', hitems⟩ := exists_run_items_of_idle h.1 hs
    exact ⟨s', hs', run_settle_of_ok (run_array hitems)⟩
  | .null | .bool _ | .number _ | .string _ =>
    rw [value_of_primitive above rfl]
    exact ⟨s, hs, rfl⟩

lemma exists_run_fields_of_idle {parent : Json} {above : List Crumb} {fs : List (String × Json)}
    (h : ∀ node ∈ Node.postorderFields parent above fs, ps.Idle P node) {s : σ} (hs : P s) :
    ∃ s', P s' ∧ (ps.fields parent above fs).run.run s = (.ok fs, s') := by
  match fs with
  | [] =>
    rw [fields]
    exact ⟨s, hs, rfl⟩
  | (k, v) :: fs =>
    rw [Node.postorderFields, List.forall_mem_append] at h
    obtain ⟨s₁, hs₁, hv⟩ := exists_run_of_idle h.1 hs
    obtain ⟨s₂, hs₂, hfs⟩ := exists_run_fields_of_idle h.2 hs₁
    exact ⟨s₂, hs₂, run_fields_cons hv hfs⟩

lemma exists_run_items_of_idle {parent : Json} {above : List Crumb} {i : Nat} {xs : List Json}
    (h : ∀ node ∈ Node.postorderItems parent above i xs, ps.Idle P node) {s : σ} (hs : P s) :
    ∃ s', P s' ∧ (ps.items parent above i xs).run.run s = (.ok xs, s') := by
  match xs with
  | [] =>
    rw [items]
    exact ⟨s, hs, rfl⟩
  | x :: xs =>
    rw [Node.postorderItems, List.forall_mem_append] at h
    obtain ⟨s₁, hs₁, hx⟩ := exists_run_of_idle h.1 hs
    obtain ⟨s₂, hs₂, hxs⟩ := exists_run_items_of_idle h.2 hs₁
    exact ⟨s₂, hs₂, run_items_cons hx hxs⟩
end

end Idle

/-! ### Values without keywords -/

/-- Whether a node is an object with a registered keyword. -/
def carries (ps : Processors ε (StateM σ)) (node : Node) : Bool :=
  node.propertyNames.any fun name => Fields.has ps name

lemma get?_of_not_carries {fs : Fields Json} {above : List Crumb}
    (h : ps.carries ⟨.object fs, above⟩ = false) :
    ∀ name ∈ fs.keys, Fields.get? ps name = none := by
  simpa [carries, Node.propertyNames, Fields.has] using h

lemma replies_of_plain {names : List String} (h : ∀ name ∈ names, Fields.get? ps name = none)
    (s : σ) :
    ps.Replies node processed names s [] s := by
  induction names with
  | nil => exact .nil s
  | cons name names ih =>
    obtain ⟨hname, hrest⟩ := List.forall_mem_cons.mp h
    exact .plain hname (ih hrest)

/-- An object without keywords of its own holds its processed fields. -/
lemma run_plain_object {above : List Crumb} {fs gs : Fields Json}
    (h : ps.carries ⟨.object fs, above⟩ = false)
    (hfields : (ps.fields (.object fs) above fs).run.run s = (.ok gs, s')) :
    (ps.value above (.object fs)).run.run s = (.ok (.object gs), s') :=
  (replies_of_plain (get?_of_not_carries h) s').run_object hfields

/-- Where there is no keyword nobody is asked. -/
lemma idle_of_not_carries (h : ps.carries node = false) (P : σ → Prop) : ps.Idle P node := by
  intro name v processor hv hprocessor
  obtain ⟨value, above⟩ := node
  cases value with
  | object fs =>
    have hnone := get?_of_not_carries h name (Fields.mem_keys_of_get? hv)
    rw [hprocessor] at hnone
    cases hnone
  | _ => cases hv

lemma run_plain_value {above : List Crumb} {v : Json}
    (h : ∀ node ∈ Node.postorderFrom above v, ps.carries node = false) (s : σ) :
    (settle (ps.value above v)).run.run s = (.ok v, s) := by
  obtain ⟨_, rfl, hrun⟩ := exists_run_of_idle (P := (· = s))
    (fun node hnode => idle_of_not_carries (h node hnode) _) rfl
  exact hrun

lemma run_plain_fields {parent : Json} {above : List Crumb} {fs : List (String × Json)}
    (h : ∀ node ∈ Node.postorderFields parent above fs, ps.carries node = false) (s : σ) :
    (ps.fields parent above fs).run.run s = (.ok fs, s) := by
  obtain ⟨_, rfl, hrun⟩ := exists_run_fields_of_idle (P := (· = s))
    (fun node hnode => idle_of_not_carries (h node hnode) _) rfl
  exact hrun

lemma run_plain_items {parent : Json} {above : List Crumb} {i : Nat} {xs : List Json}
    (h : ∀ node ∈ Node.postorderItems parent above i xs, ps.carries node = false) (s : σ) :
    (ps.items parent above i xs).run.run s = (.ok xs, s) := by
  obtain ⟨_, rfl, hrun⟩ := exists_run_items_of_idle (P := (· = s))
    (fun node hnode => idle_of_not_carries (h node hnode) _) rfl
  exact hrun

end Processors

end ModularTemplates
