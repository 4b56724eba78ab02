import Mathlib.Tactic.Lemma
import ModularTemplates.Proofs.Keyword.Answers

/-!
# Exchanging parts of a document

If the answers of the processors depend on nothing but the keyword and its processed value, the
place of a value matters for the paths in errors only. A part of a document can then be exchanged
for another one that comes out the same, whatever is processed around it.
-/

namespace ModularTemplates

variable {σ ε α β : Type}

/-! ### Errors of a larger document -/

/-- The error when the document stands at a path of a larger one. -/
def ProcessError.within (base : Path) : ProcessError ε → ProcessError ε
  | .failed path keyword cause => .failed (base ++ path) keyword cause
  | .conflict path keywords => .conflict (base ++ path) keywords
  | .levelNotPossible path level => .levelNotPossible (base ++ path) level

/-- The interruption when the document stands at a path of a larger one. -/
def Interruption.within (base : Path) : Interruption ε → Interruption ε
  | .pending level v origin requested => .pending level v (base ++ origin) requested
  | .failed e => .failed (e.within base)

@[simp] lemma Interruption.within_nil (e : Interruption ε) : e.within [] = e := by
  cases e with
  | pending level v origin requested => rfl
  | failed e => cases e <;> rfl

@[simp] lemma mapError_within_nil (r : Except (Interruption ε) α) :
    r.mapError (Interruption.within []) = r := by
  cases r with
  | ok a => rfl
  | error e => exact congrArg Except.error e.within_nil

/-! ### The same results from all states -/

/-- From whatever states the two are run, the second one ends as the first one does, with paths that
are so much longer. -/
def Coincide (base : Path) (x y : Rebuild ε (StateM σ) α) : Prop :=
  ∀ s s', (y.run.run s').1 = (x.run.run s).1.mapError (Interruption.within base)

namespace Coincide

variable {base : Path} {x y : Rebuild ε (StateM σ) α}

lemma pure (base : Path) (a : α) :
    Coincide base (Pure.pure a : Rebuild ε (StateM σ) α) (Pure.pure a) :=
  fun _ _ => rfl

lemma exists_run (h : Coincide base x y) (s s' : σ) :
    ∃ r s₁ s₂, x.run.run s = (r, s₁) ∧
      y.run.run s' = (r.mapError (Interruption.within base), s₂) :=
  ⟨_, _, (y.run.run s').2, rfl, Prod.ext (h s s') rfl⟩

lemma bind {f g : α → Rebuild ε (StateM σ) β} (h : Coincide base x y)
    (hfg : ∀ a, Coincide base (f a) (g a)) :
    Coincide base (x >>= f) (y >>= g) := by
  intro s s'
  obtain ⟨r, s₁, s₂, hx, hy⟩ := h.exists_run s s'
  cases r with
  | ok a =>
    rw [run_bind_of_ok hx, run_bind_of_ok hy]
    exact hfg a s₁ s₂
  | error e =>
    rw [run_bind_of_error hx, run_bind_of_error hy]
    rfl

/-- A replacement takes effect in both of them, or goes on up in both. -/
lemma settle {x y : Rebuild ε (StateM σ) Json} (h : Coincide base x y) :
    Coincide base (settle x) (ModularTemplates.settle y) := by
  intro s s'
  obtain ⟨r, s₁, s₂, hx, hy⟩ := h.exists_run s s'
  match r with
  | .ok v =>
    rw [run_settle_of_ok hx, run_settle_of_ok hy]
    rfl
  | .error (.pending 0 v origin requested) =>
    rw [run_settle_of_here hx, run_settle_of_here hy]
    rfl
  | .error (.pending (level + 1) v origin requested) =>
    rw [run_settle_of_above hx, run_settle_of_above hy]
    rfl
  | .error (.failed e) =>
    rw [run_settle_of_failed hx, run_settle_of_failed hy]
    rfl

end Coincide

/-! ### Processors that look at the value alone -/

namespace Processors

/-- What a processor answers depends on the keyword and its processed value, and on nothing else. -/
def DependOnValues (ps : Processors ε (StateM σ)) : Prop :=
  ∀ name processor, Fields.get? ps name = some processor → ∀ v node node' s s',
    ((processor name node v).run.run s).1 = ((processor name node' v).run.run s').1

variable {ps : Processors ε (StateM σ)} {base : Path}

lemma coincide_ask (hps : ps.DependOnValues) {name : String} {processor : Processor ε (StateM σ)}
    (hname : Fields.get? ps name = some processor) {node node' : Node}
    (hnode : node'.path = base ++ node.path) (v : Json) :
    Coincide base (askProcessor processor name node v) (askProcessor processor name node' v) := by
  intro s s'
  have hanswer := hps name processor hname v node' node s' s
  obtain ⟨r, s₁, hrun⟩ : ∃ r s₁, (processor name node v).run.run s = (r, s₁) :=
    ⟨_, _, rfl⟩
  obtain ⟨s₂, hrun'⟩ : ∃ s₂, (processor name node' v).run.run s' = (r, s₂) := by
    rw [hrun] at hanswer
    exact ⟨((processor name node' v).run.run s').2, Prod.ext hanswer rfl⟩
  rw [askProcessor, askProcessor]
  cases r with
  | ok answer =>
    rw [run_adapt_of_ok hrun, run_adapt_of_ok hrun']
    rfl
  | error cause =>
    rw [run_adapt_of_error hrun, run_adapt_of_error hrun', hnode]
    rfl

/-- Of an object the keys and the processed values matter. -/
lemma coincide_answers (hps : ps.DependOnValues) {node node' : Node}
    (hnode : node'.path = base ++ node.path) (processed : Fields Json)
    {fs gs : List (String × Json)} (hkeys : Fields.keys gs = Fields.keys fs) :
    Coincide base (answers ps node processed fs) (answers ps node' processed gs) := by
  induction fs generalizing gs with
  | nil =>
    obtain rfl : gs = [] := List.map_eq_nil_iff.mp hkeys
    exact .pure base []
  | cons field fs ih =>
    obtain ⟨k, v⟩ := field
    obtain ⟨⟨k', v'⟩, gs', rfl, hk, hgs⟩ := List.map_eq_cons_iff.mp hkeys
    obtain rfl : k' = k := hk
    rw [answers, answers]
    cases hget : Fields.get? ps k' with
    | none => exact ih hgs
    | some processor =>
      refine (coincide_ask hps hget hnode _).bind fun answer => (ih hgs).bind fun rest => ?_
      exact .pure base _

lemma coincide_applyAnswers {node node' : Node} (hnode : node'.path = base ++ node.path)
    (fs : Fields Json) (replies : List (String × Replacement)) :
    Coincide base (ExceptT.mk (pure (applyAnswers node fs replies)) : Rebuild ε (StateM σ) Json)
      (ExceptT.mk (pure (applyAnswers node' fs replies))) := by
  intro s s'
  change applyAnswers node' fs replies =
    (applyAnswers node fs replies).mapError (Interruption.within base)
  unfold applyAnswers
  split
  · rfl
  · rw [hnode]
    rfl
  · split_ifs
    · rw [hnode]
      rfl
    · rfl

/-! ### Rebuilding at two places -/

/-- The second way leads through as many containers as the first one, behind a way that takes the
steps `base`. -/
def Moved (base : Path) (above above' : List Crumb) : Prop :=
  (above'.map Crumb.segment).reverse = base ++ (above.map Crumb.segment).reverse

lemma Moved.path {above above' : List Crumb} (h : Moved base above above') (v v' : Json) :
    Node.path ⟨v', above'⟩ = base ++ Node.path ⟨v, above⟩ := h

lemma Moved.cons {above above' : List Crumb} (h : Moved base above above') (seg : Segment)
    (parent parent' : Json) :
    Moved base (⟨seg, parent⟩ :: above) (⟨seg, parent'⟩ :: above') := by
  rw [Moved, List.map_cons, List.map_cons, List.reverse_cons, List.reverse_cons, h,
    List.append_assoc]

section Places

variable {above above' : List Crumb} {parent parent' v v' : Json} {k : String} {i : Nat}
  {fs gs : List (String × Json)} {xs ys : List Json}

/-- An object is rebuilt from its keys and the rebuilt values of its fields. -/
lemma coincide_object (hps : ps.DependOnValues) (habove : Moved base above above')
    (hkeys : Fields.keys gs = Fields.keys fs)
    (hfields : Coincide base (ps.fields (.object fs) above fs) (ps.fields (.object gs) above' gs)) :
    Coincide base (ps.value above (.object fs)) (ps.value above' (.object gs)) := by
  have hpath := habove.path (.object fs) (.object gs)
  rw [value, value]
  refine hfields.bind fun processed => ?_
  refine (coincide_answers hps hpath processed hkeys).bind fun replies => ?_
  exact coincide_applyAnswers hpath processed replies

lemma coincide_array
    (hitems : Coincide base (ps.items (.array xs) above 0 xs) (ps.items (.array ys) above' 0 ys)) :
    Coincide base (ps.value above (.array xs)) (ps.value above' (.array ys)) := by
  rw [value, value]
  exact hitems.bind fun processed => .pure base (Json.array processed)

lemma coincide_fields_cons
    (hv : Coincide base (settle (ps.value (⟨.key k, parent⟩ :: above) v))
      (settle (ps.value (⟨.key k, parent'⟩ :: above') v')))
    (hfs : Coincide base (ps.fields parent above fs) (ps.fields parent' above' gs)) :
    Coincide base (ps.fields parent above ((k, v) :: fs))
      (ps.fields parent' above' ((k, v') :: gs)) := by
  rw [fields, fields]
  exact hv.bind fun w => hfs.bind fun processed => .pure base ((k, w) :: processed)

lemma coincide_items_cons
    (hv : Coincide base (settle (ps.value (⟨.index i, parent⟩ :: above) v))
      (settle (ps.value (⟨.index i, parent'⟩ :: above') v')))
    (hxs : Coincide base (ps.items parent above (i + 1) xs) (ps.items parent' above' (i + 1) ys)) :
    Coincide base (ps.items parent above i (v :: xs)) (ps.items parent' above' i (v' :: ys)) := by
  rw [items, items]
  exact hv.bind fun w => hxs.bind fun processed => .pure base (w :: processed)

end Places

/-! ### The same value at two places -/

mutual
lemma coincide_value (hps : ps.DependOnValues) {above above' : List Crumb}
    (habove : Moved base above above') (v : Json) :
    Coincide base (ps.value above v) (ps.value above' v) := by
  match v with
  | .object fs => exact coincide_object hps habove rfl (coincide_fields hps habove _ _ fs)
  | .array xs => exact coincide_array (coincide_items hps habove _ _ 0 xs)
  | .null | .bool _ | .number _ | .string _ =>
    rw [value_of_primitive above rfl, value_of_primitive above' rfl]
    exact .pure base _

lemma coincide_fields (hps : ps.DependOnValues) {above above' : List Crumb}
    (habove : Moved base above above') (parent parent' : Json) (fs : List (String × Json)) :
    Coincide base (ps.fields parent above fs) (ps.fields parent' above' fs) := by
  match fs with
  | [] =>
    rw [fields, fields]
    exact .pure base []
  | (k, v) :: fs =>
    have hv := coincide_value hps (habove.cons (.key k) parent parent') v
    exact coincide_fields_cons hv.settle (coincide_fields hps habove parent parent' fs)

lemma coincide_items (hps : ps.DependOnValues) {above above' : List Crumb}
    (habove : Moved base above above') (parent parent' : Json) (i : Nat) (xs : List Json) :
    Coincide base (ps.items parent above i xs) (ps.items parent' above' i xs) := by
  match xs with
  | [] =>
    rw [items, items]
    exact .pure base []
  | x :: xs =>
    have hx := coincide_value hps (habove.cons (.index i) parent parent') x
    exact coincide_items_cons hx.settle (coincide_items hps habove parent parent' (i + 1) xs)
end

/-! ### Another value under a step -/

section Exchange

variable {parent parent' w w' : Json} {above above' : List Crumb}

lemma coincide_fields_set (hps : ps.DependOnValues) (habove : Moved base above above')
    {key : String}
    (hw : Coincide base (settle (ps.value (⟨.key key, parent⟩ :: above) w))
      (settle (ps.value (⟨.key key, parent'⟩ :: above') w'))) (fs : Fields Json) :
    Coincide base (ps.fields parent above (fs.set key w))
      (ps.fields parent' above' (fs.set key w')) := by
  induction fs with
  | nil => exact coincide_fields_cons hw (coincide_fields hps habove parent parent' [])
  | cons field fs ih =>
    obtain ⟨k, v⟩ := field
    rw [Fields.set, Fields.set]
    split_ifs with hk
    · subst hk
      exact coincide_fields_cons hw (coincide_fields hps habove parent parent' fs)
    · have hv := coincide_value hps (habove.cons (.key k) parent parent') v
      exact coincide_fields_cons hv.settle ih

lemma coincide_items_set (hps : ps.DependOnValues) (habove : Moved base above above') {i j : Nat}
    (hw : Coincide base (settle (ps.value (⟨.index (i + j), parent⟩ :: above) w))
      (settle (ps.value (⟨.index (i + j), parent'⟩ :: above') w'))) (xs : List Json) :
    Coincide base (ps.items parent above i (xs.set j w))
      (ps.items parent' above' i (xs.set j w')) := by
  induction xs generalizing i j with
  | nil => exact coincide_items hps habove parent parent' i []
  | cons x xs ih =>
    cases j with
    | zero => exact coincide_items_cons hw (coincide_items hps habove parent parent' (i + 1) xs)
    | succ j =>
      rw [← Nat.succ_add_eq_add_succ] at hw
      have hx := coincide_value hps (habove.cons (.index i) parent parent') x
      exact coincide_items_cons hx.settle (ih hw)

/-- If two values coincide under a step into a container, so do the containers that hold them
there. -/
lemma coincide_replaceChild (hps : ps.DependOnValues) (habove : Moved base above above') {v : Json}
    {seg : Segment}
    (hw : Coincide base (settle (ps.value (⟨seg, v.replaceChild seg w⟩ :: above) w))
      (settle (ps.value (⟨seg, v.replaceChild seg w'⟩ :: above') w'))) :
    Coincide base (ps.value above (v.replaceChild seg w))
      (ps.value above' (v.replaceChild seg w')) := by
  unfold Json.replaceChild at hw ⊢
  split at hw
  · refine coincide_object hps habove ?_ (coincide_fields_set hps habove hw _)
    rw [Fields.keys_set, Fields.keys_set]
  · exact coincide_array (coincide_items_set hps habove (by simpa using hw) _)
  · exact coincide_value hps habove _

end Exchange

/-! ### Another value at a path -/

section Paths

variable {above above' : List Crumb} {document t₁ t₂ d₁ d₂ r : Json} {s₁ s₂ : σ}

/-- What comes out of a value alone comes out of it at every place. -/
lemma result_of_alone (hps : ps.DependOnValues) {v : Json}
    (h : ((settle (ps.value [] v)).run.run s₁).1 = .ok r) (above : List Crumb) (s : σ) :
    ((settle (ps.value above v)).run.run s).1 = .ok r := by
  have habove : Moved (above.map Crumb.segment).reverse [] above := (List.append_nil _).symm
  have hresult := (coincide_value hps habove v).settle s₁ s
  rw [h] at hresult
  exact hresult

/-- Values with the same result can be put at any path of a document. -/
lemma coincide_assign? (hps : ps.DependOnValues)
    (h₁ : ((settle (ps.value [] t₁)).run.run s₁).1 = .ok r)
    (h₂ : ((settle (ps.value [] t₂)).run.run s₂).1 = .ok r) {q : Path}
    (hd₁ : q.assign? document t₁ = some d₁) (hd₂ : q.assign? document t₂ = some d₂)
    (habove : Moved [] above above') :
    Coincide [] (settle (ps.value above d₁)) (settle (ps.value above' d₂)) := by
  -- along the path the two documents differ in nothing but the next part
  induction q generalizing document d₁ d₂ above above' with
  | nil =>
    cases hd₁
    cases hd₂
    intro s s'
    rw [result_of_alone hps h₁ above s, result_of_alone hps h₂ above' s']
    rfl
  | cons seg q ih =>
    obtain ⟨below, below₁, hbelow, hbelow₁, rfl⟩ := Path.assign?_cons_eq_some_iff.mp hd₁
    obtain ⟨_, below₂, hbelow', hbelow₂, rfl⟩ := Path.assign?_cons_eq_some_iff.mp hd₂
    obtain rfl := Option.some.inj (hbelow.symm.trans hbelow')
    exact (coincide_replaceChild hps habove (ih hbelow₁ hbelow₂ (habove.cons seg _ _))).settle

end Paths

/-! ### Documents -/

lemma result_of_processKeywords {document r : Json} {s : σ}
    (h : ((processKeywords ps document).run.run s).1 = .ok r) :
    ((settle (ps.value [] document)).run.run s).1 = .ok r := by
  obtain ⟨result, s', hrun⟩ : ∃ result s',
      (settle (ps.value [] document)).run.run s = (result, s') := ⟨_, _, rfl⟩
  rw [hrun]
  match result with
  | .ok v =>
    rw [run_processKeywords_of_ok hrun] at h
    cases h
    rfl
  | .error (.pending level v origin requested) =>
    rw [run_processKeywords_of_pending hrun] at h
    cases h
  | .error (.failed e) =>
    rw [run_processKeywords_of_failed hrun] at h
    cases h

/-- If the answers depend on the keyword and its processed value alone, two values that come out the
same on their own can be exchanged at any path of any document: what comes out of the document is
the same, or it fails the same way. And whatever the answers depend on, a document comes out as it
went in if nothing that is asked changes anything (`P` holds of the states that the processors get
into), and without anybody being asked if it holds no registered keyword. -/
theorem exchange_at_path (ps : Processors ε (StateM σ)) :
    (ps.DependOnValues → ∀ (document t₁ t₂ r d₁ d₂ : Json) (q : Path) (s₁ s₂ : σ),
      ((processKeywords ps t₁).run.run s₁).1 = .ok r →
      ((processKeywords ps t₂).run.run s₂).1 = .ok r →
      q.assign? document t₁ = some d₁ → q.assign? document t₂ = some d₂ →
      ∀ s s',
        ((processKeywords ps d₁).run.run s).1 = ((processKeywords ps d₂).run.run s').1) ∧
    (∀ (document : Json) (P : σ → Prop) (s : σ), P s →
      (∀ node ∈ Node.all document, ps.Idle P node) →
      ∃ s', P s' ∧ (processKeywords ps document).run.run s = (.ok document, s')) ∧
    (∀ (document : Json) (s : σ), (∀ node ∈ Node.all document, ps.carries node = false) →
      (processKeywords ps document).run.run s = (.ok document, s)) := by
  refine ⟨?_, ?_, ?_⟩
  · intro hps document t₁ t₂ r d₁ d₂ q s₁ s₂ h₁ h₂ hd₁ hd₂ s s'
    have hroot : Moved [] ([] : List Crumb) [] := rfl
    have hresults :=
      coincide_assign? hps (result_of_processKeywords h₁)
        (result_of_processKeywords h₂) hd₁ hd₂ hroot s s'
    rw [mapError_within_nil] at hresults
    exact congrArg (Except.mapError _) hresults.symm
  · intro document P s hs hidle
    obtain ⟨s', hs', hrun⟩ := exists_run_of_idle
      (fun node hnode => hidle node (Node.mem_postorder_iff.mp hnode)) hs
    exact ⟨s', hs', run_processKeywords_of_ok hrun⟩
  · intro document s hplain
    exact run_processKeywords_of_ok
      (run_plain_value (fun node hnode => hplain node (Node.mem_postorder_iff.mp hnode)) s)

/-- Of two objects that become the text `x` one is exchanged for the other, next to a keyword that
fails; a keyword that is counted changes nothing. -/
theorem exchange_at_path_in_list :
    let count : Processors String (StateM Nat) :=
      [("Count", fun _ _ _ => do
        modify (· + 1)
        return .unchanged)]
    let ps : Processors String (StateM Nat) :=
      [("Fail", fun _ _ _ => throw "broken"), ("Value", fun _ _ v => return .object v 0)]
    let one : Json := .object [("Value", .string "x")]
    let two : Json := .object [("Value", one)]
    let document (v : Json) : Json :=
      .object [("list", .array [.null, v]), ("rest", .object [("Fail", .bool true)])]
    ps.DependOnValues ∧
      ((processKeywords ps (document two)).run.run 0).1 =
        .error (.failed [.key "rest"] "Fail" "broken") ∧
      (∃ s, (processKeywords count (.array [.object [("Count", two)]])).run.run 0 =
        (.ok (.array [.object [("Count", two)]]), s)) ∧
      (processKeywords count (document two)).run.run 0 = (.ok (document two), 0) := by
  intro count ps one two document
  have hps : ps.DependOnValues := by
    intro name processor hget v node node' s s'
    rw [Fields.get?_cons, Fields.get?_cons] at hget
    split_ifs at hget
    · cases hget
      rfl
    · cases hget
      rfl
    · cases hget
  have hidle : ∀ node ∈ Node.all (.array [.object [("Count", two)]]),
      count.Idle (fun _ => True) node := by
    intro node _ name v processor _ hget s _
    rw [Fields.get?_cons] at hget
    split_ifs at hget
    · cases hget
      exact ⟨s + 1, trivial, rfl⟩
    · cases hget
  obtain ⟨hexchange, -, -⟩ := exchange_at_path ps
  obtain ⟨-, hcount, hplain⟩ := exchange_at_path count
  obtain ⟨s, -, hcounted⟩ :=
    hcount (.array [.object [("Count", two)]]) (fun _ => True) 0 trivial hidle
  refine ⟨hps, ?_, ⟨s, hcounted⟩, hplain (document two) 0 (by decide)⟩
  have hsame := hexchange hps (document .null) one two (.string "x") (document one) (document two)
    [.key "list", .index 1] 0 0 rfl rfl rfl rfl 0 0
  exact hsame.symm.trans rfl

end Processors

end ModularTemplates
