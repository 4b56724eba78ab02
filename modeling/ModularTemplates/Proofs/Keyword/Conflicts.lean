import Mathlib.Data.List.Basic
import Mathlib.Tactic.Lemma
import ModularTemplates.Proofs.Json
import ModularTemplates.Proofs.Keyword.Answers

/-!
# Conflicting replacements

An object replacement must be the only change that the keywords of an object ask for. To tell which
objects break this rule, the document is walked in post-order and every place is recorded with what
its keywords answered, whether or not the answers can be applied. Processing then fails at the first
recorded conflict, and if there is none it ends where the walk ends.
-/

namespace ModularTemplates

variable {σ ε α β : Type}

/-! ### Places that were visited -/

/-- A place, what has become of everything inside it, and what its keywords answered in key
order. -/
structure Visit where
  node : Node
  rebuilt : Json
  replies : List (String × Replacement)

namespace Visit

/-- The answers that change something. -/
def changes (visit : Visit) : List (String × Replacement) :=
  changesAmong visit.replies

/-- Whether an object replacement is not the only change. -/
def conflicts (visit : Visit) : Bool :=
  visit.changes.any (fun change => change.2.isObject) && decide (1 < visit.changes.length)

/-- What the answers make of the place: the value of the only object replacement, or the rebuilt
object with its keyword replacements. -/
def result (visit : Visit) : Json :=
  match visit.changes, visit.rebuilt with
  | [(_, .object v _)], _ => v
  | changes, .object fs => .object (changes.foldl replaceKeyword fs)
  | _, v => v

/-- The error that names the place and its changes. -/
def conflict (visit : Visit) : ProcessError ε :=
  .conflict visit.node.path (visit.changes.map Prod.fst)

/-- The result of a place stands in what has become of the container around it. -/
def StandsIn (visit around : Visit) : Prop :=
  ∃ seg, visit.node.parent? = some (seg, around.node) ∧
    around.rebuilt.child? seg = some visit.result

variable {visit : Visit}

lemma result_of_reply (hconflicts : visit.conflicts = false) {keyword : String} {v : Json}
    {level : Nat} (hreply : (keyword, .object v level) ∈ visit.replies) : visit.result = v := by
  have hchange : (keyword, .object v level) ∈ visit.changes :=
    List.mem_filter.mpr ⟨hreply, rfl⟩
  have hobject : visit.changes.any (fun change => change.2.isObject) = true :=
    List.any_eq_true.mpr ⟨_, hchange, rfl⟩
  rw [conflicts, hobject, Bool.true_and, decide_eq_false_iff_not, Nat.not_lt] at hconflicts
  have hlength := Nat.le_antisymm hconflicts (List.length_pos_of_mem hchange)
  obtain ⟨change, hchanges⟩ := List.length_eq_one_iff.mp hlength
  rw [hchanges, List.mem_singleton] at hchange
  subst hchange
  rw [result, hchanges]

end Visit

lemma applyAnswers_of_conflicts {visit : Visit} {fs : Fields Json} (h : visit.conflicts = true) :
    applyAnswers (ε := ε) visit.node fs visit.changes = .error (.failed visit.conflict) := by
  rw [Visit.conflicts, Bool.and_eq_true, decide_eq_true_eq, List.any_eq_true] at h
  exact applyAnswers_of_conflict visit.node fs h.2 h.1

lemma applyAnswers_of_not_conflicts {visit : Visit} {fs : Fields Json}
    (hrebuilt : visit.rebuilt = .object fs)
    (hlevels : ∀ keyword v level, (keyword, .object v level) ∈ visit.replies → level = 0)
    (h : visit.conflicts = false) :
    applyAnswers (ε := ε) visit.node fs visit.changes = .ok visit.result := by
  have hlevels : ∀ keyword v level, (keyword, .object v level) ∈ visit.changes → level = 0 :=
    fun keyword v level hchange => hlevels keyword v level (List.mem_filter.mp hchange).1
  rw [Visit.conflicts] at h
  rw [Visit.result, hrebuilt]
  generalize visit.changes = changes at h hlevels ⊢
  match changes with
  | [(keyword, .object v level)] =>
    obtain rfl := hlevels keyword v level List.mem_cons_self
    rfl
  | [] | [(_, .keyword _)] | [(_, .unchanged)] => rfl
  | change :: next :: changes =>
    have hobjects : ∀ reply ∈ change :: next :: changes, reply.2.isObject = false := by
      simpa using h
    rw [applyAnswers_of_not_isObject hobjects]
    simp

/-! ### Runs that stop at the first conflict -/

/-- A run that ends where its visits end if none of them conflicts, and fails with the first
conflict otherwise. -/
inductive StopsAtConflict (visits : List Visit) (a : α) (s' : σ) :
    Except (Interruption ε) α × σ → Prop
  | ok (h : visits.find? Visit.conflicts = none) : StopsAtConflict visits a s' (.ok a, s')
  | conflict {visit : Visit} (h : visits.find? Visit.conflicts = some visit) (s₁ : σ) :
      StopsAtConflict visits a s' (.error (.failed visit.conflict), s₁)

namespace StopsAtConflict

variable {visits visits' : List Visit} {a : α} {b : β} {s s₁ s₂ : σ}

lemma bind {x : Rebuild ε (StateM σ) α} {f : α → Rebuild ε (StateM σ) β}
    (hx : StopsAtConflict visits a s₁ (x.run.run s))
    (hf : StopsAtConflict visits' b s₂ ((f a).run.run s₁)) :
    StopsAtConflict (visits ++ visits') b s₂ ((x >>= f).run.run s) := by
  generalize hrun : x.run.run s = run at hx
  cases hx with
  | ok hvisits =>
    rw [run_bind_of_ok hrun]
    generalize (f a).run.run s₁ = run' at hf
    cases hf with
    | ok hvisits' => exact .ok (by rw [List.find?_append, hvisits, hvisits']; rfl)
    | conflict hvisits' s₂ =>
      exact .conflict (by rw [List.find?_append, hvisits, hvisits']; rfl) s₂
  | conflict hvisits s₁ =>
    rw [run_bind_of_error hrun]
    exact .conflict (by rw [List.find?_append, hvisits]; rfl) s₁

/-- What follows without a visit only changes the result. -/
lemma map {x : Rebuild ε (StateM σ) α} (hx : StopsAtConflict visits a s₁ (x.run.run s))
    (g : α → β) :
    StopsAtConflict visits (g a) s₁ ((x >>= fun a => pure (g a)).run.run s) := by
  have hpure :
      StopsAtConflict [] (g a) s₁ ((pure (g a) : Rebuild ε (StateM σ) β).run.run s₁) :=
      .ok rfl
  have hmap := hx.bind (f := fun a => pure (g a)) hpure
  rwa [List.append_nil] at hmap

lemma settle {x : Rebuild ε (StateM σ) Json} {v : Json}
    (hx : StopsAtConflict visits v s₁ (x.run.run s)) :
    StopsAtConflict visits v s₁ ((settle x).run.run s) := by
  generalize hrun : x.run.run s = run at hx
  cases hx with
  | ok hvisits =>
    rw [run_settle_of_ok hrun]
    exact .ok hvisits
  | conflict hvisits s₁ =>
    rw [run_settle_of_failed hrun]
    exact .conflict hvisits s₁

end StopsAtConflict

/-! ### Walking through a document -/

namespace Processors

mutual
/-- `ps.Walks above v s visits w s'`: from the state `s` on a value that stands at a place is
visited from the inside out, it becomes `w`, and the state `s'` is left. -/
inductive Walks (ps : Processors ε (StateM σ)) :
    List Crumb → Json → σ → List Visit → Json → σ → Prop
  | primitive {above : List Crumb} {v : Json} {s : σ} (hv : v.shape = .primitive) :
      ps.Walks above v s [⟨⟨v, above⟩, v, []⟩] v s
  | array {above : List Crumb} {xs ys : List Json} {s s' : σ} {visits : List Visit}
      (hitems : ps.WalksItems (.array xs) above 0 xs s visits ys s') :
      ps.Walks above (.array xs) s (visits ++ [⟨⟨.array xs, above⟩, .array ys, []⟩])
        (.array ys) s'
  | object {above : List Crumb} {fs gs : Fields Json} {s s₁ s₂ : σ} {visits : List Visit}
      {replies : List (String × Replacement)}
      (hfields : ps.WalksFields (.object fs) above fs s visits gs s₁)
      (hreplies : ps.Replies ⟨.object fs, above⟩ gs (Fields.keys fs) s₁ replies s₂) :
      ps.Walks above (.object fs) s (visits ++ [⟨⟨.object fs, above⟩, .object gs, replies⟩])
        (Visit.result ⟨⟨.object fs, above⟩, .object gs, replies⟩) s₂

/-- The fields of an object, one after the other. -/
inductive WalksFields (ps : Processors ε (StateM σ)) :
    Json → List Crumb → List (String × Json) → σ →
      List Visit → List (String × Json) → σ → Prop
  | nil {parent : Json} {above : List Crumb} {s : σ} : ps.WalksFields parent above [] s [] [] s
  | cons {parent : Json} {above : List Crumb} {k : String} {v w : Json}
      {fs gs : List (String × Json)} {s s₁ s₂ : σ} {visits visits' : List Visit}
      (hv : ps.Walks (⟨.key k, parent⟩ :: above) v s visits w s₁)
      (hfs : ps.WalksFields parent above fs s₁ visits' gs s₂) :
      ps.WalksFields parent above ((k, v) :: fs) s (visits ++ visits') ((k, w) :: gs) s₂

/-- The items of an array from an index on. -/
inductive WalksItems (ps : Processors ε (StateM σ)) :
    Json → List Crumb → Nat → List Json → σ → List Visit → List Json → σ → Prop
  | nil {parent : Json} {above : List Crumb} {i : Nat} {s : σ} :
      ps.WalksItems parent above i [] s [] [] s
  | cons {parent : Json} {above : List Crumb} {i : Nat} {x y : Json} {xs ys : List Json}
      {s s₁ s₂ : σ} {visits visits' : List Visit}
      (hx : ps.Walks (⟨.index i, parent⟩ :: above) x s visits y s₁)
      (hxs : ps.WalksItems parent above (i + 1) xs s₁ visits' ys s₂) :
      ps.WalksItems parent above i (x :: xs) s (visits ++ visits') (y :: ys) s₂
end

variable {ps : Processors ε (StateM σ)}

/-- The processors never fail, and no object replacement goes up. -/
def InPlace (ps : Processors ε (StateM σ)) : Prop :=
  ∀ name processor, Fields.get? ps name = some processor → ∀ node v s,
    ∃ answer s', (processor name node v).run.run s = (.ok answer, s') ∧
      ∀ w level, answer = .object w level → level = 0

lemma exists_replies (hps : ps.InPlace) (node : Node) (processed : Fields Json)
    (names : List String) (s : σ) :
    ∃ replies s', ps.Replies node processed names s replies s' := by
  induction names generalizing s with
  | nil => exact ⟨[], s, .nil s⟩
  | cons name names ih =>
    cases hget : Fields.get? ps name with
    | none =>
      obtain ⟨replies, s', hreplies⟩ := ih s
      exact ⟨replies, s', .plain hget hreplies⟩
    | some processor =>
      obtain ⟨answer, s₁, hanswer, -⟩ :=
        hps name processor hget node ((processed.get? name).getD .null) s
      obtain ⟨replies, s₂, hreplies⟩ := ih s₁
      exact ⟨(name, answer) :: replies, s₂, .keyword hget hanswer hreplies⟩

lemma Replies.level_eq_zero (hps : ps.InPlace) {node : Node} {processed : Fields Json}
    {names : List String} {s s' : σ} {replies : List (String × Replacement)}
    (h : ps.Replies node processed names s replies s') :
    ∀ keyword v level, (keyword, .object v level) ∈ replies → level = 0 := by
  induction h with
  | nil s => simp
  | plain hname rest ih => exact ih
  | keyword hname hanswer rest ih =>
    intro keyword v level hreply
    rcases List.mem_cons.mp hreply with heq | hreply
    · cases heq
      obtain ⟨answer, s', hrun, hlevel⟩ := hps _ _ hname _ _ _
      rw [hanswer] at hrun
      cases hrun
      exact hlevel v level rfl
    · exact ih keyword v level hreply

mutual
lemma exists_walks (hps : ps.InPlace) (above : List Crumb) (v : Json) (s : σ) :
    ∃ visits w s', ps.Walks above v s visits w s' := by
  match v with
  | .object fs =>
    obtain ⟨visits, gs, s₁, hfields⟩ := exists_walks_fields hps (.object fs) above fs s
    obtain ⟨replies, s₂, hreplies⟩ :=
      exists_replies hps ⟨.object fs, above⟩ gs (Fields.keys fs) s₁
    exact ⟨_, _, s₂, .object hfields hreplies⟩
  | .array xs =>
    obtain ⟨visits, ys, s', hitems⟩ := exists_walks_items hps (.array xs) above 0 xs s
    exact ⟨_, _, s', .array hitems⟩
  | .null | .bool _ | .number _ | .string _ => exact ⟨_, _, s, .primitive rfl⟩

lemma exists_walks_fields (hps : ps.InPlace) (parent : Json) (above : List Crumb)
    (fs : List (String × Json)) (s : σ) :
    ∃ visits gs s', ps.WalksFields parent above fs s visits gs s' := by
  match fs with
  | [] => exact ⟨[], [], s, .nil⟩
  | (k, v) :: fs =>
    obtain ⟨visits, w, s₁, hv⟩ := exists_walks hps (⟨.key k, parent⟩ :: above) v s
    obtain ⟨visits', gs, s₂, hfs⟩ := exists_walks_fields hps parent above fs s₁
    exact ⟨_, _, s₂, .cons hv hfs⟩

lemma exists_walks_items (hps : ps.InPlace) (parent : Json) (above : List Crumb) (i : Nat)
    (xs : List Json) (s : σ) :
    ∃ visits ys s', ps.WalksItems parent above i xs s visits ys s' := by
  match xs with
  | [] => exact ⟨[], [], s, .nil⟩
  | x :: xs =>
    obtain ⟨visits, y, s₁, hx⟩ := exists_walks hps (⟨.index i, parent⟩ :: above) x s
    obtain ⟨visits', ys, s₂, hxs⟩ := exists_walks_items hps parent above (i + 1) xs s₁
    exact ⟨_, _, s₂, .cons hx hxs⟩
end

/-! ### The walk and the run -/

/-- The answers of an object are applied unless they conflict. -/
lemma Replies.stopsAtConflict (hps : ps.InPlace) {above : List Crumb} {fs gs : Fields Json}
    {s s' : σ} {replies : List (String × Replacement)}
    (h : ps.Replies ⟨.object fs, above⟩ gs fs.keys s replies s') :
    StopsAtConflict [⟨⟨.object fs, above⟩, .object gs, replies⟩]
      (Visit.result ⟨⟨.object fs, above⟩, .object gs, replies⟩) s'
      ((answers ps ⟨.object fs, above⟩ gs fs >>= fun replies =>
        ExceptT.mk (pure (applyAnswers ⟨.object fs, above⟩ gs replies))).run.run s) := by
  obtain ⟨visit, hvisit⟩ : ∃ visit : Visit,
      visit = ⟨⟨.object fs, above⟩, .object gs, replies⟩ := ⟨_, rfl⟩
  have happly : StopsAtConflict [visit] visit.result s'
      ((applyAnswers visit.node gs visit.changes : Except (Interruption ε) Json), s') := by
    cases hconflicts : visit.conflicts with
    | true =>
      rw [applyAnswers_of_conflicts hconflicts]
      exact .conflict (List.find?_cons_of_pos hconflicts) s'
    | false =>
      rw [applyAnswers_of_not_conflicts (by rw [hvisit]) (by rw [hvisit]; exact h.level_eq_zero hps)
        hconflicts]
      exact .ok (by simpa using hconflicts)
  subst hvisit
  rw [run_bind_of_ok h.run_answers]
  exact happly

mutual
/-- A run does what the walk does up to the first conflict. -/
lemma Walks.stopsAtConflict (hps : ps.InPlace) {above : List Crumb} {v w : Json} {s s' : σ}
    {visits : List Visit} (h : ps.Walks above v s visits w s') :
    StopsAtConflict visits w s' ((settle (ps.value above v)).run.run s) := by
  match h with
  | .primitive hv =>
    rw [value_of_primitive above hv]
    exact .ok rfl
  | .array hitems =>
    apply StopsAtConflict.settle
    rw [value]
    exact (hitems.stopsAtConflict hps).bind (.ok rfl)
  | .object hfields hreplies =>
    apply StopsAtConflict.settle
    rw [value]
    exact (hfields.stopsAtConflict hps).bind (hreplies.stopsAtConflict hps)

lemma WalksFields.stopsAtConflict (hps : ps.InPlace) {parent : Json} {above : List Crumb}
    {fs gs : List (String × Json)} {s s' : σ} {visits : List Visit}
    (h : ps.WalksFields parent above fs s visits gs s') :
    StopsAtConflict visits gs s' ((ps.fields parent above fs).run.run s) := by
  match h with
  | .nil =>
    rw [fields]
    exact .ok rfl
  | .cons hv hfs =>
    rw [fields]
    exact (hv.stopsAtConflict hps).bind ((hfs.stopsAtConflict hps).map _)

lemma WalksItems.stopsAtConflict (hps : ps.InPlace) {parent : Json} {above : List Crumb} {i : Nat}
    {xs ys : List Json} {s s' : σ} {visits : List Visit}
    (h : ps.WalksItems parent above i xs s visits ys s') :
    StopsAtConflict visits ys s' ((ps.items parent above i xs).run.run s) := by
  match h with
  | .nil =>
    rw [items]
    exact .ok rfl
  | .cons hx hxs =>
    rw [items]
    exact (hx.stopsAtConflict hps).bind ((hxs.stopsAtConflict hps).map _)
end

/-! ### What the walk visits -/

mutual
lemma Walks.map_node {above : List Crumb} {v w : Json} {s s' : σ} {visits : List Visit}
    (h : ps.Walks above v s visits w s') : visits.map Visit.node = Node.postorderFrom above v := by
  match h with
  | .primitive hv => rw [Node.postorderFrom_of_primitive above hv, List.map_singleton]
  | .array hitems =>
    rw [List.map_append, hitems.map_node, Node.postorderFrom]
    rfl
  | .object hfields hreplies =>
    rw [List.map_append, hfields.map_node, Node.postorderFrom]
    rfl

lemma WalksFields.map_node {parent : Json} {above : List Crumb} {fs gs : List (String × Json)}
    {s s' : σ} {visits : List Visit} (h : ps.WalksFields parent above fs s visits gs s') :
    visits.map Visit.node = Node.postorderFields parent above fs := by
  match h with
  | .nil => rw [Node.postorderFields, List.map_nil]
  | .cons hv hfs => rw [List.map_append, hv.map_node, hfs.map_node, Node.postorderFields]

lemma WalksItems.map_node {parent : Json} {above : List Crumb} {i : Nat} {xs ys : List Json}
    {s s' : σ} {visits : List Visit} (h : ps.WalksItems parent above i xs s visits ys s') :
    visits.map Visit.node = Node.postorderItems parent above i xs := by
  match h with
  | .nil => rw [Node.postorderItems, List.map_nil]
  | .cons hx hxs => rw [List.map_append, hx.map_node, hxs.map_node, Node.postorderItems]
end

lemma WalksFields.keys_eq {parent : Json} {above : List Crumb} {fs gs : List (String × Json)}
    {s s' : σ} {visits : List Visit} (h : ps.WalksFields parent above fs s visits gs s') :
    Fields.keys gs = Fields.keys fs := by
  match h with
  | .nil => rfl
  | .cons hv hfs => rw [Fields.keys_cons, Fields.keys_cons, hfs.keys_eq]

lemma WalksFields.distinct {parent : Json} {above : List Crumb} {fs gs : List (String × Json)}
    {s s' : σ} {visits : List Visit} (h : ps.WalksFields parent above fs s visits gs s')
    (hfs : Fields.Distinct fs) :
    Fields.Distinct gs := by
  rw [Fields.Distinct, h.keys_eq]
  exact hfs

/-! ### Where the results of the visits stand -/

mutual
/-- The last visit is the one of the value itself; the results of all others stand in what has
become of the container around them. -/
lemma Walks.standsIn {above : List Crumb} {v w : Json} {s s' : σ} {visits : List Visit}
    (h : ps.Walks above v s visits w s') (hv : v.WellFormed) : ∀ visit ∈ visits,
      visit.node = ⟨v, above⟩ ∧ visit.result = w ∨
      ∃ around ∈ visits, visit.StandsIn around := by
  match h with
  | .primitive hprimitive =>
    rw [List.forall_mem_singleton]
    refine .inl ⟨rfl, ?_⟩
    cases v with
    | object fs => cases hprimitive
    | _ => rfl
  | .array hitems =>
    rw [Json.WellFormed, Json.wellFormedItems_iff] at hv
    rw [List.forall_mem_append, List.forall_mem_singleton]
    refine ⟨fun visit hvisit => .inr ?_, .inl ⟨rfl, rfl⟩⟩
    rcases hitems.standsIn hv visit hvisit
      with ⟨j, hparent, hchild⟩ | ⟨around, haround, hin⟩
    · rw [Nat.zero_add] at hparent
      exact ⟨_, List.mem_append_right _ List.mem_cons_self, .index j, hparent, hchild⟩
    · exact ⟨around, List.mem_append_left _ haround, hin⟩
  | .object hfields hreplies =>
    rw [Json.WellFormed, Json.wellFormedFields_iff] at hv
    rw [List.forall_mem_append, List.forall_mem_singleton]
    have hdistinct := hfields.distinct hv.1
    refine ⟨fun visit hvisit => .inr ?_, .inl ⟨rfl, rfl⟩⟩
    rcases hfields.standsIn hv.2 visit hvisit
      with ⟨k, hparent, hmem⟩ | ⟨around, haround, hin⟩
    · exact ⟨_, List.mem_append_right _ List.mem_cons_self, .key k, hparent,
        hdistinct.get?_of_mem hmem⟩
    · exact ⟨around, List.mem_append_left _ haround, hin⟩

lemma WalksFields.standsIn {parent : Json} {above : List Crumb} {fs gs : List (String × Json)}
    {s s' : σ} {visits : List Visit} (h : ps.WalksFields parent above fs s visits gs s')
    (hfs : ∀ field ∈ fs, field.2.WellFormed) : ∀ visit ∈ visits,
      (∃ k, visit.node.parent? = some (.key k, ⟨parent, above⟩) ∧
        (k, visit.result) ∈ gs) ∨
        ∃ around ∈ visits, visit.StandsIn around := by
  match h with
  | .nil => simp
  | .cons (k := k) hv hrest =>
    rw [List.forall_mem_cons] at hfs
    rw [List.forall_mem_append]
    constructor
    · intro visit hvisit
      rcases hv.standsIn hfs.1 visit hvisit with ⟨hnode, hresult⟩ | ⟨around, haround, hin⟩
      · exact .inl ⟨k, by rw [hnode]; rfl, by rw [hresult]; exact List.mem_cons_self⟩
      · exact .inr ⟨around, List.mem_append_left _ haround, hin⟩
    · intro visit hvisit
      rcases hrest.standsIn hfs.2 visit hvisit
        with ⟨k', hparent, hmem⟩ | ⟨around, haround, hin⟩
      · exact .inl ⟨k', hparent, List.mem_cons_of_mem _ hmem⟩
      · exact .inr ⟨around, List.mem_append_right _ haround, hin⟩

lemma WalksItems.standsIn {parent : Json} {above : List Crumb} {i : Nat} {xs ys : List Json}
    {s s' : σ} {visits : List Visit} (h : ps.WalksItems parent above i xs s visits ys s')
    (hxs : ∀ x ∈ xs, x.WellFormed) :
    ∀ visit ∈ visits,
      (∃ j, visit.node.parent? = some (.index (i + j), ⟨parent, above⟩) ∧
        ys[j]? = some visit.result) ∨
        ∃ around ∈ visits, visit.StandsIn around := by
  match h with
  | .nil => simp
  | .cons hx hrest =>
    rw [List.forall_mem_cons] at hxs
    rw [List.forall_mem_append]
    constructor
    · intro visit hvisit
      rcases hx.standsIn hxs.1 visit hvisit with ⟨hnode, hresult⟩ | ⟨around, haround, hin⟩
      · exact .inl ⟨0, by rw [hnode]; rfl, by rw [hresult]; rfl⟩
      · exact .inr ⟨around, List.mem_append_left _ haround, hin⟩
    · intro visit hvisit
      rcases hrest.standsIn hxs.2 visit hvisit
        with ⟨j, hparent, hget⟩ | ⟨around, haround, hin⟩
      · exact .inl ⟨j + 1, by rw [hparent, Nat.add_assoc, Nat.add_comm 1 j], hget⟩
      · exact .inr ⟨around, List.mem_append_right _ haround, hin⟩
end

/-! ### Documents -/

/-- Processors that never fail and only answer that nothing changes, with keyword replacements or
with replacements of the object itself. Every place of a document is visited in post-order.
Processing fails if and only if a place conflicts, with the first such place and its changes in key
order. Otherwise it ends in the result of the root. The result of every other place stands in what
has become of the container around it, and the result of a place that asked for an object
replacement is the value of that replacement. -/
theorem fails_iff_conflicts (hps : ps.InPlace) {document : Json} (hdocument : document.WellFormed)
    (s : σ) :
    ∃ visits result s', ps.Walks [] document s visits result s' ∧
      visits.map Visit.node = Node.postorder document ∧
      ((∃ e, ((processKeywords ps document).run.run s).1 = .error e) ↔
        ∃ visit ∈ visits, visit.conflicts = true) ∧
      (∀ visit, visits.find? Visit.conflicts = some visit →
        ((processKeywords ps document).run.run s).1 =
          .error (.conflict visit.node.path (visit.changes.map Prod.fst))) ∧
      ((∀ visit ∈ visits, visit.conflicts = false) →
        (processKeywords ps document).run.run s = (.ok result, s') ∧
        ∀ visit ∈ visits,
          (visit.node = Node.root document ∧ visit.result = result ∨
            ∃ around ∈ visits, visit.StandsIn around) ∧
          ∀ keyword v level, (keyword, .object v level) ∈ visit.replies →
            visit.result = v) := by
  obtain ⟨visits, result, s', hwalk⟩ := exists_walks hps [] document s
  refine ⟨visits, result, s', hwalk, hwalk.map_node, ?_⟩
  have hstands := hwalk.standsIn hdocument
  have hrun := hwalk.stopsAtConflict hps
  generalize hends : (settle (ps.value [] document)).run.run s = ends at hrun
  cases hrun with
  | ok hnone =>
    have hprocess := run_processKeywords_of_ok hends
    have hconflicts : ∀ visit ∈ visits, visit.conflicts = false := by simpa using hnone
    refine ⟨?_, ?_, fun _ =>
      ⟨hprocess, fun visit hvisit =>
        ⟨hstands visit hvisit, fun keyword v level hreply => ?_⟩⟩⟩
    · rw [hprocess]
      simpa using hconflicts
    · rw [hnone]
      simp
    · exact Visit.result_of_reply (hconflicts visit hvisit) hreply
  | @conflict visit hfirst s₁ =>
    have hprocess := run_processKeywords_of_failed hends
    have hvisit := List.mem_of_find?_eq_some hfirst
    have hconflicts := List.find?_some hfirst
    refine ⟨⟨fun _ => ⟨visit, hvisit, hconflicts⟩, fun _ => ⟨_, by rw [hprocess]⟩⟩,
      ?_, ?_⟩
    · intro first hfirst'
      obtain rfl := Option.some.inj (hfirst.symm.trans hfirst')
      rw [hprocess]
      rfl
    · intro hnone
      rw [hnone visit hvisit] at hconflicts
      cases hconflicts

/-- The second object of a list asks for an object replacement and a keyword replacement; the object
behind the list does so as well, and is not named. -/
theorem fails_iff_conflicts_in_list :
    let ps : Processors String (StateM Unit) :=
      [("Keep", fun _ _ _ => return .unchanged),
        ("More", fun _ _ v => return .keyword [("more", v)]),
        ("Value", fun _ _ v => return .object v 0)]
    let fine : Json := .object [("Keep", .null), ("Value", .object [("More", .bool true)])]
    let wrong : Json := .object [("More", .null), ("Keep", .null), ("Value", fine)]
    let document : Json := .object [("list", .array [fine, wrong]), ("rest", wrong)]
    ps.InPlace ∧ document.WellFormed ∧ ∃ (visits : List Visit) (visit : Visit),
      visits.map Visit.node = Node.postorder document ∧
      visits.find? Visit.conflicts = some visit ∧ visit.node.path = [.key "list", .index 1] ∧
      visit.changes.map Prod.fst = ["More", "Value"] := by
  intro ps fine wrong document
  have hps : ps.InPlace := by
    intro name processor hget node v s
    rw [Fields.get?_cons, Fields.get?_cons, Fields.get?_cons] at hget
    split_ifs at hget
    · cases hget
      exact ⟨.unchanged, s, rfl, by simp⟩
    · cases hget
      exact ⟨.keyword [("more", v)], s, rfl, by simp⟩
    · cases hget
      exact ⟨.object v 0, s, rfl, by simp⟩
    · cases hget
  have hdocument : document.WellFormed := by decide
  obtain ⟨visits, result, s', -, hnodes, hfails, hfirst, -⟩ :=
    fails_iff_conflicts hps hdocument ()
  have hrun : ((processKeywords ps document).run.run ()).1 =
      .error (.conflict [.key "list", .index 1] ["More", "Value"]) := rfl
  cases hfind : visits.find? Visit.conflicts with
  | none =>
    obtain ⟨visit, hvisit, hconflicts⟩ := hfails.mp ⟨_, hrun⟩
    exact absurd hconflicts (List.find?_eq_none.mp hfind visit hvisit)
  | some visit =>
    have herror := hrun.symm.trans (hfirst visit hfind)
    simp only [Except.error.injEq, ProcessError.conflict.injEq] at herror
    exact ⟨hps, hdocument, visits, visit, hnodes, hfind, herror.1.symm, herror.2.symm⟩

end Processors

end ModularTemplates
