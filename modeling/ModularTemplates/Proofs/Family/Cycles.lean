import Mathlib.Data.List.Chain
import Mathlib.Tactic.Lemma
import ModularTemplates.Proofs.Family.Refusals

/-!
# Chains that never end

There are only so many resources, so a chain of links that never ends runs into a circle. The walk
to the root fails for exactly these chains. What it reports is everything that it has passed: the
way into the circle, and the circle.
-/

namespace ModularTemplates

namespace Documents

variable {documents : Documents} {a b c start : ResourceId} {m n : Nat}

/-! ### Chains -/

/-- A resource extends another one. -/
def Extends (documents : Documents) (a b : ResourceId) : Prop :=
  documents.extended? a = some b

/-- The links from a resource never end. -/
def Endless (documents : Documents) (id : ResourceId) : Prop :=
  ∀ n, ∃ target, documents.Chain target n id

lemma Chain.trans (h : documents.Chain b m a) (h' : documents.Chain c n b) :
    documents.Chain c (m + n) a := by
  induction h with
  | root => rwa [Nat.zero_add]
  | link hextended _ ih =>
    rw [Nat.add_right_comm]
    exact .link hextended ih

/-- The end of a chain extends the end of the chain that is one link longer. -/
lemma Chain.extends (h : documents.Chain b n a) (h' : documents.Chain c (n + 1) a) :
    documents.Extends b c := by
  induction h with
  | root =>
    cases h' with
    | link hextended rest =>
      cases rest
      exact hextended
  | link hextended _ ih =>
    cases h' with
    | link hextended' rest =>
      cases hextended.symm.trans hextended'
      exact ih rest

lemma Endless.extended?_ne_none (h : documents.Endless a) (hchain : documents.Chain b n a) :
    documents.extended? b ≠ none := by
  obtain ⟨c, hc⟩ := h (n + 1)
  rw [hchain.extends hc]
  exact Option.some_ne_none c

/-- Where a chain comes back to its start, the start is reached from everywhere on it. -/
lemma Chain.back (hround : documents.Chain a (m + 1) a) (h : documents.Chain b n a) :
    ∃ k, documents.Chain a k b := by
  induction h generalizing m with
  | root => exact ⟨0, .root⟩
  | link hextended _ ih =>
    cases hround with
    | link hextended' rest =>
      cases hextended.symm.trans hextended'
      obtain ⟨k, hk⟩ := ih (rest.trans (.link hextended .root))
      exact ⟨_, hk.trans rest⟩

lemma chain_of_isChain {ids : List ResourceId} (h : (a :: ids ++ [b]).IsChain documents.Extends) :
    documents.Chain b (ids.length + 1) a := by
  induction ids generalizing a with
  | nil => exact .link (List.isChain_cons_cons.mp h).1 .root
  | cons next ids ih =>
    obtain ⟨hextends, hrest⟩ := List.isChain_cons_cons.mp h
    exact .link hextends (ih hrest)

/-! ### Circles -/

/-- Resources of which each extends the next one, and the last one the first. -/
structure Circle (documents : Documents) (ids : List ResourceId) : Prop where
  nonempty : ids ≠ []
  nodup : ids.Nodup
  next : ids.IsChain documents.Extends
  closed : documents.Extends (ids.getLast nonempty) (ids.head nonempty)

section Walk

variable {tail rest : List ResourceId} {first : ResourceId}

lemma circle_of_isChain (hnodup : (first :: rest).Nodup)
    (h : (first :: rest ++ [first]).IsChain documents.Extends) :
    documents.Circle (first :: rest) where
  nonempty := List.cons_ne_nil first rest
  nodup := hnodup
  next := h.left_of_append
  closed := h.rel_getLast_head_of_append (List.cons_ne_nil _ _) (List.cons_ne_nil _ _)

/-- Links lead on to the end of a walk, and from there to the start of its circle. -/
lemma exists_extends_of_isChain {ids : List ResourceId} (hfirst : first ∈ ids)
    (h : (ids ++ [first]).IsChain documents.Extends) (ha : a ∈ ids) :
    ∃ b ∈ ids, documents.Extends a b := by
  obtain ⟨before, after, rfl⟩ := List.append_of_mem ha
  rw [List.append_assoc] at h
  have hsuffix : (a :: (after ++ [first])).IsChain documents.Extends := h.right_of_append
  cases after with
  | nil => exact ⟨first, hfirst, (List.isChain_cons_cons.mp hsuffix).1⟩
  | cons b after => exact ⟨b, by simp, (List.isChain_cons_cons.mp hsuffix).1⟩

/-- Links do not lead out of resources that extend each other. -/
lemma mem_of_chain {ids : List ResourceId} (h : ∀ a ∈ ids, ∃ b ∈ ids, documents.Extends a b)
    (ha : a ∈ ids) (hchain : documents.Chain b n a) : b ∈ ids := by
  induction hchain with
  | root => exact ha
  | link hextended _ ih =>
    obtain ⟨next, hnext, hextends⟩ := h _ ha
    cases hextended.symm.trans hextends
    exact ih hnext

lemma endless_of_mem {ids : List ResourceId}
    (h : ∀ a ∈ ids, ∃ b ∈ ids, documents.Extends a b) (ha : a ∈ ids) :
    documents.Endless a := by
  intro n
  induction n generalizing a with
  | zero => exact ⟨a, .root⟩
  | succ n ih =>
    obtain ⟨b, hb, hextends⟩ := h a ha
    obtain ⟨target, htarget⟩ := ih hb
    exact ⟨target, .link hextends htarget⟩

/-- A walk into a circle is a circle itself exactly if it starts in the circle, which is to say that
the links from its start come back there. -/
lemma circle_walk_iff (hnodup : (tail ++ first :: rest).Nodup)
    (h : (tail ++ first :: rest ++ [first]).IsChain documents.Extends)
    (hstart : (tail ++ first :: rest).head? = some start) :
    (documents.Circle (tail ++ first :: rest) ↔ tail = []) ∧
      (tail = [] ↔ ∃ n, documents.Chain start (n + 1) start) := by
  have hfirst : ∀ id ∈ tail, id ∉ first :: rest := fun id hid hmem =>
    (List.nodup_append'.mp hnodup).2.2 hid hmem
  rw [List.append_assoc] at h
  have hcircle : (first :: rest ++ [first]).IsChain documents.Extends := h.right_of_append
  cases tail with
  | nil =>
    cases hstart
    exact ⟨iff_of_true (circle_of_isChain hnodup hcircle) rfl,
      iff_of_true rfl ⟨_, chain_of_isChain hcircle⟩⟩
  | cons id tail =>
    cases hstart
    refine ⟨iff_of_false (fun hround => ?_) (List.cons_ne_nil _ _),
      iff_of_false (List.cons_ne_nil _ _) ?_⟩
    · -- the end of the walk extends the start of the circle already
      have hlast := hround.closed
      have hlast' :=
        hcircle.rel_getLast_head_of_append (List.cons_ne_nil _ _) (List.cons_ne_nil _ _)
      rw [List.getLast_append_of_ne_nil _ (List.cons_ne_nil _ _)] at hlast
      have heq : start = first := Option.some.inj (hlast.symm.trans hlast')
      exact hfirst start List.mem_cons_self (heq ▸ List.mem_cons_self)
    · rintro ⟨n, hround⟩
      have hinto : documents.Chain first (tail.length + 1) start := by
        refine chain_of_isChain ?_
        have hprefix : start :: tail ++ [first] <+: start :: tail ++ (first :: rest ++ [first]) :=
          (List.prefix_append_right_inj _).mpr ⟨rest ++ [first], rfl⟩
        exact h.prefix hprefix
      obtain ⟨k, hback⟩ := hround.back hinto
      exact hfirst start List.mem_cons_self (mem_of_chain (fun a ha =>
        exists_extends_of_isChain List.mem_cons_self hcircle ha) List.mem_cons_self hback)

end Walk

end Documents

/-! ### The walk to the root -/

namespace Links

variable {documents : Documents} {links : Links} {id root : ResourceId} {passed : List ResourceId}
  {e : FamilyError}

/-- A walk that fails has come back to a resource that it has passed. -/
lemma rootFrom_eq_error (hdocuments : documents.WellFormed)
    (hlinks : ofDocuments documents = .ok links) (hnodup : passed.Nodup)
    (hpassed : (passed ++ [id]).IsChain documents.Extends)
    (h : links.rootFrom passed id = .error e) :
    ∃ walk target, e = .cycle walk ∧ passed <+: walk ∧ walk.Nodup ∧ target ∈ walk ∧
      (walk ++ [target]).IsChain documents.Extends := by
  induction passed, id using rootFrom.induct links with
  | case1 passed id hmem =>
    rw [rootFrom_of_mem hmem] at h
    cases h
    exact ⟨passed, id, rfl, List.prefix_refl passed, hnodup, hmem, hpassed⟩
  | case2 passed id hfresh htarget =>
    rw [rootFrom_of_none hfresh htarget] at h
    cases h
  | case3 passed id hfresh target htarget ih =>
    rw [rootFrom_of_some hfresh htarget] at h
    rw [target?_of_ofDocuments hdocuments hlinks] at htarget
    have hnodup' : (passed ++ [id]).Nodup :=
      List.nodup_append'.mpr ⟨hnodup, List.nodup_singleton id, by simpa using hfresh⟩
    have hpassed' : (passed ++ [id] ++ [target]).IsChain documents.Extends := by
      refine List.isChain_append.mpr ⟨hpassed, List.isChain_singleton target, ?_⟩
      simpa [Documents.Extends] using htarget
    obtain ⟨walk, last, he, hprefix, hwalk⟩ := ih hnodup' hpassed' h
    exact ⟨walk, last, he, (List.prefix_append passed [id]).trans hprefix, hwalk⟩

/-- The walk from a resource that fails: on a way without repetition it has come to the start of a
circle for the second time. -/
theorem root_eq_error (hdocuments : documents.WellFormed)
    (hlinks : ofDocuments documents = .ok links) (h : links.root id = .error e) :
    ∃ tail first rest, e = .cycle (tail ++ first :: rest) ∧
      (tail ++ first :: rest).head? = some id ∧
      (tail ++ first :: rest).Nodup ∧
      (tail ++ first :: rest ++ [first]).IsChain documents.Extends := by
  rw [root] at h
  cases htarget : links.target? id with
  | none =>
    rw [rootFrom_of_none List.not_mem_nil htarget] at h
    cases h
  | some target =>
    rw [rootFrom_of_some List.not_mem_nil htarget] at h
    rw [target?_of_ofDocuments hdocuments hlinks] at htarget
    obtain ⟨walk, last, rfl, hprefix, hnodup, hlast, hwalk⟩ :=
      rootFrom_eq_error hdocuments hlinks (List.nodup_singleton id)
        (List.isChain_cons_cons.mpr ⟨htarget, List.isChain_singleton target⟩) h
    obtain ⟨tail, rest, rfl⟩ := List.append_of_mem hlast
    obtain ⟨walk, hid⟩ := hprefix
    refine ⟨tail, last, rest, rfl, ?_, hnodup, hwalk⟩
    rw [← hid]
    rfl

theorem root_eq_error_iff (hdocuments : documents.WellFormed)
    (hlinks : ofDocuments documents = .ok links) :
    (∃ e, links.root id = .error e) ↔ documents.Endless id := by
  constructor
  · rintro ⟨e, h⟩
    obtain ⟨tail, first, rest, -, hstart, -, hwalk⟩ := root_eq_error hdocuments hlinks h
    refine Documents.endless_of_mem (fun a ha => Documents.exists_extends_of_isChain ?_ hwalk ha)
      (List.mem_of_head? hstart)
    exact List.mem_append_right tail List.mem_cons_self
  · intro hendless
    cases h : links.root id with
    | error e => exact ⟨e, rfl⟩
    | ok root =>
      obtain ⟨n, hchain⟩ := exists_chain_of_rootFrom hdocuments hlinks h
      have hroot := target?_of_rootFrom h
      rw [target?_of_ofDocuments hdocuments hlinks] at hroot
      exact absurd hroot (hendless.extended?_ne_none hchain)

/-- The root is where the chain of a resource ends. -/
theorem root_eq_ok_iff (hdocuments : documents.WellFormed)
    (hlinks : ofDocuments documents = .ok links) :
    links.root id = .ok root ↔
      (∃ n, documents.Chain root n id) ∧ documents.extended? root = none := by
  have hend : ∀ {root}, links.root id = .ok root →
      (∃ n, documents.Chain root n id) ∧ documents.extended? root = none := by
    intro root h
    refine ⟨exists_chain_of_rootFrom hdocuments hlinks h, ?_⟩
    rw [← target?_of_ofDocuments hdocuments hlinks]
    exact target?_of_rootFrom h
  refine ⟨hend, ?_⟩
  rintro ⟨⟨n, hchain⟩, hroot⟩
  cases h : links.root id with
  | error e =>
    have hendless := (root_eq_error_iff hdocuments hlinks).mp ⟨e, h⟩
    exact absurd hroot (hendless.extended?_ne_none hchain)
  | ok other =>
    obtain ⟨⟨m, hother⟩, hotherless⟩ := hend h
    rw [hother.root_unique hchain hotherless hroot]

end Links

/-! ### Cycles in documents -/

namespace Families

variable {documents : Documents} {passed : List ResourceId}

/-- What is reported as a cycle is the walk from the first resource from which there is no root. -/
lemma exists_root_eq_cycle (h : ofDocuments documents = .error (.cycle passed)) :
    ∃ links before start after, Links.ofDocuments documents = .ok links ∧
      documents.ids = before ++ start :: after ∧
      (∀ id ∈ before, ∃ root, links.root id = .ok root) ∧
      links.root start = .error (.cycle passed) := by
  rcases error_of_ofDocuments h
    with h | ⟨links, before, start, after, hlinks, hids, hbefore, hstart⟩
  · obtain ⟨id, h | h | ⟨target, h⟩⟩ := Links.error_of_ofDocuments h <;> cases h
  refine ⟨links, before, start, after, hlinks, hids, hbefore, hstart.resolve_right ?_⟩
  rintro ⟨root, -, h⟩
  rcases Family.error_of_ofRoot h with h | ⟨rootLink, -, member, -, h | ⟨cause, h⟩⟩
  · cases h
  · obtain ⟨type, rootType, -, -, -, h⟩ := Family.error_of_checkType h
    cases h
  · cases h

/-- A cycle error lists, without repetition, the way from the first resource with an endless chain
into a circle, and the circle. It lists a circle and nothing else exactly if this resource is part
of the circle, so that its own chain comes back to it. -/
theorem cycle_error_is_circle_iff (hdocuments : documents.WellFormed)
    (h : ofDocuments documents = .error (.cycle passed)) :
    ∃ before start after tail circle,
      documents.ids = before ++ start :: after ∧ (∀ id ∈ before, ¬ documents.Endless id) ∧
      documents.Endless start ∧ passed = tail ++ circle ∧ passed.head? = some start ∧
      passed.Nodup ∧ passed.IsChain documents.Extends ∧ documents.Circle circle ∧
      (documents.Circle passed ↔ tail = []) ∧
      (documents.Circle passed ↔ ∃ n, documents.Chain start (n + 1) start) := by
  obtain ⟨links, before, start, after, hlinks, hids, hbefore, hstart⟩ := exists_root_eq_cycle h
  obtain ⟨tail, first, rest, heq, hhead, hnodup, hwalk⟩ :=
    Links.root_eq_error hdocuments hlinks hstart
  cases heq
  obtain ⟨hcircle, htail⟩ := Documents.circle_walk_iff hnodup hwalk hhead
  refine ⟨before, start, after, tail, first :: rest, hids, ?_,
    (Links.root_eq_error_iff hdocuments hlinks).mp ⟨_, hstart⟩, rfl, hhead, hnodup,
      hwalk.left_of_append, ?_, hcircle, hcircle.trans htail⟩
  · intro id hid hendless
    obtain ⟨root, hroot⟩ := hbefore id hid
    obtain ⟨e, he⟩ := (Links.root_eq_error_iff hdocuments hlinks).mpr hendless
    rw [hroot] at he
    cases he
  · rw [List.append_assoc] at hwalk
    exact Documents.circle_of_isChain (List.nodup_append'.mp hnodup).2.1 hwalk.right_of_append

/-- Two resources of two modules that extend each other, behind one that extends nothing. -/
theorem cycle_error_is_circle_iff_modules :
    let documents : Documents :=
      [("app", ⟨.object [("Resources", .object [("plain", .object []),
          ("near",
            .object
              [("Extend", .object [("module", .string "lib"), ("resource", .string "far")])])])],
          none⟩),
        ("lib", ⟨.object [("Resources", .object
          [("far",
            .object [("Extend", .object
              [("module", .string "app"), ("resource", .string "near")])])])],
          none⟩)]
    let passed : List ResourceId := [⟨"app", "near"⟩, ⟨"lib", "far"⟩]
    documents.WellFormed ∧ ofDocuments documents = .error (.cycle passed) ∧
    documents.Circle passed := by
  intro documents passed
  have hdocuments : documents.WellFormed := by decide
  have h : ofDocuments documents = .error (.cycle passed) := by cbv
  obtain ⟨-, start, -, -, -, -, -, -, -, hstart, -, -, -, -, hcircle⟩ :=
    cycle_error_is_circle_iff hdocuments h
  cases hstart
  have hnear : documents.extended? ⟨"app", "near"⟩ = some ⟨"lib", "far"⟩ := by cbv
  have hfar : documents.extended? ⟨"lib", "far"⟩ = some ⟨"app", "near"⟩ := by cbv
  exact ⟨hdocuments, h, hcircle.mpr ⟨1, .link hnear (.link hfar .root)⟩⟩

/-- A resource that extends one that extends itself. Both are reported, though the first is not part
of the cycle. -/
theorem cycle_error_with_tail :
    let documents : Documents :=
      [("app", ⟨.object [("Resources", .object
        [("outside", .object [("Extend", .object [("resource", .string "loop")])]),
          ("loop", .object [("Extend", .object [("resource", .string "loop")])])])], none⟩)]
    let passed : List ResourceId := [⟨"app", "outside"⟩, ⟨"app", "loop"⟩]
    ofDocuments documents = .error (.cycle passed) ∧ documents.Circle [⟨"app", "loop"⟩] ∧
      ¬ documents.Circle passed := by
  intro documents passed
  have hloop : documents.extended? ⟨"app", "loop"⟩ = some ⟨"app", "loop"⟩ := by cbv
  refine ⟨by cbv, ⟨List.cons_ne_nil _ _, List.nodup_singleton _, List.isChain_singleton _,
    hloop⟩, ?_⟩
  intro hcircle
  have hclosed : documents.extended? ⟨"app", "loop"⟩ = some ⟨"app", "outside"⟩ :=
    hcircle.closed
  rw [hloop] at hclosed
  exact absurd hclosed (by decide)

end Families

end ModularTemplates
