import Mathlib.Tactic.Lemma
import ModularTemplates.Proofs.Family.Partition
import ModularTemplates.Proofs.Function.Injection
import ModularTemplates.Proofs.Provenance.Tracks

/-!
# How exact an owner is known

The answer to the question who supplied the value at a path has a depth. A positive one counts the
segments of the path that nothing is recorded for. Otherwise the whole path is recorded, and the
depth tells how far the records below it go.
-/

namespace ModularTemplates

namespace Provenance

variable {P Q : Provenance} {seg : Segment} {p q : Path} {contributor : ResourceId}

/-! ### Records on the way -/

@[simp] lemma at?_nil (P : Provenance) : at? [] P = some P := rfl

lemma at?_of_child? (h : P.child? seg = some Q) (p : Path) : P.at? (seg :: p) = Q.at? p := by
  rw [at?, h, Option.bind_some]

/-- The record at a longer path is found from the one at a shorter path. -/
lemma at?_append (p q : Path) (P : Provenance) : P.at? (p ++ q) = (P.at? p).bind (at? q) := by
  induction p generalizing P with
  | nil => rfl
  | cons seg p ih =>
    rw [List.cons_append, at?, at?]
    cases P.child? seg with
    | none => rfl
    | some Q => exact ih Q

lemma at?_ne_none_of_prefix (hq : P.at? q ≠ none) (h : p <+: q) : P.at? p ≠ none := by
  obtain ⟨r, rfl⟩ := h
  intro hp
  rw [at?_append, hp] at hq
  exact hq rfl

/-- A path is recorded, or there is a first segment on it for which nothing is recorded. -/
lemma exists_of_at?_eq_none (h : P.at? p = none) :
    ∃ before seg after Q, p = before ++ seg :: after ∧ P.at? before = some Q ∧
      Q.child? seg = none := by
  induction p generalizing P with
  | nil => cases h
  | cons seg p ih =>
    cases hchild : P.child? seg with
    | none => exact ⟨[], seg, p, P, rfl, rfl, hchild⟩
    | some Q =>
      rw [at?_of_child? hchild] at h
      obtain ⟨before, other, after, R, rfl, hR, hnone⟩ := ih h
      exact ⟨seg :: before, other, after, R, rfl, by rw [at?_of_child? hchild, hR], hnone⟩

/-- Up to the first segment for which nothing is recorded all of a path is recorded, and nothing
from there on. -/
lemma at?_ne_none_iff_length_le {before after : Path} (hQ : P.at? before = some Q)
    (hnone : Q.child? seg = none) (hq : q <+: before ++ seg :: after) :
    P.at? q ≠ none ↔ q.length ≤ before.length := by
  constructor
  · intro hrecorded
    by_contra hlength
    have hlonger : before ++ [seg] <+: q := by
      refine List.prefix_of_prefix_length_le ⟨after, by simp⟩ hq ?_
      rw [List.length_append, List.length_singleton]
      omega
    refine at?_ne_none_of_prefix hrecorded hlonger ?_
    rw [at?_append, hQ, Option.bind_some, at?, hnone, Option.bind_none]
  · intro hlength
    have hbefore :=
      List.prefix_of_prefix_length_le hq (List.prefix_append before (seg :: after)) hlength
    exact at?_ne_none_of_prefix (hQ ▸ Option.some_ne_none Q) hbefore

/-! ### Answers on the way -/

lemma source_of_child? (h : P.child? seg = some Q) (p : Path) :
    source (seg :: p) P = source p Q := by
  rw [source, h]

lemma source_of_child?_eq_none (h : P.child? seg = none) (p : Path) :
    source (seg :: p) P = ⟨P.owner, p.length + 1⟩ := by
  rw [source, h]

/-- Where a path is recorded the records from there on give the answer. -/
lemma source_append (h : P.at? p = some Q) (q : Path) : source (p ++ q) P = source q Q := by
  induction p generalizing P with
  | nil =>
    cases h
    rfl
  | cons seg p ih =>
    obtain ⟨R, hR, h⟩ := Option.bind_eq_some_iff.mp h
    rw [List.cons_append, source_of_child? hR, ih h]

lemma source_of_at? (h : P.at? p = some Q) : source p P = ⟨Q.owner, -(Q.height : Int)⟩ := by
  rw [← List.append_nil p, source_append h, source]

/-! ### The height of records -/

lemma height_le_heightFields {fs : Fields Provenance} {k : String} (h : (k, Q) ∈ fs) :
    Q.height + 1 ≤ heightFields fs := by
  induction fs with
  | nil => exact absurd h List.not_mem_nil
  | cons field fs ih =>
    rw [heightFields]
    rcases List.mem_cons.mp h with rfl | h
    · exact Nat.le_max_left _ _
    · exact Nat.le_trans (ih h) (Nat.le_max_right _ _)

lemma height_le_heightItems {slots : List (Option Provenance)} (h : some Q ∈ slots) :
    Q.height + 1 ≤ heightItems slots := by
  induction slots with
  | nil => exact absurd h List.not_mem_nil
  | cons slot slots ih =>
    rcases List.mem_cons.mp h with rfl | hmem
    · rw [heightItems]
      exact Nat.le_max_left _ _
    · cases slot with
      | none => exact ih hmem
      | some R => exact Nat.le_trans (ih hmem) (Nat.le_max_right _ _)

lemma exists_mem_heightFields {fs : Fields Provenance} (h : 0 < heightFields fs) :
    ∃ k Q, (k, Q) ∈ fs ∧ Q.height + 1 = heightFields fs := by
  induction fs with
  | nil => cases h
  | cons field fs ih =>
    obtain ⟨k, Q⟩ := field
    rw [heightFields] at h ⊢
    rcases Nat.le_total (heightFields fs) (Q.height + 1) with hle | hle
    · exact ⟨k, Q, List.mem_cons_self, (Nat.max_eq_left hle).symm⟩
    · obtain ⟨k', R, hR, hheight⟩ := ih (by omega)
      exact ⟨k', R, List.mem_cons_of_mem (k, Q) hR, by rw [hheight, Nat.max_eq_right hle]⟩

lemma exists_mem_heightItems {slots : List (Option Provenance)} (h : 0 < heightItems slots) :
    ∃ Q, some Q ∈ slots ∧ Q.height + 1 = heightItems slots := by
  induction slots with
  | nil => cases h
  | cons slot slots ih =>
    cases slot with
    | none =>
      obtain ⟨Q, hQ, hheight⟩ := ih h
      exact ⟨Q, List.mem_cons_of_mem none hQ, hheight⟩
    | some Q =>
      rw [heightItems] at h ⊢
      rcases Nat.le_total (heightItems slots) (Q.height + 1) with hle | hle
      · exact ⟨Q, List.mem_cons_self, (Nat.max_eq_left hle).symm⟩
      · obtain ⟨R, hR, hheight⟩ := ih (by omega)
        exact ⟨R, List.mem_cons_of_mem (some Q) hR, by rw [hheight, Nat.max_eq_right hle]⟩

lemma height_lt_of_child? (h : P.child? seg = some Q) : Q.height < P.height := by
  cases P with
  | leaf owner => cases seg <;> cases h
  | fields owner fs =>
    cases seg with
    | index i => cases h
    | key k => exact height_le_heightFields (Fields.mem_of_get? h)
  | items owner slots =>
    cases seg with
    | key k => cases h
    | index i =>
      rw [child?, Option.join_eq_some_iff] at h
      exact height_le_heightItems (List.mem_of_getElem? h)

/-- No record is further below than the height. -/
lemma length_le_height (h : P.at? p ≠ none) : p.length ≤ P.height := by
  induction p generalizing P with
  | nil => exact Nat.zero_le _
  | cons seg p ih =>
    obtain ⟨R, hR⟩ := Option.ne_none_iff_exists'.mp h
    obtain ⟨Q, hQ, hR⟩ := Option.bind_eq_some_iff.mp hR
    have hrest : p.length ≤ Q.height := ih (by simp [hR])
    have hlt := height_lt_of_child? hQ
    rw [List.length_cons]
    omega

/-! ### Well-formed records -/

/-- No record has two records under one key. -/
def WellFormed (P : Provenance) : Prop :=
  ∀ p Q, P.at? p = some Q → Fields.Distinct Q.fieldsBelow

lemma wellFormed_iff :
    P.WellFormed ↔ Fields.Distinct P.fieldsBelow ∧ ∀ seg Q, P.child? seg = some Q →
      Q.WellFormed := by
  constructor
  · intro h
    refine ⟨h [] P rfl, fun seg Q hQ p R hR => h (seg :: p) R ?_⟩
    rw [at?_of_child? hQ, hR]
  · rintro ⟨hdistinct, hchildren⟩ p Q hQ
    cases p with
    | nil =>
      cases hQ
      exact hdistinct
    | cons seg p =>
      obtain ⟨R, hR, hQ⟩ := Option.bind_eq_some_iff.mp hQ
      exact hchildren seg R hR p Q hQ

lemma WellFormed.child? (h : P.WellFormed) (hQ : P.child? seg = some Q) : Q.WellFormed :=
  (wellFormed_iff.mp h).2 seg Q hQ

lemma WellFormed.at? (h : P.WellFormed) (hQ : P.at? p = some Q) : Q.WellFormed := by
  intro q R hR
  refine h (p ++ q) R ?_
  rw [at?_append, hQ, Option.bind_some, hR]

lemma WellFormed.exists_child? (h : P.WellFormed) (hheight : 0 < P.height) :
    ∃ seg Q, P.child? seg = some Q ∧ Q.height + 1 = P.height := by
  cases P with
  | leaf owner => cases hheight
  | fields owner fs =>
    obtain ⟨k, Q, hQ, heq⟩ := exists_mem_heightFields hheight
    have hdistinct : Fields.Distinct fs := (wellFormed_iff.mp h).1
    exact ⟨.key k, Q, hdistinct.get?_of_mem hQ, heq⟩
  | items owner slots =>
    obtain ⟨Q, hQ, heq⟩ := exists_mem_heightItems hheight
    obtain ⟨i, hi⟩ := List.mem_iff_getElem?.mp hQ
    exact ⟨.index i, Q, by rw [Provenance.child?, hi, Option.join_some], heq⟩

/-- Some record is as far below as the height. -/
lemma WellFormed.exists_length_eq_height (h : P.WellFormed) :
    ∃ p, p.length = P.height ∧ P.at? p ≠ none := by
  induction hheight : P.height generalizing P with
  | zero => exact ⟨[], rfl, Option.some_ne_none P⟩
  | succ n ih =>
    obtain ⟨seg, Q, hQ, heq⟩ := h.exists_child? (by omega)
    obtain ⟨p, hlength, hp⟩ := ih (h.child? hQ) (by omega)
    exact ⟨seg :: p, by rw [List.length_cons, hlength], by rwa [at?_of_child? hQ]⟩

/-! ### Entered changes keep records well-formed -/

lemma WellFormed.leaf (owner : ResourceId) : (leaf owner).WellFormed :=
  wellFormed_iff.mpr ⟨Fields.distinct_nil, fun seg Q hQ => by cases seg <;> cases hQ⟩

lemma WellFormed.fields {owner : ResourceId} {fs : Fields Provenance} (hdistinct : fs.Distinct)
    (h : ∀ k Q, fs.get? k = some Q → Q.WellFormed) : (fields owner fs).WellFormed := by
  refine wellFormed_iff.mpr ⟨hdistinct, fun seg Q hQ => ?_⟩
  cases seg with
  | key k => exact h k Q hQ
  | index i => cases hQ

lemma WellFormed.items {owner : ResourceId} {slots : List (Option Provenance)}
    (h : ∀ Q, some Q ∈ slots → Q.WellFormed) : (items owner slots).WellFormed := by
  refine wellFormed_iff.mpr ⟨Fields.distinct_nil, fun seg Q hQ => ?_⟩
  cases seg with
  | key k => cases hQ
  | index i =>
    rw [Provenance.child?, Option.join_eq_some_iff] at hQ
    exact h Q (List.mem_of_getElem? hQ)

lemma WellFormed.of_mem_itemsBelow (h : P.WellFormed) (hQ : some Q ∈ P.itemsBelow) :
    Q.WellFormed := by
  obtain ⟨i, hi⟩ := List.mem_iff_getElem?.mp hQ
  have hchild : P.child? (.index i) = some Q := by rw [child?_index, hi, Option.join_some]
  exact h.child? hchild

lemma WellFormed.childD (h : P.WellFormed) (seg : Segment) : (P.childD seg).WellFormed := by
  rw [Provenance.childD]
  cases hQ : P.child? seg with
  | none => exact .leaf P.owner
  | some Q => exact h.child? hQ

lemma mem_of_mem_pad {slots : List (Option Provenance)} {length : Nat}
    (h : some Q ∈ pad slots length) :
    some Q ∈ slots := by
  rcases List.mem_append.mp h with h | h
  · exact h
  · cases List.eq_of_mem_replicate h

/-- All that is recorded of the items after some were added was recorded before, or is about
the added ones. -/
lemma mem_of_mem_appended {count length : Nat} {slots : List (Option Provenance)}
    (h : some Q ∈ appended contributor count length slots) :
    some Q ∈ slots ∨ Q = .leaf contributor := by
  simp only [appended, List.mem_append] at h
  rcases h with (h | h) | h
  · exact .inl (mem_of_mem_pad (List.mem_of_mem_take h))
  · exact .inr (Option.some.inj (List.eq_of_mem_replicate h))
  · exact .inl (mem_of_mem_pad (List.mem_of_mem_drop h))

lemma WellFormed.alter {f : Provenance → Provenance}
    (hf : ∀ Q : Provenance, Q.WellFormed → (f Q).WellFormed) (h : P.WellFormed) (p : Path) :
    (alter f p P).WellFormed := by
  induction p generalizing P with
  | nil => exact hf P h
  | cons seg p ih =>
    have hbelow := ih (h.childD seg)
    cases seg with
    | key k =>
      rw [Provenance.childD, child?_key] at hbelow
      refine .fields ((wellFormed_iff.mp h).1.set k _) fun k' Q hQ => ?_
      rw [Fields.get?_set] at hQ
      split_ifs at hQ with hk
      · cases hQ
        exact hbelow
      · rw [← child?_key] at hQ
        exact h.child? hQ
    | index i =>
      rw [Provenance.childD, child?_index] at hbelow
      refine .items fun Q hQ => ?_
      rcases List.mem_or_eq_of_mem_set hQ with hQ | hQ
      · exact h.of_mem_itemsBelow (mem_of_mem_pad hQ)
      · cases hQ
        rwa [join_getElem?_pad]

lemma WellFormed.enter (h : P.WellFormed) (change : Change) (contributor : ResourceId)
    (merged : Json) :
    (P.enter change contributor merged).WellFormed := by
  refine h.alter (fun Q hQ => ?_) change.path
  cases change.kind with
  | replace | combine => exact .leaf contributor
  | append count =>
    refine .items fun R hR => ?_
    rcases mem_of_mem_appended hR with hR | rfl
    · exact hQ.of_mem_itemsBelow hR
    · exact .leaf contributor
  | prepend count =>
    refine .items fun R hR => ?_
    rcases List.mem_append.mp hR with hR | hR
    · cases List.eq_of_mem_replicate hR
      exact .leaf contributor
    · exact hQ.of_mem_itemsBelow hR

/-- Records to which the changes of a merge are entered stay well-formed. -/
theorem WellFormed.enterAll (h : P.WellFormed) (changes : List Change) (contributor : ResourceId)
    (merged : Json) :
    (P.enterAll changes contributor merged).WellFormed := by
  induction changes generalizing P with
  | nil => exact h
  | cons change changes ih => exact ih (h.enter change contributor merged)

/-! ### The depth of an answer -/

/-- What the answer for a path that is not recorded says: how much of the path is recorded, and who
answers for every longer path. -/
lemma source_of_at?_eq_none (h : P.at? p = none) : 0 < (source p P).depth ∧
    (∀ q, q <+: p → (P.at? q ≠ none ↔
      (q.length : Int) + (source p P).depth ≤ p.length)) ∧
    (∃ q Q, q <+: p ∧ P.at? q = some Q ∧ Q.owner = (source p P).owner) ∧
    ∀ r, source (p ++ r) P = ⟨(source p P).owner, (source p P).depth + r.length⟩ := by
  obtain ⟨before, seg, after, Q, rfl, hQ, hnone⟩ := exists_of_at?_eq_none h
  have hsource : ∀ r, source (before ++ seg :: (after ++ r)) P =
      ⟨Q.owner, (after ++ r).length + 1⟩ := by
    intro r
    rw [source_append hQ, source_of_child?_eq_none hnone]
  have hhere := hsource []
  rw [List.append_nil] at hhere
  rw [hhere]
  refine ⟨by simp only; omega, fun q hq => ?_, ⟨before, Q, List.prefix_append _ _, hQ, rfl⟩,
    fun r => ?_⟩
  · rw [at?_ne_none_iff_length_le hQ hnone hq, List.length_append, List.length_cons]
    push_cast
    omega
  · rw [List.append_assoc, List.cons_append, hsource, List.length_append]
    push_cast
    rw [Source.mk.injEq]
    exact ⟨rfl, by omega⟩

/-- A path that is longer than the height has an owner who is recorded on the way. -/
lemma exists_owner_of_height_lt (h : P.height < p.length) : 0 < (source p P).depth ∧
    ∃ q Q, q <+: p ∧ q.length ≤ P.height ∧ P.at? q = some Q ∧
      Q.owner = (source p P).owner := by
  have hnone : P.at? p = none := by
    by_contra hrecorded
    exact Nat.not_lt.mpr (length_le_height hrecorded) h
  obtain ⟨hpos, -, ⟨q, Q, hbefore, hQ, howner⟩, -⟩ := source_of_at?_eq_none hnone
  have hle : q.length ≤ P.height := length_le_height (hQ ▸ Option.some_ne_none Q)
  exact ⟨hpos, q, Q, hbefore, hle, hQ, howner⟩

/-- The depth of an answer is exact. A positive depth is the number of segments at the end of the
path for which nothing is recorded, and it grows with the path while the owner stays the same.
Otherwise the path is recorded, the records below it go down as far as the depth says and no
further, and a path that is longer by more has an owner who is recorded on the way. -/
theorem source_depth_exact (hP : P.WellFormed) (p : Path) :
    let answer := source p P
    (0 < answer.depth →
      (∀ q, q <+: p → (P.at? q ≠ none ↔ (q.length : Int) + answer.depth ≤ p.length)) ∧
      ∀ r, source (p ++ r) P = ⟨answer.owner, answer.depth + r.length⟩) ∧
    (answer.depth ≤ 0 →
      P.at? p ≠ none ∧
      (∃ r, (r.length : Int) = -answer.depth ∧ P.at? (p ++ r) ≠ none) ∧
      (∀ r, P.at? (p ++ r) ≠ none → (r.length : Int) ≤ -answer.depth) ∧
      ∀ r, -answer.depth < r.length →
        0 < (source (p ++ r) P).depth ∧
        ∃ q Q, q <+: r ∧ (q.length : Int) ≤ -answer.depth ∧ P.at? (p ++ q) = some Q ∧
          Q.owner = (source (p ++ r) P).owner) := by
  intro answer
  cases hp : P.at? p with
  | none =>
    obtain ⟨hpos, hbefore, -, hlonger⟩ := source_of_at?_eq_none hp
    exact ⟨fun _ => ⟨hbefore, hlonger⟩, fun hle => absurd hpos (Int.not_lt.mpr hle)⟩
  | some Q =>
    have hanswer : answer = ⟨Q.owner, -(Q.height : Int)⟩ := source_of_at? hp
    have hbelow : ∀ r, P.at? (p ++ r) = Q.at? r :=
      fun r => by rw [at?_append, hp, Option.bind_some]
    simp only [hanswer, hbelow, source_append hp, Int.neg_neg, Int.ofNat_le, Int.ofNat_inj,
      Int.ofNat_lt]
    refine ⟨fun hpos => by omega, fun _ => ⟨Option.some_ne_none Q, ?_, ?_, ?_⟩⟩
    · exact (hP.at? hp).exists_length_eq_height
    · exact fun r hr => length_le_height hr
    · exact fun r hr => exists_owner_of_height_lt hr

/-- A property of a property of a property is replaced in a merge. -/
theorem source_depth_exact_replaced :
    let base : ResourceId := ⟨"m1", "r1"⟩
    let contributor : ResourceId := ⟨"m2", "r2"⟩
    let whole : Path := [.key "a"]
    let place : Path := [.key "a", .key "b", .key "c"]
    let below : Path := [.key "a", .key "b", .key "c", .key "d", .key "e"]
    let P := (leaf base).enterAll [⟨place, .replace⟩] contributor
      (.single "a" (.single "b" (.single "c" (.number (.int 2)))))
    P.WellFormed ∧
    source whole P = ⟨base, -2⟩ ∧
    (∃ r, (r.length : Int) = 2 ∧ P.at? (whole ++ r) ≠ none) ∧
    source place P = ⟨contributor, 0⟩ ∧
    source below P = ⟨contributor, 2⟩ ∧
    ∀ r, source (below ++ r) P = ⟨contributor, 2 + r.length⟩ := by
  intro base contributor whole place below P
  have hP : P.WellFormed := (WellFormed.leaf base).enterAll _ _ _
  have hwhole : source whole P = ⟨base, -2⟩ := by decide
  have hbelow : source below P = ⟨contributor, 2⟩ := by decide
  obtain ⟨-, hle⟩ := source_depth_exact hP whole
  obtain ⟨hpos, -⟩ := source_depth_exact hP below
  obtain ⟨-, hlongest, -⟩ := hle (by rw [hwhole]; decide)
  obtain ⟨-, hlonger⟩ := hpos (by rw [hbelow]; decide)
  rw [hwhole] at hlongest
  rw [hbelow] at hlonger
  exact ⟨hP, hwhole, hlongest, by decide, hbelow, hlonger⟩

end Provenance

/-! ### Records of families and functions -/

namespace Families

/-- Who supplied the properties of a family is recorded in a well-formed way, and the contributions
of extensions to a function of the family keep it so. -/
theorem wellFormed_provenance {documents : Documents} {families : Families} {family : Family}
    (hdocuments : documents.WellFormed) (h : ofDocuments documents = .ok families)
    (hfamily : family ∈ families.families) :
    family.provenance.WellFormed ∧
    ∀ (schema : Schema) (function : ResourceId) (injections : List Injection) (next : Properties),
      injections.foldlM (Properties.inject schema function)
        ⟨family.properties, family.provenance⟩ = .ok next →
        next.provenance.WellFormed := by
  have hprovenance : family.provenance.WellFormed := by
    refine foldlM_invariant (fun sofar => sofar.2.WellFormed) (.leaf family.root)
      (fun sofar id next _ hsofar hnext => ?_) (resolves hdocuments h hfamily).merged
    obtain ⟨⟨properties, changes⟩, -, hnext⟩ := bind_eq_ok_iff.mp hnext
    cases hnext
    exact hsofar.enterAll changes id properties
  refine ⟨hprovenance, fun schema function injections next hnext => ?_⟩
  refine foldlM_invariant (fun p => p.provenance.WellFormed) hprovenance
    (fun p injection next _ hp hnext => ?_) hnext
  obtain ⟨changes, -, hentered⟩ := Properties.inject_eq_ok hnext
  exact hentered ▸ hp.enterAll changes injection.1 next.value

end Families

end ModularTemplates
