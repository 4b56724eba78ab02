import Mathlib.Tactic.Lemma
import ModularTemplates.Proofs.Provenance.MarkedMerge
import ModularTemplates.Proofs.Provenance.Records

/-!
# Provenance tracks authors

A provenance tracks a marked value if it names the author of every place and has no records of
places that do not exist. The second part matters: a record that outlives its place would come back
to life when the place is filled again. Entering the changes of a merge keeps up with the merge into
the marked value.
-/

namespace ModularTemplates

namespace Provenance

/-! ### Tracking -/

/-- The provenance names the author of every place of the marked value, and all its records are
about places of the value. -/
structure Tracks (P : Provenance) (M : Marked) : Prop where
  owner : ∀ p N, M.at? p = some N → (source p P).owner = N.mark.author
  exists_of_record : ∀ p, P.at? p ≠ none → M.at? p ≠ none

namespace Tracks

variable {P : Provenance} {M N : Marked} {seg : Segment}

lemma owner_eq (h : P.Tracks M) : P.owner = M.mark.author :=
  h.owner [] M rfl

lemma child?_eq_none (h : P.Tracks M) (hM : M.child? seg = none) : P.child? seg = none := by
  by_contra hne
  refine h.exists_of_record [seg] ?_ ?_
  · obtain ⟨below, hbelow⟩ := Option.ne_none_iff_exists'.mp hne
    simp [Provenance.at?, hbelow]
  · simp [hM]

lemma of_child (h : P.Tracks M) (hM : M.child? seg = some N) : (P.childD seg).Tracks N := by
  constructor
  · intro p N' hN'
    rw [← owner_source_cons]
    exact h.owner (seg :: p) N' (by rw [Marked.at?_cons, hM, Option.bind_some, hN'])
  · intro p hp
    cases hP : P.child? seg with
    | some below =>
      have hexists := h.exists_of_record (seg :: p)
      rw [Marked.at?_cons, hM, Option.bind_some, Provenance.at?, hP, Option.bind_some] at hexists
      rw [Provenance.childD, hP, Option.getD_some] at hp
      exact hexists hp
    | none =>
      -- nothing is recorded below, so only the place itself is meant
      rw [Provenance.childD, hP, Option.getD_none] at hp
      cases p with
      | nil => simp
      | cons seg p => exact absurd rfl hp

lemma of_children (howner : P.owner = M.mark.author)
    (hsome : ∀ seg N, M.child? seg = some N → (P.childD seg).Tracks N)
    (hnone : ∀ seg, M.child? seg = none → P.child? seg = none) : P.Tracks M := by
  constructor
  · intro p N hN
    cases p with
    | nil =>
      cases hN
      exact howner
    | cons seg p =>
      obtain ⟨M', hM', hN⟩ := Option.bind_eq_some_iff.mp hN
      rw [owner_source_cons]
      exact (hsome seg M' hM').owner p N hN
  · intro p hp
    cases p with
    | nil => simp
    | cons seg p =>
      obtain ⟨below, hbelow⟩ : ∃ below, P.child? seg = some below := by
        rw [← Option.ne_none_iff_exists']
        rintro heq
        simp [Provenance.at?, heq] at hp
      rw [Provenance.at?, hbelow, Option.bind_some] at hp
      cases hM : M.child? seg with
      | none => simp [hnone seg hM] at hbelow
      | some N =>
        rw [Marked.at?_cons, hM, Option.bind_some]
        refine (hsome seg N hM).exists_of_record p ?_
        rwa [Provenance.childD, hbelow, Option.getD_some]

lemma leaf {author : ResourceId} (h : ∀ p N, M.at? p = some N → N.mark.author = author) :
    (leaf author).Tracks M := by
  constructor
  · intro p N hN
    rw [owner_source_leaf, h p N hN]
  · intro p hp
    cases p with
    | nil => simp
    | cons seg p => exact absurd rfl hp

lemma leaf_marked (m : Mark) (v : Json) : (Provenance.leaf m.author).Tracks (v.marked m) := by
  refine leaf fun p N hN => ?_
  rw [Json.at?_marked, Option.map_eq_some_iff] at hN
  obtain ⟨w, -, rfl⟩ := hN
  rw [Json.mark_marked]

lemma leaf_reauthor (author : ResourceId) (M : Marked) :
    (Provenance.leaf author).Tracks (M.reauthor author) := by
  refine leaf fun p N hN => ?_
  rw [Marked.at?_reauthor, Option.map_eq_some_iff] at hN
  obtain ⟨M', -, rfl⟩ := hN
  rw [Marked.mark_reauthor]

/-- A missing part is tracked as the null that stands for it. -/
lemma childD (h : P.Tracks M) (seg : Segment) : (P.childD seg).Tracks (M.childD seg) := by
  cases hM : M.child? seg with
  | some N =>
    rw [Marked.childD, hM, Option.getD_some]
    exact h.of_child hM
  | none =>
    rw [Marked.childD, hM, Option.getD_none, Provenance.childD, h.child?_eq_none hM,
      Option.getD_none, h.owner_eq]
    exact leaf_marked M.mark .null

end Tracks

/-! ### Items that are added -/

section Items

variable {P : Provenance} {M : Marked} {contributor : ResourceId} {xs : List Marked}

lemma tracks_array {m : Mark} {slots : List (Option Provenance)}
    (hsome : ∀ (i : Nat) N, xs[i]? = some N →
      (slots[i]?.join.getD (Provenance.leaf m.author)).Tracks N)
    (hnone : ∀ i : Nat, xs[i]? = none → slots[i]?.join = none) :
    (items m.author slots).Tracks (.array m xs) := by
  refine .of_children rfl (fun seg N hN => ?_) (fun seg hseg => ?_)
  · cases seg with
    | key k => simp [Marked.child?] at hN
    | index i => exact hsome i N hN
  · cases seg with
    | key k => rfl
    | index i => exact hnone i hseg

lemma child?_of_itemsOrNull? (h : M.itemsOrNull? = some xs) (i : Nat) :
    M.child? (.index i) = xs[i]? := by
  cases M with
  | scalar m v =>
    obtain ⟨v, hv⟩ := v
    cases v with
    | null =>
      cases h
      rfl
    | _ => simp [Marked.itemsOrNull?] at h
  | array m xs =>
    cases h
    rfl
  | object m fs => simp [Marked.itemsOrNull?] at h

lemma join_getElem?_appended (count old i : Nat) (slots : List (Option Provenance)) :
    (appended contributor count (old + count) slots)[i]?.join =
      if i < old ∨ old + count ≤ i then slots[i]?.join else some (.leaf contributor) := by
  have hpad : old + count ≤ (pad slots (old + count)).length := by
    rw [length_pad]
    omega
  have htake : ((pad slots (old + count)).take old).length = old := by
    rw [List.length_take]
    omega
  simp only [appended, Nat.add_sub_cancel, Nat.min_eq_left (Nat.le_add_left count old)]
  rcases Nat.lt_or_ge i old with hi | hi
  · rw [if_pos (.inl hi), List.append_assoc, List.getElem?_append_left (by omega),
      List.getElem?_take_of_lt hi, join_getElem?_pad]
  · rw [List.append_assoc, List.getElem?_append_right (by omega), htake]
    rcases Nat.lt_or_ge i (old + count) with hlt | hge
    · rw [if_neg (by omega), List.getElem?_append_left (by rw [List.length_replicate]; omega),
        List.getElem?_replicate, if_pos (by omega)]
      rfl
    · rw [if_pos (.inr hge), List.getElem?_append_right (by rw [List.length_replicate]; omega),
        List.length_replicate, List.getElem?_drop, ← join_getElem?_pad slots (old + count)]
      congr 2
      omega

/-- Items that are added at the end belong to the contributor, and the old ones to whom they did. -/
lemma Tracks.appended (h : P.Tracks M) (hM : M.itemsOrNull? = some xs) (ss : List Json) :
    (items P.owner (appended contributor ss.length (xs.length + ss.length) P.itemsBelow)).Tracks
      (.array M.mark (xs ++ Json.markedItems (.by contributor) ss)) := by
  have hchild := child?_of_itemsOrNull? hM
  rw [h.owner_eq]
  refine tracks_array (fun i N hN => ?_) (fun i hi => ?_)
  · rw [join_getElem?_appended]
    rcases Nat.lt_or_ge i xs.length with hlt | hge
    · rw [if_pos (.inl hlt), ← child?_index, ← h.owner_eq]
      rw [List.getElem?_append_left hlt, ← hchild] at hN
      exact h.of_child hN
    · rw [List.getElem?_append_right hge, Json.markedItems_eq, List.getElem?_map,
        Option.map_eq_some_iff] at hN
      obtain ⟨s, hs, rfl⟩ := hN
      obtain ⟨hlt, -⟩ := List.getElem?_eq_some_iff.mp hs
      rw [if_neg (by omega), Option.getD_some]
      exact .leaf_marked (.by contributor) s
  · rw [List.getElem?_eq_none_iff, List.length_append, Json.markedItems_eq, List.length_map] at hi
    rw [join_getElem?_appended, if_pos (.inr hi), ← child?_index]
    refine h.child?_eq_none ?_
    rw [hchild, List.getElem?_eq_none_iff]
    omega

/-- Items that are added at the front belong to the contributor, and the old ones move behind
them. -/
lemma Tracks.prepended (h : P.Tracks M) (hM : M.itemsOrNull? = some xs) (ss : List Json) :
    (items P.owner (List.replicate ss.length (some (.leaf contributor)) ++ P.itemsBelow)).Tracks
      (.array M.mark (Json.markedItems (.by contributor) ss ++ xs)) := by
  have hchild := child?_of_itemsOrNull? hM
  have hlength : (Json.markedItems (.by contributor) ss).length = ss.length := by
    rw [Json.markedItems_eq, List.length_map]
  rw [h.owner_eq]
  refine tracks_array (fun i N hN => ?_) (fun i hi => ?_)
  · rcases Nat.lt_or_ge i ss.length with hlt | hge
    · rw [List.getElem?_append_left (by omega), Json.markedItems_eq, List.getElem?_map,
        Option.map_eq_some_iff] at hN
      obtain ⟨s, -, rfl⟩ := hN
      rw [List.getElem?_append_left (by rwa [List.length_replicate]), List.getElem?_replicate,
        if_pos hlt]
      exact .leaf_marked (.by contributor) s
    · rw [List.getElem?_append_right (by omega), hlength, ← hchild] at hN
      rw [List.getElem?_append_right (by rwa [List.length_replicate]), List.length_replicate,
        ← child?_index, ← h.owner_eq]
      exact h.of_child hN
  · rw [List.getElem?_eq_none_iff, List.length_append, hlength] at hi
    rw [List.getElem?_append_right (by rw [List.length_replicate]; omega), List.length_replicate,
      ← child?_index]
    refine h.child?_eq_none ?_
    rw [hchild, List.getElem?_eq_none_iff]
    omega

end Items

/-! ### Keeping up with a merge -/

/-- Entered containers are of one kind. -/
lemma alike_of_descend {rules : Rules} {path : Path} {M : Marked} {s : Json}
    (h : rules.descend path M.erase s = true) {seg other : Segment} (hseg : seg ∈ s.segments)
    (hother : other ∈ s.segments ∨ M.child? other ≠ none) : other.Alike seg := by
  obtain ⟨m, ts, ss, rfl, rfl⟩ | ⟨m, ts, ss, rfl, rfl, -⟩ := Marked.containers_of_descend h
  · cases seg <;> cases other <;> simp_all [Json.segments, Marked.child?, Segment.Alike]
  · cases seg <;> cases other <;> simp_all [Json.segments, Marked.child?, Segment.Alike]

/-- Entering the changes of the parts of a container keeps up if it does so for each part. -/
lemma Tracks.enterAll_parts {rules : Rules} {contributor : ResourceId} {path : Path}
    {P : Provenance}
    {M : Marked} {s : Json} {part : Segment → Json} {changes : Segment → List Change}
    (hfind : rules.find? path = none) (hdescend : rules.descend path M.erase s = true)
    (hnodup : s.segments.Nodup) (hP : P.Tracks M)
    (hparts : ∀ seg s', s.child? seg = some s' →
      ((P.childD seg).enterAll (changes seg) contributor (part seg)).Tracks
        ((M.childD seg).mergeAt rules contributor (path ++ [seg]) s')) :
    (P.enterAll (s.segments.flatMap fun seg => (changes seg).map (Change.below [seg])) contributor
      (M.erase.withParts s part)).Tracks (M.mergeAt rules contributor path s) := by
  have hpart : ∀ seg ∈ s.segments, (M.erase.withParts s part).child? seg = some (part seg) := by
    intro seg hseg
    rw [Json.child?_withParts hdescend, if_pos hseg]
  have halike : ∀ seg ∈ s.segments, ∀ other, other ∈ s.segments ∨
    P.child? other ≠ none →
      other.Alike seg := by
    intro seg hseg other hother
    refine alike_of_descend hdescend hseg (hother.imp_right fun hrecord hnone => ?_)
    exact hrecord (hP.child?_eq_none hnone)
  obtain ⟨howner, hseg, hother⟩ := enterAll_flatMap_below contributor hnodup halike hpart rfl
  have hchild := Marked.child?_mergeAt contributor hfind hdescend hnodup
  refine .of_children ?_ (fun seg N hN => ?_) (fun seg hnone => ?_)
  · rw [howner, Marked.mark_mergeAt hfind hdescend, hP.owner_eq]
  · rw [hchild] at hN
    cases hs : s.child? seg with
    | some s' =>
      rw [hs] at hN
      cases hN
      rw [Provenance.childD, hseg seg (Json.mem_segments_iff.mpr ⟨s', hs⟩), howner,
        getD_entered]
      exact hparts seg s' hs
    | none =>
      rw [hs] at hN
      have hmem : seg ∉ s.segments := by simp [Json.mem_segments_iff, hs]
      rw [Provenance.childD, hother seg hmem, howner]
      exact hP.of_child hN
  · rw [hchild] at hnone
    cases hs : s.child? seg with
    | some s' => simp [hs] at hnone
    | none =>
      rw [hs] at hnone
      rw [hother seg (by simp [Json.mem_segments_iff, hs])]
      exact hP.child?_eq_none hnone

/-- Entering the changes of a merge keeps up with the merge into the marked value. -/
theorem Tracks.enterAll {rules : Rules} {contributor : ResourceId} {path : Path} {P : Provenance}
    {M : Marked} {t s v : Json} {changes : List Change} (h : Merges rules path t s v changes)
    (hM : M.erase = t) (hP : P.Tracks M) :
    (P.enterAll changes contributor v).Tracks (M.mergeAt rules contributor path s) := by
  induction h generalizing P M with
  | replaced h =>
    subst hM
    rcases h with h | ⟨hfind, hdescend⟩
    · rw [Marked.mergeAt_of_rule h]
      exact .leaf_marked (.by contributor) _
    · rw [Marked.mergeAt_of_not_descend hfind hdescend]
      exact .leaf_marked (.by contributor) _
  | combined h =>
    rw [Marked.mergeAt_of_rule h]
    exact .leaf_reauthor contributor _
  | @appended path t ts ss h ht =>
    subst hM
    rw [Marked.itemsOrNull?_erase, Option.map_eq_some_iff] at ht
    obtain ⟨xs, hxs, rfl⟩ := ht
    rw [Marked.mergeAt_of_rule h]
    simpa [Marked.applyOperation, Marked.addItems, hxs, Provenance.enterAll, enter, alter,
      Json.asArray?, Marked.eraseItems_eq] using hP.appended hxs ss
  | @prepended path t ts ss h ht =>
    subst hM
    rw [Marked.itemsOrNull?_erase, Option.map_eq_some_iff] at ht
    obtain ⟨xs, hxs, rfl⟩ := ht
    rw [Marked.mergeAt_of_rule h]
    simpa [Marked.applyOperation, Marked.addItems, hxs, Provenance.enterAll, enter, alter]
      using hP.prepended hxs ss
  | entered hfind hdescend hnodup parts ih =>
    subst hM
    exact hP.enterAll_parts hfind hdescend hnodup fun seg s' hs' =>
      ih seg s' hs' (Marked.erase_childD M seg) (hP.childD seg)

end Provenance

end ModularTemplates
