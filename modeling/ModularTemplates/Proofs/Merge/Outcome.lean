import Mathlib.Data.List.Nodup
import Mathlib.Tactic.Choose
import Mathlib.Tactic.Lemma
import ModularTemplates.Merge.Basic
import ModularTemplates.Proofs.Json

/-!
# What a merge does

A merge walks through the source and changes the target step by step. `Merges` says in one piece
what has become of the target when the walk succeeds: every part of a container that is entered is
merged on its own, and the changes are listed one part after the other. The changes are seen from
the place of the merge, so that those of a part are the same wherever the part stands.

`Merges.of_mergeAt` leads from the walk to the relation. Everything else about merges is proved
from the relation.
-/

namespace ModularTemplates

/-! ### Parts of containers -/

namespace Json

/-- The segments that lead from a value to its parts, in order. -/
def segments : Json → List Segment
  | .object fs => (Fields.keys fs).map .key
  | .array xs => (List.range xs.length).map .index
  | _ => []

lemma mem_segments_iff {v : Json} {seg : Segment} :
    seg ∈ v.segments ↔ ∃ w, v.child? seg = some w := by
  cases v with
  | object fs => cases seg <;> simp [segments, child?, Fields.mem_keys_iff]
  | array xs => cases seg <;> simp [segments, child?, List.getElem?_eq_some_iff]
  | _ => simp [segments, child?]

lemma nodup_segments {v : Json} (h : v.WellFormed) : v.segments.Nodup := by
  cases v with
  | object fs =>
    rw [WellFormed] at h
    exact List.Nodup.map (fun _ _ => Segment.key.inj) h.1
  | array xs => exact List.Nodup.map (fun _ _ => Segment.index.inj) List.nodup_range
  | _ => exact List.nodup_nil

lemma sizeOf_lt_of_child? {v w : Json} {seg : Segment} (h : v.child? seg = some w) :
    sizeOf w < sizeOf v := by
  rcases exists_of_child? h with ⟨fs, k, rfl, -, hk⟩ | ⟨xs, i, rfl, -, hi⟩
  · have hlt := List.sizeOf_lt_of_mem (Fields.mem_of_get? hk)
    simp only [Prod.mk.sizeOf_spec] at hlt
    simp only [object.sizeOf_spec]
    omega
  · have hlt := List.sizeOf_lt_of_mem (List.mem_of_getElem? hi)
    simp only [array.sizeOf_spec]
    omega

/-- A target with the parts of a source put in; a part of the target that the source
lacks is kept. -/
def withParts (target source : Json) (part : Segment → Json) : Json :=
  match target, source with
  | .object ts, .object ss =>
    .object (Fields.update ts ((Fields.keys ss).map fun k => (k, part (.key k))))
  | .array ts, .array ss =>
    .array ((List.range ss.length).map (fun i => part (.index i)) ++ ts.drop ss.length)
  | t, _ => t

end Json

/-- Whether a merge without a rule at its place goes on to the parts of the values. -/
def Rules.descend (rules : Rules) (path : Path) (target source : Json) : Bool :=
  match target, source with
  | .object _, .object _ => true
  | .array _, .array _ => rules.reachBelow path
  | _, _ => false

/-- Entered containers are two objects or two arrays. -/
lemma Rules.containers_of_descend {rules : Rules} {path : Path} {t s : Json}
    (h : rules.descend path t s = true) :
    (∃ ts ss, t = .object ts ∧ s = .object ss) ∨
      ∃ ts ss, t = .array ts ∧ s = .array ss := by
  cases t <;> cases s <;> simp_all [Rules.descend]

lemma Json.child?_withParts {rules : Rules} {path : Path} {t s : Json}
    (h : rules.descend path t s = true) (part : Segment → Json) (seg : Segment) :
    (t.withParts s part).child? seg =
      if seg ∈ s.segments then some (part seg) else t.child? seg := by
  obtain ⟨ts, ss, rfl, rfl⟩ | ⟨ts, ss, rfl, rfl⟩ := Rules.containers_of_descend h
  · cases seg with
    | key k => simp [withParts, child?, segments, Fields.get?_update_map]
    | index i => simp [withParts, child?, segments]
  · cases seg with
    | key k => simp [withParts, child?, segments]
    | index i =>
      by_cases hi : i < ss.length
      · simp [withParts, child?, segments, hi, List.getElem?_append_left]
      · have hle := Nat.le_of_not_lt hi
        simp [withParts, child?, segments, hi, List.getElem?_append_right, hle]

/-! ### Changes seen from further up -/

/-- The same change as seen from further up. -/
def Change.below (path : Path) (c : Change) : Change :=
  ⟨path ++ c.path, c.kind⟩

@[simp] lemma Change.path_below (path : Path) (c : Change) :
    (c.below path).path = path ++ c.path := rfl

@[simp] lemma Change.kind_below (path : Path) (c : Change) : (c.below path).kind = c.kind := rfl

@[simp] lemma Change.below_nil (c : Change) : c.below [] = c := rfl

lemma Change.below_below (p q : Path) (c : Change) : (c.below q).below p = c.below (p ++ q) := by
  simp [Change.below]

/-- `Merges rules path t s v changes`: the source `s` merged into the target `t` at a path gives
`v`, by changes that are seen from there. -/
inductive Merges (rules : Rules) : Path → Json → Json → Json → List Change → Prop where
  | replaced {path : Path} {t s : Json}
      (h : rules.find? path = some .replace ∨
        rules.find? path = none ∧ rules.descend path t s = false) :
      Merges rules path t s s [⟨[], .replace⟩]
  | combined {path : Path} {t s : Json} (h : rules.find? path = some .combine) :
      Merges rules path t s (combine t s) [⟨[], .combine⟩]
  | appended {path : Path} {t : Json} {ts ss : List Json} (h : rules.find? path = some .append)
      (ht : t.itemsOrNull? = some ts) :
      Merges rules path t (.array ss) (.array (ts ++ ss)) [⟨[], .append ss.length⟩]
  | prepended {path : Path} {t : Json} {ts ss : List Json} (h : rules.find? path = some .prepend)
      (ht : t.itemsOrNull? = some ts) :
      Merges rules path t (.array ss) (.array (ss ++ ts)) [⟨[], .prepend ss.length⟩]
  | entered {path : Path} {t s : Json} {part : Segment → Json} {changes : Segment → List Change}
      (h : rules.find? path = none) (hdescend : rules.descend path t s = true)
      (hnodup : s.segments.Nodup)
      (parts : ∀ seg s', s.child? seg = some s' →
        Merges rules (path ++ [seg]) ((t.child? seg).getD .null) s' (part seg) (changes seg)) :
      Merges rules path t s (t.withParts s part)
        (s.segments.flatMap fun seg => (changes seg).map (Change.below [seg]))

/-! ### Rules at the place of the merge -/

lemma Merged.error_next {α β : Type} (m : Merged α) (target : β) (rest : Merged β) :
    (m.next target rest).error = none ↔ m.error = none ∧ rest.error = none := by
  unfold Merged.next
  cases m.error <;> simp

lemma Merged.next_of_error {α β : Type} {m : Merged α} (h : m.error = none) (target : β)
    (rest : Merged β) :
    m.next target rest = ⟨rest.target, m.changes ++ rest.changes, rest.error⟩ := by
  simp [Merged.next, h]

lemma addItems_error {operation : Operation} {path : Path} {target source : Json}
    (h : (addItems operation path target source).error = none) :
    ∃ ts ss, target.itemsOrNull? = some ts ∧ source = .array ss := by
  unfold addItems at h
  split at h
  · exact ⟨_, _, ‹_›, rfl⟩
  · simp at h

/-- A rule for the place of the merge decides about the value as a whole. -/
lemma Merges.of_applyOperation {rules : Rules} {path : Path} {operation : Operation} {t s : Json}
    (h : rules.find? path = some operation)
    (herror : (applyOperation operation path t s).error = none) :
    ∃ changes, (applyOperation operation path t s).changes = changes.map (Change.below path) ∧
      Merges rules path t s (applyOperation operation path t s).target changes := by
  cases operation with
  | replace =>
    exact ⟨[⟨[], .replace⟩], by simp [applyOperation, Merged.changed, Change.below],
      .replaced (.inl h)⟩
  | combine =>
    exact ⟨[⟨[], .combine⟩], by simp [applyOperation, Merged.changed, Change.below],
      .combined h⟩
  | append =>
    obtain ⟨ts, ss, ht, rfl⟩ := addItems_error herror
    refine ⟨[⟨[], .append ss.length⟩], ?_, ?_⟩
    · simp [applyOperation, addItems, ht, Merged.changed, Change.below]
    · simpa [applyOperation, addItems, ht, Merged.changed] using Merges.appended h ht
  | prepend =>
    obtain ⟨ts, ss, ht, rfl⟩ := addItems_error herror
    refine ⟨[⟨[], .prepend ss.length⟩], ?_, ?_⟩
    · simp [applyOperation, addItems, ht, Merged.changed, Change.below]
    · simpa [applyOperation, addItems, ht, Merged.changed] using Merges.prepended h ht

/-! ### A walk that stops at its place -/

lemma mergeAt_of_rule {rules : Rules} {path : Path} {operation : Operation}
    (h : rules.find? path = some operation) (t s : Json) :
    mergeAt rules path t s = applyOperation operation path t s := by
  unfold mergeAt
  rw [h]

lemma mergeAt_of_not_descend {rules : Rules} {path : Path} {t s : Json}
    (hfind : rules.find? path = none) (h : rules.descend path t s = false) :
    mergeAt rules path t s = .changed s path .replace := by
  unfold mergeAt
  rw [hfind]
  cases t <;> cases s <;> simp_all [Rules.descend]

lemma Merges.of_not_descend {rules : Rules} {path : Path} {t s : Json}
    (hfind : rules.find? path = none) (h : rules.descend path t s = false) :
    ∃ changes, (mergeAt rules path t s).changes = changes.map (Change.below path) ∧
      Merges rules path t s (mergeAt rules path t s).target changes := by
  rw [mergeAt_of_not_descend hfind h]
  exact ⟨[⟨[], .replace⟩], by simp [Merged.changed, Change.below],
    .replaced (.inr ⟨hfind, h⟩)⟩

/-! ### From the parts to the relation -/

/-- The merge of the part of a source into the part of a target. -/
def mergePart (rules : Rules) (path : Path) (t s : Json) (seg : Segment) : Merged Json :=
  mergeAt rules (path ++ [seg]) ((t.child? seg).getD .null) ((s.child? seg).getD .null)

/-- Fields with distinct keys are merged one beside the other. -/
lemma mergeFields_eq {rules : Rules} {path : Path} {ts : Fields Json} {ss : List (String × Json)}
    (hdistinct : Fields.Distinct ss) (herror : (mergeFields rules path ts ss).error = none)
    {part : String → Merged Json} (hpart : ∀ k s, (k, s) ∈ ss →
      mergeAt rules (path ++ [.key k]) ((ts.get? k).getD .null) s = part k) :
    (∀ k ∈ Fields.keys ss, (part k).error = none) ∧
    (mergeFields rules path ts ss).target =
      ts.update ((Fields.keys ss).map fun k => (k, (part k).target)) ∧
    (mergeFields rules path ts ss).changes =
      (Fields.keys ss).flatMap fun k => (part k).changes := by
  induction ss generalizing ts with
  | nil => exact ⟨by simp, rfl, rfl⟩
  | cons field ss ih =>
    obtain ⟨k, s⟩ := field
    rw [Fields.Distinct, Fields.keys_cons, List.nodup_cons] at hdistinct
    simp only [mergeFields, hpart k s List.mem_cons_self, Merged.error_next] at herror ⊢
    obtain ⟨herrors, htarget, hchanges⟩ := ih hdistinct.2 herror.2 fun other s' hmem => by
      have hne : other ≠ k := by
        rintro rfl
        exact hdistinct.1 (List.mem_map.mpr ⟨_, hmem, rfl⟩)
      rw [Fields.get?_set_of_ne hne]
      exact hpart other s' (List.mem_cons_of_mem (k, s) hmem)
    rw [Merged.next_of_error herror.1, Fields.keys_cons]
    refine ⟨?_, htarget, congrArg _ hchanges⟩
    intro other hother
    rcases List.mem_cons.mp hother with rfl | hother
    · exact herror.1
    · exact herrors other hother

/-- Items are merged one beside the other. -/
lemma mergeItems_eq {rules : Rules} {path : Path} {i : Nat} {ts ss : List Json}
    (herror : (mergeItems rules path i ts ss).error = none)
    {part : Nat → Merged Json} (hpart : ∀ j s, ss[j]? = some s →
      mergeAt rules (path ++ [.index (i + j)]) (ts[j]?.getD .null) s = part j) :
    (∀ j < ss.length, (part j).error = none) ∧
    (mergeItems rules path i ts ss).target =
      (List.range ss.length).map (fun j => (part j).target) ++ ts.drop ss.length ∧
    (mergeItems rules path i ts ss).changes =
      (List.range ss.length).flatMap fun j => (part j).changes := by
  induction ss generalizing i ts part with
  | nil => exact ⟨by simp, by simp [mergeItems], rfl⟩
  | cons s ss ih =>
    have hhead : mergeAt rules (path ++ [.index i]) (ts.headD .null) s = part 0 := by
      rw [← hpart 0 s rfl, List.headD_eq_head?_getD, List.head?_eq_getElem?]
      rfl
    simp only [mergeItems, hhead, Merged.error_next, Merged.map] at herror ⊢
    obtain ⟨herrors, htarget, hchanges⟩ := @ih (i + 1) ts.tail herror.2
      (fun j => part (j + 1)) fun j s' hs' => by
        rw [List.getElem?_tail, Nat.add_assoc, Nat.add_comm 1 j]
        exact hpart (j + 1) s' hs'
    rw [Merged.next_of_error herror.1, htarget, hchanges, List.length_cons, List.range_succ_eq_map]
    refine ⟨?_, ?_, ?_⟩
    · intro j hj
      cases j with
      | zero => exact herror.1
      | succ j => exact herrors j (Nat.lt_of_succ_lt_succ hj)
    · simp [Function.comp_def]
    · simp [List.flatMap_map]

/-- The parts of an entered target are merged one beside the other. -/
theorem mergeAt_of_descend {rules : Rules} {path : Path} {t s : Json}
    (hfind : rules.find? path = none) (hdescend : rules.descend path t s = true)
    (hnodup : s.segments.Nodup) (herror : (mergeAt rules path t s).error = none) :
    (∀ seg ∈ s.segments, (mergePart rules path t s seg).error = none) ∧
    (mergeAt rules path t s).target =
      t.withParts s (fun seg => (mergePart rules path t s seg).target) ∧
    (mergeAt rules path t s).changes =
      s.segments.flatMap fun seg => (mergePart rules path t s seg).changes := by
  obtain ⟨ts, ss, rfl, rfl⟩ | ⟨ts, ss, rfl, rfl⟩ := Rules.containers_of_descend hdescend
  · have hdistinct : Fields.Distinct ss := List.Nodup.of_map _ hnodup
    simp only [mergeAt, hfind, Merged.map] at herror ⊢
    obtain ⟨herrors, htarget, hchanges⟩ := @mergeFields_eq rules path ts ss hdistinct herror
      (fun k => mergePart rules path (.object ts) (.object ss) (.key k)) fun k s hs => by
        rw [mergePart, Json.child?, Json.child?, hdistinct.get?_of_mem hs, Option.getD_some]
    refine ⟨?_, congrArg _ htarget, ?_⟩
    · intro seg hseg
      obtain ⟨k, hk, rfl⟩ := List.mem_map.mp hseg
      exact herrors k hk
    · rw [hchanges, Json.segments, List.flatMap_map]
  · have hbelow : rules.reachBelow path = true := hdescend
    simp only [mergeAt, hfind, hbelow, if_true, Merged.map] at herror ⊢
    obtain ⟨herrors, htarget, hchanges⟩ := @mergeItems_eq rules path 0 ts ss herror
      (fun i => mergePart rules path (.array ts) (.array ss) (.index i)) fun i s hs => by
        rw [mergePart, Json.child?, Json.child?, hs, Option.getD_some, Nat.zero_add]
    refine ⟨?_, congrArg _ htarget, ?_⟩
    · intro seg hseg
      obtain ⟨i, hi, rfl⟩ := List.mem_map.mp hseg
      exact herrors i (List.mem_range.mp hi)
    · rw [hchanges, Json.segments, List.flatMap_map]

lemma Merges.of_parts {rules : Rules} {path : Path} {t s : Json} (hfind : rules.find? path = none)
    (hdescend : rules.descend path t s = true) (hnodup : s.segments.Nodup)
    (herror : (mergeAt rules path t s).error = none)
    (hparts : ∀ seg s', s.child? seg = some s' → (mergePart rules path t s seg).error = none →
      ∃ changes,
        (mergePart rules path t s seg).changes = changes.map (Change.below (path ++ [seg])) ∧
        Merges rules (path ++ [seg]) ((t.child? seg).getD .null) s'
          (mergePart rules path t s seg).target changes) :
    ∃ changes, (mergeAt rules path t s).changes = changes.map (Change.below path) ∧
      Merges rules path t s (mergeAt rules path t s).target changes := by
  obtain ⟨herrors, htarget, hchanges⟩ := mergeAt_of_descend hfind hdescend hnodup herror
  have hall : ∀ seg, ∃ changes, ∀ s', s.child? seg = some s' →
      (mergePart rules path t s seg).changes = changes.map (Change.below (path ++ [seg])) ∧
      Merges rules (path ++ [seg]) ((t.child? seg).getD .null) s'
        (mergePart rules path t s seg).target changes := by
    intro seg
    cases hs' : s.child? seg with
    | none => exact ⟨[], by simp⟩
    | some s' =>
      obtain ⟨changes, hpart⟩ :=
        hparts seg s' hs' (herrors seg (Json.mem_segments_iff.mpr ⟨s', hs'⟩))
      refine ⟨changes, ?_⟩
      rintro _ ⟨⟩
      exact hpart
  choose changes hall using hall
  refine ⟨s.segments.flatMap fun seg => (changes seg).map (Change.below [seg]), ?_, ?_⟩
  · rw [hchanges, List.map_flatMap]
    refine List.flatMap_congr fun seg hseg => ?_
    obtain ⟨s', hs'⟩ := Json.mem_segments_iff.mp hseg
    rw [(hall seg s' hs').1, List.map_map]
    exact List.map_congr_left fun c _ => (Change.below_below path [seg] c).symm
  · rw [htarget]
    exact .entered hfind hdescend hnodup fun seg s' hs' => (hall seg s' hs').2

/-- A walk that meets no error does what the relation says. -/
theorem Merges.of_mergeAt (rules : Rules) (path : Path) (t s : Json) (hs : s.WellFormed)
    (herror : (mergeAt rules path t s).error = none) :
    ∃ changes, (mergeAt rules path t s).changes = changes.map (Change.below path) ∧
      Merges rules path t s (mergeAt rules path t s).target changes := by
  cases hfind : rules.find? path with
  | some operation =>
    rw [mergeAt_of_rule hfind] at herror ⊢
    exact Merges.of_applyOperation hfind herror
  | none =>
    cases hdescend : rules.descend path t s with
    | false => exact Merges.of_not_descend hfind hdescend
    | true =>
      refine Merges.of_parts hfind hdescend (Json.nodup_segments hs) herror fun seg s' hs' => ?_
      rw [mergePart, hs', Option.getD_some]
      exact Merges.of_mergeAt rules (path ++ [seg]) _ s' (hs.child? hs')
termination_by sizeOf s
decreasing_by exact Json.sizeOf_lt_of_child? hs'

end ModularTemplates
