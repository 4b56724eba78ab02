import Mathlib.Data.List.Nodup
import Mathlib.Data.List.Pairwise
import Mathlib.Tactic.Lemma
import ModularTemplates.Node
import ModularTemplates.Proofs.Json
import ModularTemplates.Proofs.Merge.Outcome

/-!
# The changes that a merge reports

The report of a successful merge is exact and complete: its paths do not lie inside one another,
every scalar of the source is covered by one of them, each change tells what now stands at its path,
and what no path touches is as it was before.
-/

namespace ModularTemplates

/-- Neither change is at or inside the place of the other. -/
def Change.Apart (c d : Change) : Prop :=
  ¬ c.path <+: d.path ∧ ¬ d.path <+: c.path

/-- What a change says about the target `t`, the source `s` and the merged value `v` at its path. -/
def Change.Describes (c : Change) (t s v : Json) : Prop :=
  ∃ new, c.path.lookup s = some new ∧
    match c.kind with
    | .replace => c.path.lookup v = some new
    | .combine => c.path.lookup v = some (combine ((c.path.lookup t).getD .null) new)
    | .append count => ∃ old added, ((c.path.lookup t).getD .null).itemsOrNull? = some old ∧
        new = .array added ∧ count = added.length ∧
          c.path.lookup v = some (.array (old ++ added))
    | .prepend count => ∃ old added, ((c.path.lookup t).getD .null).itemsOrNull? = some old ∧
        new = .array added ∧ count = added.length ∧
          c.path.lookup v = some (.array (added ++ old))

/-- A container `v` that grew out of `t` by what `s` has in addition: the keys of an object keep
their order and the new ones follow in theirs, and an array is as long as the longer one. -/
def Json.Extends (v t s : Json) : Prop :=
  match t, s, v with
  | .object ts, .object ss, .object vs =>
    Fields.keys vs = Fields.keys ts ++ (Fields.keys ss).filter (· ∉ Fields.keys ts)
  | .array ts, .array ss, .array vs => vs.length = max ts.length ss.length
  | _, _, _ => False

instance : Std.Symm Change.Apart where
  symm _ _ h := ⟨h.2, h.1⟩

/-! ### Paths that begin with the segment of a part -/

/-- A place inside a part that is missing is as empty as a place inside null. -/
lemma Path.getD_lookup_cons (seg : Segment) (p : Path) (v : Json) :
    (Path.lookup (seg :: p) v).getD .null =
      (Path.lookup p ((v.child? seg).getD .null)).getD .null := by
  rw [Path.lookup_cons]
  cases v.child? seg with
  | some w => rfl
  | none => cases p with
    | nil => rfl
    | cons next p => cases next <;> rfl

lemma Path.lookup_of_child {v w : Json} {seg : Segment} (h : v.child? seg = some w) (p : Path) :
    Path.lookup (seg :: p) v = Path.lookup p w := by
  rw [Path.lookup_cons, h, Option.bind_some]

lemma Change.Describes.below {c : Change} {t s v s' v' : Json} {seg : Segment}
    (hs : s.child? seg = some s') (hv : v.child? seg = some v')
    (h : c.Describes ((t.child? seg).getD .null) s' v') : (c.below [seg]).Describes t s v := by
  obtain ⟨new, hnew, hkind⟩ := h
  refine ⟨new, ?_, ?_⟩
  · simpa only [Change.path_below, List.singleton_append, Path.lookup_of_child hs] using hnew
  · simpa only [Change.path_below, Change.kind_below, List.singleton_append,
      Path.lookup_of_child hv, Path.getD_lookup_cons] using hkind

lemma mem_flatMap_below {segs : List Segment} {changes : Segment → List Change} {c : Change} :
    c ∈ segs.flatMap (fun seg => (changes seg).map (Change.below [seg])) ↔
      ∃ seg ∈ segs, ∃ d ∈ changes seg, d.below [seg] = c := by
  simp only [List.mem_flatMap, List.mem_map]

lemma Change.Apart.below {c d : Change} (h : c.Apart d) (seg : Segment) :
    (c.below [seg]).Apart (d.below [seg]) := by
  simpa [Change.Apart] using h

lemma Change.apart_of_ne {seg other : Segment} (h : seg ≠ other) (c d : Change) :
    (c.below [seg]).Apart (d.below [other]) := by
  simp [Change.Apart, h, Ne.symm h]

/-! ### Containers with the parts of a source -/

namespace Json

variable {rules : Rules} {path : Path} {t s v : Json} {part : Segment → Json}

lemma withParts_eq_self (h : rules.descend path t s = true)
    (hpart : ∀ seg ∈ s.segments, t.child? seg = some (part seg)) : t.withParts s part = t := by
  obtain ⟨ts, ss, rfl, rfl⟩ | ⟨ts, ss, rfl, rfl⟩ := Rules.containers_of_descend h
  · rw [withParts, Fields.update_map_of_get?]
    intro k hk
    exact hpart (.key k) (List.mem_map_of_mem hk)
  · rw [withParts, array.injEq]
    apply List.ext_getElem?
    intro i
    have hchild := child?_withParts h part (.index i)
    have hsame : (if .index i ∈ (array ss).segments then some (part (.index i))
        else (array ts).child? (.index i)) = (array ts).child? (.index i) := by
      split_ifs with hi
      · exact (hpart _ hi).symm
      · rfl
    exact hchild.trans hsame

lemma extends_withParts (h : rules.descend path t s = true) (hnodup : s.segments.Nodup)
    (part : Segment → Json) : (t.withParts s part).Extends t s := by
  obtain ⟨ts, ss, rfl, rfl⟩ | ⟨ts, ss, rfl, rfl⟩ := Rules.containers_of_descend h
  · have hkeys : (Fields.keys ss).Nodup := List.Nodup.of_map _ hnodup
    rw [withParts, Extends, Fields.keys_update (Fields.distinct_map_pair hkeys _),
      Fields.keys_map_pair]
  · simp only [withParts, Extends, List.length_append, List.length_map, List.length_range,
      List.length_drop]
    omega

lemma not_extends_of_lookup_null {p : Path} {w : Json} (h : p.lookup null = some w) :
    ¬ v.Extends w s := by
  cases p with
  | nil =>
    cases h
    exact id
  | cons seg p => cases seg <;> simp [child?] at h

end Json

/-! ### The parts of the report -/

namespace Merges

variable {rules : Rules} {path : Path} {t s v : Json} {changes : List Change}

theorem apart (h : Merges rules path t s v changes) : changes.Pairwise Change.Apart := by
  induction h with
  | replaced | combined | appended | prepended => exact List.pairwise_singleton _ _
  | entered hfind hdescend hnodup parts ih =>
    rw [List.pairwise_flatMap]
    constructor
    · intro seg hseg
      obtain ⟨s', hs'⟩ := Json.mem_segments_iff.mp hseg
      exact (ih seg s' hs').map _ fun c d hcd => hcd.below seg
    · refine hnodup.imp fun {seg other} hne => ?_
      intro c hc d hd
      obtain ⟨c', -, rfl⟩ := List.mem_map.mp hc
      obtain ⟨d', -, rfl⟩ := List.mem_map.mp hd
      exact Change.apart_of_ne hne c' d'

/-- No scalar of the source goes unreported. -/
theorem covers (h : Merges rules path t s v changes) {p : Path} {w : Json}
    (hw : p.lookup s = some w) (hscalar : w.shape = .primitive) :
    ∃ c ∈ changes, c.path <+: p := by
  induction h generalizing p with
  | replaced | combined | appended | prepended =>
    exact ⟨_, List.mem_singleton_self _, List.nil_prefix⟩
  | @entered _ _ s _ _ hfind hdescend hnodup parts ih =>
    cases p with
    | nil =>
      cases hw
      obtain ⟨ts, ss, rfl, rfl⟩ | ⟨ts, ss, rfl, rfl⟩ :=
        Rules.containers_of_descend hdescend <;>
          simp [Json.shape] at hscalar
    | cons seg p =>
      rw [Path.lookup_cons, Option.bind_eq_some_iff] at hw
      obtain ⟨s', hs', hw⟩ := hw
      obtain ⟨c, hc, hprefix⟩ := ih seg s' hs' hw
      refine ⟨c.below [seg], ?_, ?_⟩
      · exact mem_flatMap_below.mpr ⟨seg, Json.mem_segments_iff.mpr ⟨s', hs'⟩, c, hc, rfl⟩
      · simpa using hprefix

theorem describes (h : Merges rules path t s v changes) {c : Change} (hc : c ∈ changes) :
    c.Describes t s v := by
  induction h generalizing c with
  | replaced | combined =>
    rw [List.mem_singleton] at hc
    subst hc
    exact ⟨_, rfl, rfl⟩
  | appended hfind ht | prepended hfind ht =>
    rw [List.mem_singleton] at hc
    subst hc
    exact ⟨_, rfl, _, _, ht, rfl, rfl, rfl⟩
  | entered hfind hdescend hnodup parts ih =>
    obtain ⟨seg, hseg, d, hd, rfl⟩ := mem_flatMap_below.mp hc
    obtain ⟨s', hs'⟩ := Json.mem_segments_iff.mp hseg
    refine (ih seg s' hs' hd).below hs' ?_
    rw [Json.child?_withParts hdescend, if_pos hseg]

/-- Nothing is merged into a missing value without a report. -/
theorem ne_nil_of_null (h : Merges rules path .null s v changes) : changes ≠ [] := by
  cases h with
  | replaced | combined | appended | prepended => exact List.cons_ne_nil _ _
  | entered hfind hdescend => simp [Rules.descend] at hdescend

/-- A merge without changes leaves the target as it is. -/
theorem eq_of_nil (h : Merges rules path t s v changes) (hnil : changes = []) : v = t := by
  induction h with
  | replaced | combined | appended | prepended => exact absurd hnil (List.cons_ne_nil _ _)
  | @entered path t s part changes hfind hdescend hnodup parts ih =>
    have hparts : ∀ seg s', s.child? seg = some s' → t.child? seg = some (part seg) := by
      intro seg s' hs'
      have hseg : changes seg = [] := by
        simpa using List.flatMap_eq_nil_iff.mp hnil seg (Json.mem_segments_iff.mpr ⟨s', hs'⟩)
      have hpart := parts seg s' hs'
      have heq := ih seg s' hs' hseg
      cases ht : t.child? seg with
      | none =>
        rw [ht] at hpart
        exact absurd hseg hpart.ne_nil_of_null
      | some t' => rw [heq, ht, Option.getD_some]
    refine Json.withParts_eq_self hdescend fun seg hseg => ?_
    obtain ⟨s', hs'⟩ := Json.mem_segments_iff.mp hseg
    exact hparts seg s' hs'

/-- What is neither at, below nor above a reported path is as before. -/
theorem frame (h : Merges rules path t s v changes) {p : Path} {w : Json}
    (hw : p.lookup t = some w) (hp : ∀ c ∈ changes, ¬ c.path <+: p ∧ ¬ p <+: c.path) :
    p.lookup v = some w := by
  induction h generalizing p with
  | replaced | combined | appended | prepended =>
    exact absurd List.nil_prefix (hp _ (List.mem_singleton_self _)).1
  | entered hfind hdescend hnodup parts ih =>
    have hentered := Merges.entered hfind hdescend hnodup parts
    cases p with
    | nil =>
      have hnil := List.eq_nil_iff_forall_not_mem.mpr fun c hc => (hp c hc).2 List.nil_prefix
      rwa [hentered.eq_of_nil hnil]
    | cons seg p =>
      rw [Path.lookup_cons, Json.child?_withParts hdescend]
      split_ifs with hseg
      · obtain ⟨s', hs'⟩ := Json.mem_segments_iff.mp hseg
        obtain ⟨t', ht', hw⟩ := Option.bind_eq_some_iff.mp hw
        rw [Option.bind_some]
        refine ih seg s' hs' (by rwa [ht']) fun c hc => ?_
        simpa using hp (c.below [seg]) (mem_flatMap_below.mpr ⟨seg, hseg, c, hc, rfl⟩)
      · exact hw

/-- Above a reported path there are containers on all sides, and the new one extends the old one. -/
theorem extends_above (h : Merges rules path t s v changes) {c : Change} (hc : c ∈ changes)
    {p : Path} (hp : p <+: c.path) (hne : p ≠ c.path) :
    ∃ t' s' v', p.lookup t = some t' ∧ p.lookup s = some s' ∧ p.lookup v = some v' ∧
      v'.Extends t' s' := by
  induction h generalizing c p with
  | replaced | combined | appended | prepended =>
    rw [List.mem_singleton] at hc
    subst hc
    exact absurd (List.prefix_nil.mp hp) hne
  | @entered path t s part changes hfind hdescend hnodup parts ih =>
    obtain ⟨seg, hseg, d, hd, rfl⟩ := mem_flatMap_below.mp hc
    obtain ⟨s', hs'⟩ := Json.mem_segments_iff.mp hseg
    cases p with
    | nil => exact ⟨t, s, _, rfl, rfl, rfl, Json.extends_withParts hdescend hnodup part⟩
    | cons other p =>
      simp only [Change.path_below, List.singleton_append, List.cons_prefix_cons, ne_eq,
        List.cons.injEq, not_and] at hp hne
      obtain ⟨rfl, hp⟩ := hp
      obtain ⟨t', s'', v', ht', hs'', hv', hextends⟩ := ih other s' hs' hd hp (hne rfl)
      refine ⟨t', s'', v', ?_, ?_, ?_, hextends⟩
      · cases ht : t.child? other with
        | some t'' => rwa [Path.lookup_of_child ht, ← Option.getD_some (a := t''), ← ht]
        | none =>
          -- a missing part has no containers in it
          rw [ht, Option.getD_none] at ht'
          exact absurd hextends (Json.not_extends_of_lookup_null ht')
      · rwa [Path.lookup_of_child hs']
      · rwa [Path.lookup_of_child (w := part other)]
        rw [Json.child?_withParts hdescend, if_pos hseg]

/-- Two reported paths on the way to one place belong to the same change. -/
theorem eq_of_prefix (h : Merges rules path t s v changes) {c d : Change} (hc : c ∈ changes)
    (hd : d ∈ changes) {p : Path} (hcp : c.path <+: p) (hdp : d.path <+: p) : c = d := by
  by_contra hne
  have hapart : c.Apart d := h.apart.forall hc hd hne
  rcases List.prefix_or_prefix_of_prefix hcp hdp with hcd | hdc
  · exact hapart.1 hcd
  · exact hapart.2 hdc

end Merges

/-! ### The report of a whole merge -/

lemma Merges.of_merge {rules : Rules} {t s v : Json} {changes : List Change} (hs : s.WellFormed)
    (h : (merge rules t s).result = .ok (v, changes)) : Merges rules [] t s v changes := by
  unfold Merged.result at h
  split at h
  · simp at h
  · rename_i herror
    obtain ⟨rfl, rfl⟩ := Prod.mk.inj (Except.ok.inj h)
    obtain ⟨changes, hchanges, hmerges⟩ := Merges.of_mergeAt rules [] t s hs herror
    have heq : (merge rules t s).changes = changes := by
      rw [merge, hchanges]
      exact List.map_id'' Change.below_nil changes
    rw [heq]
    exact hmerges

/-- The report of a merge is exact and complete: changes stand apart, every scalar of the source
belongs to just one of them, each tells what stands at its path, everything beside their paths is
kept, and the containers above them are extended. -/
theorem merge_changes_exact {rules : Rules} {t s v : Json} {changes : List Change}
    (hs : s.WellFormed) (h : (merge rules t s).result = .ok (v, changes)) :
    changes.Pairwise Change.Apart ∧
    (∀ (p : Path) w, p.lookup s = some w → w.shape = .primitive →
      ∃! c, c ∈ changes ∧ c.path <+: p) ∧
    (∀ c ∈ changes, c.Describes t s v) ∧
    (∀ (p : Path) w, p.lookup t = some w →
      (∀ c ∈ changes, ¬ c.path <+: p ∧ ¬ p <+: c.path) → p.lookup v = some w) ∧
    (∀ c ∈ changes, ∀ p : Path, p <+: c.path → p ≠ c.path →
      ∃ t' s' v', p.lookup t = some t' ∧ p.lookup s = some s' ∧ p.lookup v = some v' ∧
        v'.Extends t' s') := by
  have hmerges := Merges.of_merge hs h
  refine ⟨hmerges.apart, ?_, fun c hc => hmerges.describes hc,
    fun p w hw hp => hmerges.frame hw hp, fun c hc p hp hne => hmerges.extends_above hc hp hne⟩
  intro p w hw hscalar
  obtain ⟨c, hc, hcp⟩ := hmerges.covers hw hscalar
  exact ⟨c, ⟨hc, hcp⟩, fun d ⟨hd, hdp⟩ => hmerges.eq_of_prefix hd hc hdp hcp⟩

/-- A rule reaches into an item, an item is new, and a list is added to at its front. -/
theorem merge_changes_exact_lists :
    let rules : Rules := [([.key "list", .index 0, .key "b"], .append), ([.key "tags"], .prepend)]
    let t : Json := .object
      [("list", .array [.object [("a", .null)]]), ("tags", .array [.string "z"])]
    let s : Json := .object
      [("list", .array [.object [("b", .array [.string "x"])], .string "new"]),
        ("tags", .array [.string "y"])]
    let v : Json := .object
      [("list", .array [.object [("a", .null), ("b", .array [.string "x"])], .string "new"]),
        ("tags", .array [.string "y", .string "z"])]
    let changes : List Change :=
      [⟨[.key "list", .index 0, .key "b"], .append 1⟩, ⟨[.key "list", .index 1], .replace⟩,
        ⟨[.key "tags"], .prepend 1⟩]
    s.WellFormed ∧ (merge rules t s).result = .ok (v, changes) ∧
      changes.Pairwise Change.Apart ∧
      ∃! c, c ∈ changes ∧ c.path <+: [.key "list", .index 0, .key "b", .index 0] := by
  intro rules t s v changes
  have hs : s.WellFormed := by decide
  have h : (merge rules t s).result = .ok (v, changes) := by rfl
  obtain ⟨hapart, hcovers, -⟩ := merge_changes_exact hs h
  exact ⟨hs, h, hapart, hcovers _ (.string "x") rfl rfl⟩

end ModularTemplates
