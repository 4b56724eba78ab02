import Mathlib.Data.List.Nodup
import Mathlib.Data.List.Pairwise
import Mathlib.Tactic.Lemma
import ModularTemplates.Proofs.Family.Linking

/-!
# Chains and generations

The links from a resource to the root of its family are a chain. The resources whose chains have one
length are a generation, and a generation is listed in the order of the one before it and, among the
extenders of one resource, in document order. The generations of a root are disjoint, and from some
length on they are empty.
-/

namespace ModularTemplates

namespace Documents

variable {documents : Documents} {root id : ResourceId}

/-- `documents.Chain root n id`: from the resource `id` it is `n` links to the root. -/
inductive Chain (documents : Documents) (root : ResourceId) : Nat → ResourceId → Prop where
  | root : Chain documents root 0 root
  | link {n : Nat} {id target : ResourceId} (h : documents.extended? id = some target)
      (rest : Chain documents root n target) : Chain documents root (n + 1) id

/-- A root that extends nothing is at one distance only. -/
lemma Chain.unique (hroot : documents.extended? root = none) {m n : Nat}
    (hm : documents.Chain root m id) (hn : documents.Chain root n id) : m = n := by
  induction hm generalizing n with
  | root =>
    cases hn with
    | root => rfl
    | link h => simp [hroot] at h
  | link h rest ih =>
    cases hn with
    | root => simp [hroot] at h
    | link h' rest' =>
      rw [h, Option.some.injEq] at h'
      subst h'
      rw [ih rest']

/-! ### Generations -/

/-- The resources at a distance from the root, in the order of merging. -/
def generation (documents : Documents) (root : ResourceId) : Nat → List ResourceId
  | 0 => [root]
  | n + 1 => (documents.generation root n).flatMap documents.extenders

/-- The generations below a distance, one after the other. -/
def generations (documents : Documents) (root : ResourceId) (n : Nat) : List ResourceId :=
  (List.range n).flatMap (documents.generation root)

lemma generations_succ (documents : Documents) (root : ResourceId) (n : Nat) :
    documents.generations root (n + 1) =
      documents.generations root n ++ documents.generation root n := by
  simp [generations, List.range_succ]

lemma mem_generation_iff (h : documents.WellFormed) {n : Nat} :
    id ∈ documents.generation root n ↔ documents.Chain root n id := by
  induction n generalizing id with
  | zero =>
    rw [generation, List.mem_singleton]
    constructor
    · rintro rfl
      exact .root
    · rintro ⟨⟩
      rfl
  | succ n ih =>
    rw [generation, List.mem_flatMap]
    constructor
    · rintro ⟨target, htarget, hid⟩
      exact .link ((mem_extenders_iff h).mp hid) (ih.mp htarget)
    · rintro (_ | ⟨hid, htarget⟩)
      exact ⟨_, ih.mpr htarget, (mem_extenders_iff h).mpr hid⟩

lemma mem_generations_iff (h : documents.WellFormed) {n : Nat} :
    id ∈ documents.generations root n ↔ ∃ m < n, documents.Chain root m id := by
  simp [generations, mem_generation_iff h]

lemma nodup_generation (h : documents.WellFormed) (root : ResourceId) (n : Nat) :
    (documents.generation root n).Nodup := by
  induction n with
  | zero => exact List.nodup_singleton root
  | succ n ih =>
    rw [generation, List.nodup_flatMap]
    refine ⟨fun target _ => (nodup_ids h).filter _, ih.imp fun {s t} hne => ?_⟩
    intro extender hs ht
    rw [mem_extenders_iff h] at hs ht
    rw [hs, Option.some.injEq] at ht
    exact hne ht

lemma nodup_generations (h : documents.WellFormed) (hroot : documents.extended? root = none)
    (n : Nat) : (documents.generations root n).Nodup := by
  induction n with
  | zero => exact List.nodup_nil
  | succ n ih =>
    rw [generations_succ, List.nodup_append']
    refine ⟨ih, nodup_generation h root n, fun id hlt hn => ?_⟩
    obtain ⟨m, hm, hchain⟩ := (mem_generations_iff h).mp hlt
    exact absurd (hchain.unique hroot ((mem_generation_iff h).mp hn)) (Nat.ne_of_lt hm)

/-- Where the generations are all there are, those behind the root are some way from it. -/
lemma mem_behind_root_iff (h : documents.WellFormed) (hroot : documents.extended? root = none)
    {n : Nat} {behind : List ResourceId} (hall : root :: behind = documents.generations root n)
    (hbound : ∀ m id, documents.Chain root m id → m < n) :
    id ∈ behind ↔ ∃ m, documents.Chain root (m + 1) id := by
  have hnodup := nodup_generations h hroot n
  rw [← hall, List.nodup_cons] at hnodup
  constructor
  · intro hid
    have hmem := List.mem_cons_of_mem root hid
    rw [hall] at hmem
    obtain ⟨m, -, hchain⟩ := (mem_generations_iff h).mp hmem
    cases hchain with
    | root => exact absurd hid hnodup.1
    | link hextended rest => exact ⟨_, .link hextended rest⟩
  · rintro ⟨m, hchain⟩
    have hmem := (mem_generations_iff h).mpr ⟨_, hbound _ id hchain, hchain⟩
    rw [← hall] at hmem
    rcases List.mem_cons.mp hmem with rfl | hid
    · exact absurd (hchain.unique hroot .root) (Nat.succ_ne_zero m)
    · exact hid

lemma generations_subset_ids (h : documents.WellFormed) (hroot : root ∈ documents.ids) (n : Nat) :
    documents.generations root n ⊆ documents.ids := by
  intro id hid
  obtain ⟨m, -, hchain⟩ := (mem_generations_iff h).mp hid
  cases hchain with
  | root => exact hroot
  | link hextended => exact List.mem_of_mem_filter ((mem_extenders_iff h).mpr hextended)

/-- There are no more generations than resources. -/
theorem exists_generation_eq_nil (h : documents.WellFormed)
    (hroot : documents.extended? root = none) (hmem : root ∈ documents.ids) :
    ∃ n, documents.generation root (n + 1) = [] := by
  by_contra hne
  have hlength : ∀ n, n ≤ (documents.generations root n).length := by
    intro n
    induction n with
    | zero => exact Nat.zero_le _
    | succ n ih =>
      have hpos : 0 < (documents.generation root n).length := by
        cases n with
        | zero => exact Nat.zero_lt_one
        | succ n => exact List.length_pos_iff.mpr fun hnil => hne ⟨n, hnil⟩
      rw [generations_succ, List.length_append]
      omega
  have hle := (nodup_generations h hroot (documents.ids.length + 1)).length_le_of_subset
    (generations_subset_ids h hmem _)
  have hlt := hlength (documents.ids.length + 1)
  omega

/-! ### The order of merging -/

/-- A member of a family is merged before another one: its chain to the root is shorter, or the
chains have one length and the resource that it extends comes before the one that the other extends
in the order of merging, or both extend one resource and it comes first in the documents. -/
def MergedBefore (documents : Documents) (root : ResourceId) (order : List ResourceId)
    (a b : ResourceId) : Prop :=
  ∃ m n, documents.Chain root m a ∧ documents.Chain root n b ∧
    (m < n ∨ m = n ∧ ∃ s t, documents.extended? a = some s ∧
      documents.extended? b = some t ∧
      ([s, t].Sublist order ∨ s = t ∧ [a, b].Sublist documents.ids))

lemma MergedBefore.mono {order order' : List ResourceId} (hsub : order.Sublist order')
    {a b : ResourceId} (h : documents.MergedBefore root order a b) :
    documents.MergedBefore root order' a b := by
  obtain ⟨m, n, ha, hb, hlt | ⟨hmn, s, t, hs, ht, hst | hst⟩⟩ := h
  · exact ⟨m, n, ha, hb, .inl hlt⟩
  · exact ⟨m, n, ha, hb, .inr ⟨hmn, s, t, hs, ht, .inl (hst.trans hsub)⟩⟩
  · exact ⟨m, n, ha, hb, .inr ⟨hmn, s, t, hs, ht, .inr hst⟩⟩

lemma pairwise_generation (h : documents.WellFormed) (root : ResourceId) (n : Nat) :
    (documents.generation root (n + 1)).Pairwise
      (documents.MergedBefore root (documents.generation root n)) := by
  rw [generation, List.pairwise_flatMap]
  constructor
  · intro target htarget
    have hchain := (mem_generation_iff h).mp htarget
    refine List.pairwise_iff_forall_sublist.mpr fun {a b} hab => ?_
    have ha := (mem_extenders_iff h).mp (hab.subset (List.mem_cons_self))
    have hb := (mem_extenders_iff h).mp (hab.subset (List.mem_cons_of_mem a List.mem_cons_self))
    exact ⟨n + 1, n + 1, .link ha hchain, .link hb hchain,
      .inr ⟨rfl, target, target, ha, hb, .inr ⟨rfl, hab.trans List.filter_sublist⟩⟩⟩
  · refine List.pairwise_iff_forall_sublist.mpr fun {s t} hst a ha b hb => ?_
    have hs := (mem_generation_iff h).mp (hst.subset (List.mem_cons_self))
    have ht := (mem_generation_iff h).mp (hst.subset (List.mem_cons_of_mem s List.mem_cons_self))
    rw [mem_extenders_iff h] at ha hb
    exact ⟨n + 1, n + 1, .link ha hs, .link hb ht, .inr ⟨rfl, s, t, ha, hb, .inl hst⟩⟩

theorem pairwise_generations (h : documents.WellFormed) (root : ResourceId) (n : Nat) :
    (documents.generations root n).Pairwise
      (documents.MergedBefore root (documents.generations root n)) := by
  induction n with
  | zero => exact .nil
  | succ n ih =>
    have hsub : (documents.generations root n).Sublist (documents.generations root (n + 1)) := by
      rw [generations_succ]
      exact List.sublist_append_left _ _
    suffices hpairwise : (documents.generations root n ++ documents.generation root n).Pairwise
        (documents.MergedBefore root (documents.generations root (n + 1))) by
      rwa [← generations_succ] at hpairwise
    rw [List.pairwise_append]
    refine ⟨ih.imp fun hab => hab.mono hsub, ?_, ?_⟩
    · cases n with
      | zero => exact List.pairwise_singleton _ _
      | succ n =>
        refine (pairwise_generation h root n).imp fun hab => hab.mono (.trans ?_ hsub)
        rw [generations_succ]
        exact List.sublist_append_right _ _
    · intro a ha b hb
      obtain ⟨m, hm, hchain⟩ := (mem_generations_iff h).mp ha
      exact ⟨m, n, hchain, (mem_generation_iff h).mp hb, .inl hm⟩

end Documents

end ModularTemplates
