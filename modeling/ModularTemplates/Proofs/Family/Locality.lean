import Mathlib.Data.List.Infix
import Mathlib.Tactic.Lemma
import ModularTemplates.Proofs.Family.Partition

/-!
# What a family depends on

A family depends on its members, on their bodies and on the order in which the documents list them.
It does not depend on what else the documents hold, or on where between the members they hold it.
-/

namespace ModularTemplates

namespace Documents

/-- The listed resources among some members, with their bodies and in document order. -/
def listed (documents : Documents) (members : List ResourceId) : List (ResourceId × Json) :=
  documents.resources.filter fun r => members.contains r.1

variable {documents documents' : Documents} {members members' : List ResourceId}

lemma mem_listed_iff {id : ResourceId} {body : Json} (hdocuments : documents.WellFormed) :
    (id, body) ∈ documents.listed members ↔
      id ∈ members ∧ documents.resource? id = some body := by
  rw [listed, List.mem_filter, resource?_eq_some_iff hdocuments, List.contains_iff_mem, and_comm]

/-! ### Two sets of documents that list the same members -/

/-- Both sets of documents list the same members, with the same bodies and in the same order, and
every resource that extends a member is a member. -/
structure SameMembers (documents documents' : Documents) (members : List ResourceId) : Prop where
  listed : documents.listed members = documents'.listed members
  wellFormed : documents.WellFormed
  wellFormed' : documents'.WellFormed
  closed : ∀ id extender, id ∈ members → documents.extended? extender = some id →
    extender ∈ members
  closed' : ∀ id extender, id ∈ members → documents'.extended? extender = some id →
    extender ∈ members

namespace SameMembers

variable (h : SameMembers documents documents' members) {id : ResourceId}

include h

lemma resource?_eq (hid : id ∈ members) : documents.resource? id = documents'.resource? id := by
  refine Option.ext fun body => ?_
  have hlisted : (id, body) ∈ documents.listed members ↔ _ := mem_listed_iff h.wellFormed
  rw [h.listed, mem_listed_iff h.wellFormed'] at hlisted
  simpa [hid] using hlisted.symm

lemma declaration?_eq (hid : id ∈ members) :
    documents.declaration? id = documents'.declaration? id := by
  rw [declaration?, declaration?, h.resource?_eq hid]

lemma extended?_eq (hid : id ∈ members) : documents.extended? id = documents'.extended? id := by
  rw [extended?, extended?, h.declaration?_eq hid]

lemma rulesOf_eq (hid : id ∈ members) : documents.rulesOf id = documents'.rulesOf id := by
  rw [rulesOf, rulesOf, h.declaration?_eq hid]

lemma ownProperties_eq (hid : id ∈ members) :
    documents.ownProperties id = documents'.ownProperties id := by
  rw [ownProperties, ownProperties, h.resource?_eq hid]

lemma contribute_eq (hid : id ∈ members) (sofar : Json × Provenance) :
    documents.contribute sofar id = documents'.contribute sofar id := by
  rw [contribute, contribute, h.rulesOf_eq hid, h.ownProperties_eq hid]

end SameMembers

/-- The extenders of a member can be found among the listed members. -/
lemma extenders_eq_filter_listed {id : ResourceId}
    (hclosed : ∀ extender, documents.extended? extender = some id → extender ∈ members) :
    documents.extenders id = ((documents.listed members).map Prod.fst).filter
      fun extender => documents.extended? extender == some id := by
  rw [extenders, ids, listed, List.filter_map, List.filter_map, List.filter_filter]
  refine congrArg _ (List.filter_congr fun r _ => ?_)
  cases hextended : documents.extended? r.1 == some id with
  | false => simp [hextended]
  | true => simp [hextended, hclosed r.1 (beq_iff_eq.mp hextended)]

namespace SameMembers

variable (h : SameMembers documents documents' members) {root id : ResourceId}

include h

lemma extenders_eq (hid : id ∈ members) : documents.extenders id = documents'.extenders id := by
  rw [extenders_eq_filter_listed (fun extender => h.closed id extender hid),
    extenders_eq_filter_listed (fun extender => h.closed' id extender hid), h.listed]
  refine List.filter_congr fun extender hextender => ?_
  obtain ⟨⟨_, body⟩, hbody, rfl⟩ := List.mem_map.mp hextender
  rw [h.extended?_eq ((mem_listed_iff h.wellFormed').mp hbody).1]

/-- The generations of a member are members. -/
lemma mem_of_mem_generation (hroot : root ∈ members) {n : Nat}
    (hid : id ∈ documents.generation root n) :
    id ∈ members := by
  induction n generalizing id with
  | zero => rwa [List.mem_singleton.mp hid]
  | succ n ih =>
    obtain ⟨target, htarget, hid⟩ := List.mem_flatMap.mp hid
    exact h.closed target id (ih htarget) ((mem_extenders_iff h.wellFormed).mp hid)

lemma generation_eq (hroot : root ∈ members) (n : Nat) :
    documents.generation root n = documents'.generation root n := by
  induction n with
  | zero => rfl
  | succ n ih =>
    rw [generation, generation, ← ih]
    exact List.flatMap_congr fun id hid => h.extenders_eq (h.mem_of_mem_generation hroot hid)

lemma generations_eq (hroot : root ∈ members) (n : Nat) :
    documents.generations root n = documents'.generations root n :=
  List.flatMap_congr fun m _ => h.generation_eq hroot m

lemma foldlM_contribute_eq {ids : List ResourceId} (hids : ids ⊆ members)
    (sofar : Json × Provenance) :
    ids.foldlM documents.contribute sofar = ids.foldlM documents'.contribute sofar := by
  induction ids generalizing sofar with
  | nil => rfl
  | cons id ids ih =>
    obtain ⟨hid, hids⟩ := List.cons_subset.mp hids
    rw [List.foldlM_cons, List.foldlM_cons, h.contribute_eq hid]
    exact congrArg _ (funext (ih hids))

end SameMembers

/-! ### The family -/

/-- Past the last generation nothing is added. -/
lemma generations_eq_of_bound (hdocuments : documents.WellFormed) {root : ResourceId} {n : Nat}
    (hbound : ∀ m id, documents.Chain root m id → m < n) (k : Nat) :
    documents.generations root (n + k) = documents.generations root n := by
  induction k with
  | zero => rfl
  | succ k ih =>
    have hempty : documents.generation root (n + k) = [] := by
      refine List.eq_nil_iff_forall_not_mem.mpr fun id hid => ?_
      have hlt := hbound _ id ((mem_generation_iff hdocuments).mp hid)
      omega
    rw [← Nat.add_assoc, generations_succ, ih, hempty, List.append_nil]

namespace Resolves

variable {family family' : Family}

lemma mem_members_iff_mem_listed (hdocuments : documents.WellFormed) (h : documents.Resolves family)
    {id : ResourceId} :
    id ∈ family.members ↔ id ∈ (documents.listed family.members).map Prod.fst := by
  have hids : id ∈ family.members → id ∈ documents.ids := by
    intro hid
    obtain ⟨n, hmembers, -⟩ := h.members
    rw [hmembers] at hid
    exact generations_subset_ids hdocuments h.root_mem n hid
  constructor
  · intro hid
    obtain ⟨body, hbody⟩ := (mem_ids_iff hdocuments).mp (hids hid)
    exact List.mem_map.mpr ⟨(id, body), (mem_listed_iff hdocuments).mpr ⟨hid, hbody⟩, rfl⟩
  · intro hid
    obtain ⟨⟨_, body⟩, hbody, rfl⟩ := List.mem_map.mp hid
    exact ((mem_listed_iff hdocuments).mp hbody).1

lemma mem_members_of_extended? (hdocuments : documents.WellFormed) (h : documents.Resolves family)
    {id extender : ResourceId} (hid : id ∈ family.members)
    (hextended : documents.extended? extender = some id) :
    extender ∈ family.members := by
  obtain ⟨n, hchain⟩ := (h.mem_members_iff hdocuments).mp hid
  exact (h.mem_members_iff hdocuments).mpr ⟨n + 1, .link hextended hchain⟩

lemma sameMembers (hdocuments : documents.WellFormed) (hdocuments' : documents'.WellFormed)
    (h : documents.Resolves family) (h' : documents'.Resolves family')
    (hlisted : documents.listed family.members = documents'.listed family'.members) :
    SameMembers documents documents' family.members := by
  have hmem : ∀ id, id ∈ family.members ↔ id ∈ family'.members := by
    intro id
    rw [h.mem_members_iff_mem_listed hdocuments, hlisted,
      ← h'.mem_members_iff_mem_listed hdocuments']
  refine ⟨?_, hdocuments, hdocuments', fun _ _ => h.mem_members_of_extended? hdocuments, ?_⟩
  · rw [hlisted, listed, listed]
    refine List.filter_congr fun r _ => ?_
    rw [Bool.eq_iff_iff, List.contains_iff_mem, List.contains_iff_mem, hmem]
  · intro id extender hid hextended
    exact (hmem extender).mpr (h'.mem_members_of_extended? hdocuments' ((hmem id).mp hid) hextended)

/-- Where the same members are listed in the same order, they resolve to the same family. -/
theorem eq_of_listed_eq (hdocuments : documents.WellFormed) (hdocuments' : documents'.WellFormed)
    (h : documents.Resolves family) (h' : documents'.Resolves family')
    (hlisted : documents.listed family.members = documents'.listed family'.members) :
    family = family' := by
  have hsame := h.sameMembers hdocuments hdocuments' h' hlisted
  have hrootMem : family.root ∈ family.members := by
    rw [h.members_eq_cons]
    exact List.mem_cons_self
  have hroot : family.root = family'.root := by
    have hmem : family.root ∈ family'.members := by
      rw [h'.mem_members_iff_mem_listed hdocuments', ← hlisted,
        ← h.mem_members_iff_mem_listed hdocuments]
      exact hrootMem
    obtain ⟨n, hchain⟩ := (h'.mem_members_iff hdocuments').mp hmem
    have hextends := h.root_extends
    rw [hsame.extended?_eq hrootMem] at hextends
    exact (hchain.root_unique .root h'.root_extends hextends).symm
  have hmembers : family.members = family'.members := by
    obtain ⟨n, hn, hbound⟩ := h.members
    obtain ⟨n', hn', hbound'⟩ := h'.members
    rw [hn, hn', ← generations_eq_of_bound hdocuments hbound n',
      hsame.generations_eq hrootMem, hroot,
      Nat.add_comm, generations_eq_of_bound hdocuments' hbound' n]
  have hmerged : (family.properties, family.provenance) =
      (family'.properties, family'.provenance) := by
    refine Except.ok.inj (h.merged.symm.trans (Eq.trans ?_ h'.merged))
    rw [hsame.foldlM_contribute_eq (List.tail_subset _), hsame.ownProperties_eq hrootMem,
      hroot, hmembers]
  obtain ⟨hproperties, hprovenance⟩ := Prod.mk.inj hmerged
  have hresource : family.resource = family'.resource := by
    obtain ⟨fs, hfs, hresource⟩ := h.resource
    obtain ⟨fs', hfs', hresource'⟩ := h'.resource
    rw [hsame.resource?_eq hrootMem, hroot, hfs'] at hfs
    cases hfs
    rw [hresource, hresource', hproperties]
  cases family
  cases family'
  cases hroot
  cases hmembers
  cases hresource
  cases hprovenance
  rfl

end Resolves

end Documents

namespace Families

/-- The resources of a family, with their bodies and in document order; nothing for what
has no family. -/
def listed? (f : Families) (id : ResourceId) : Option (List (ResourceId × Json)) :=
  (f.get? id).map fun family => f.documents.listed family.members

variable {documents documents' : Documents} {families families' : Families}

/-- Only resources have a family, and all of them have one. -/
lemma resource?_eq_none_of_get? (hdocuments : documents.WellFormed)
    (h : ofDocuments documents = .ok families) {id : ResourceId} (hget : families.get? id = none) :
    documents.resource? id = none := by
  by_contra hsome
  obtain ⟨body, hbody⟩ := Option.ne_none_iff_exists'.mp hsome
  obtain ⟨family, hfamily, -⟩ :=
    exists_get? hdocuments h ((Documents.mem_ids_iff hdocuments).mpr ⟨body, hbody⟩)
  rw [hget] at hfamily
  cases hfamily

/-- A family is the same in all documents that list the same members in the same order. -/
lemma get?_eq_of_listed?_eq (hdocuments : documents.WellFormed)
    (hdocuments' : documents'.WellFormed) (h : ofDocuments documents = .ok families)
    (h' : ofDocuments documents' = .ok families') {id : ResourceId}
    (hlisted : families.listed? id = families'.listed? id) :
    families.get? id = families'.get? id ∧ documents.resource? id = documents'.resource? id := by
  unfold listed? at hlisted
  rw [(of_ofDocuments h).1, (of_ofDocuments h').1] at hlisted
  cases hget : families.get? id with
  | none =>
    rw [hget, Option.map_none, eq_comm, Option.map_eq_none_iff] at hlisted
    rw [hlisted, resource?_eq_none_of_get? hdocuments h hget,
      resource?_eq_none_of_get? hdocuments' h' hlisted]
    exact ⟨rfl, rfl⟩
  | some family =>
    rw [hget, Option.map_some, eq_comm, Option.map_eq_some_iff] at hlisted
    obtain ⟨family', hget', hlisted⟩ := hlisted
    obtain ⟨hfamily, hid⟩ := (get?_eq_some_iff hdocuments h).mp hget
    have hresolves := resolves hdocuments h hfamily
    have hresolves' := resolves_of_get? hdocuments' h' hget'
    rw [hget', hresolves.eq_of_listed_eq hdocuments hdocuments' hresolves' hlisted.symm]
    exact ⟨rfl,
      (hresolves.sameMembers hdocuments hdocuments' hresolves' hlisted.symm).resource?_eq hid⟩

end Families

end ModularTemplates
