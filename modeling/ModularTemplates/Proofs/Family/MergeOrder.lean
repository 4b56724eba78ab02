import Mathlib.Data.List.Permutation
import Mathlib.Tactic.Lemma
import ModularTemplates.Family.Basic
import ModularTemplates.Proofs.Family.Walk

/-!
# The order in which a family is merged

The members of a family are the generations of its root. Its properties are what comes out when the
properties of the members are merged in this order into those of the root.
-/

namespace ModularTemplates

/-! ### Merging one after the other -/

namespace Documents

/-- The properties that a resource has of its own; a missing resource has none. -/
def ownProperties (documents : Documents) (id : ResourceId) : Json :=
  ((documents.resource? id).map Json.ownProperties).getD (.object [])

/-- Merge the properties of a resource under its rules into what its predecessors made. -/
def contribute (documents : Documents) (sofar : Json × Provenance) (id : ResourceId) :
    Except MergeError (Json × Provenance) := do
  let (properties, changes) ←
    (merge (documents.rulesOf id) sofar.1 (documents.ownProperties id)).result
  return (properties, sofar.2.enterAll changes id properties)

/-- A family as the documents determine it: its members are the generations of a root, and its
properties are merged in their order. -/
structure Resolves (documents : Documents) (family : Family) : Prop where
  root_mem : family.root ∈ documents.ids
  root_extends : documents.extended? family.root = none
  members : ∃ n, family.members = documents.generations family.root n ∧
    ∀ m id, documents.Chain family.root m id → m < n
  merged : family.members.tail.foldlM documents.contribute
    (documents.ownProperties family.root, .leaf family.root) =
      .ok (family.properties, family.provenance)
  resource : ∃ fs, documents.resource? family.root = some (.object fs) ∧
    family.resource = .object (Fields.set fs "Properties" family.properties)

namespace Resolves

variable {documents : Documents} {family : Family}

lemma mem_members_iff (hdocuments : documents.WellFormed) (h : documents.Resolves family)
    {id : ResourceId} : id ∈ family.members ↔ ∃ n, documents.Chain family.root n id := by
  obtain ⟨n, hmembers, hbound⟩ := h.members
  rw [hmembers, mem_generations_iff hdocuments]
  constructor
  · rintro ⟨m, -, hchain⟩
    exact ⟨m, hchain⟩
  · rintro ⟨m, hchain⟩
    exact ⟨m, hbound m id hchain, hchain⟩

lemma nodup_members (hdocuments : documents.WellFormed) (h : documents.Resolves family) :
    family.members.Nodup := by
  obtain ⟨n, hmembers, -⟩ := h.members
  rw [hmembers]
  exact nodup_generations hdocuments h.root_extends n

lemma pairwise_members (hdocuments : documents.WellFormed) (h : documents.Resolves family) :
    family.members.Pairwise (documents.MergedBefore family.root family.members) := by
  obtain ⟨n, hmembers, -⟩ := h.members
  rw [hmembers]
  exact pairwise_generations hdocuments family.root n

lemma members_eq_cons (h : documents.Resolves family) :
    family.members = family.root :: family.members.tail := by
  obtain ⟨n, hmembers, hbound⟩ := h.members
  cases n with
  | zero => exact absurd (hbound 0 family.root .root) (Nat.not_lt_zero 0)
  | succ n =>
    rw [hmembers, generations, List.range_succ_eq_map]
    rfl

/-- Behind the root come those that are some way from it. -/
lemma mem_tail_members_iff (hdocuments : documents.WellFormed) (h : documents.Resolves family)
    {id : ResourceId} :
    id ∈ family.members.tail ↔ ∃ n, documents.Chain family.root (n + 1) id := by
  obtain ⟨n, hmembers, hbound⟩ := h.members
  exact mem_behind_root_iff hdocuments h.root_extends (h.members_eq_cons.symm.trans hmembers) hbound

end Resolves

end Documents

namespace Family

variable {documents : Documents} {links : Links} {family : Family}

lemma contribute_eq_ok_iff {root : Link} {id : ResourceId} {body : Json}
    {sofar next : Json × Provenance} (hbody : documents.resource? id = some body) :
    contribute root sofar (Link.ofResource id body) = .ok next ↔
      checkType root (Link.ofResource id body) = .ok () ∧
      documents.contribute sofar id = .ok next := by
  have hrules : documents.rulesOf id = (Link.ofResource id body).rules := by
    rw [Documents.rulesOf, Documents.declaration?, hbody]
    rfl
  have hproperties : documents.ownProperties id = (Link.ofResource id body).body.ownProperties := by
    rw [Documents.ownProperties, hbody]
    rfl
  rw [contribute, Documents.contribute, hrules, hproperties, bind_eq_ok_iff, bind_eq_ok_iff]
  constructor
  · rintro ⟨⟨⟩, htype, h⟩
    split at h
    · cases h
    · rename_i properties changes hresult
      cases h
      exact ⟨htype, (properties, changes), hresult, rfl⟩
  · rintro ⟨htype, ⟨properties, changes⟩, hresult, h⟩
    refine ⟨(), htype, ?_⟩
    cases h
    rw [hresult]
    rfl

lemma foldlM_contribute_iff {root : Link} {members : Links} {sofar last : Json × Provenance}
    (hmembers : ∀ link ∈ members, ∃ id body, documents.resource? id = some body ∧
      link = Link.ofResource id body) :
    members.foldlM (contribute root) sofar = .ok last ↔
      (∀ link ∈ members, checkType root link = .ok ()) ∧
        (members.map Link.id).foldlM documents.contribute sofar = .ok last := by
  induction members generalizing sofar with
  | nil => simp [pure, Except.pure]
  | cons link members ih =>
    obtain ⟨⟨id, body, hbody, rfl⟩, hrest⟩ := List.forall_mem_cons.mp hmembers
    simp only [List.map_cons, List.foldlM_cons, bind_eq_ok_iff,
      contribute_eq_ok_iff hbody, ih hrest, List.forall_mem_cons]
    constructor
    · rintro ⟨next, ⟨htype, hnext⟩, htypes, hlast⟩
      exact ⟨⟨htype, htypes⟩, next, hnext, hlast⟩
    · rintro ⟨⟨htype, htypes⟩, next, hnext, hlast⟩
      exact ⟨next, ⟨htype, hnext⟩, htypes, hlast⟩

/-- No step of the walk back fails, so all members are merged into the root, one after the other. -/
lemma ofRoot_eq (links : Links) (rootId : ResourceId) :
    ofRoot links rootId =
      match links.find? rootId with
      | none => .error (.malformedResource rootId)
      | some root => do
        let (properties, provenance) ← (links.members rootId).foldlM (contribute root)
          (root.body.ownProperties, .leaf rootId)
        return {
          root := rootId
          members := rootId :: (links.members rootId).map Link.id
          resource := root.body.setField "Properties" properties
          provenance } := by
  rw [ofRoot, Links.walk_eq_map_members]
  cases links.find? rootId with
  | none => rfl
  | some root =>
    simp only [List.foldlM_map]
    rfl

lemma resolves_of_ofRoot (hdocuments : documents.WellFormed)
    (hlinks : Links.ofDocuments documents = .ok links) {id root : ResourceId}
    (hroot : links.root id = .ok root) (h : ofRoot links root = .ok family) :
    family.root = root ∧ documents.Resolves family := by
  have hextends : documents.extended? root = none := by
    rw [← Links.target?_of_ofDocuments hdocuments hlinks]
    exact Links.target?_of_rootFrom hroot
  rw [ofRoot_eq, Links.find?_of_ofDocuments hdocuments hlinks] at h
  cases hbody : documents.resource? root with
  | none => simp [hbody] at h
  | some body =>
    have hmem : root ∈ documents.ids := (Documents.mem_ids_iff hdocuments).mpr ⟨body, hbody⟩
    rw [hbody, Option.map_some] at h
    obtain ⟨⟨properties, provenance⟩, hfold, h⟩ := bind_eq_ok_iff.mp h
    cases h
    have hobject : ∃ fs, body = .object fs := by
      have hobject := (Links.of_ofDocuments hlinks).2.1 _
        ((Documents.resource?_eq_some_iff hdocuments).mp hbody)
      cases body <;> simp_all [Json.isObject, Json.asObject?]
    obtain ⟨fs, rfl⟩ := hobject
    have hproperties : Family.properties ⟨root, root :: (links.members root).map Link.id,
        (Link.ofResource root (.object fs)).body.setField "Properties" properties, provenance⟩ =
          properties := by
      simp [Family.properties, Link.ofResource, Json.setField, Json.field?, Json.asObject?]
    refine ⟨rfl, hmem, hextends, ?_, ?_, fs, hbody, ?_⟩
    · exact Links.exists_cons_map_id_members hdocuments hlinks hextends hmem
    · rw [hproperties]
      have hown : documents.ownProperties root = (Json.object fs).ownProperties := by
        rw [Documents.ownProperties, hbody]
        rfl
      rw [hown]
      exact ((foldlM_contribute_iff fun link hlink =>
        ⟨link.id, Links.exists_resource_of_mem_members hdocuments hlinks hlink⟩).mp hfold).2
    · rw [hproperties]
      rfl

end Family

/-- The link of a listed resource, with its target and the rules of its declaration. -/
def Documents.linkTo (documents : Documents) (id : ResourceId) (target : Option ResourceId)
    (rules : Rules) : Link :=
  ⟨id, (documents.resource? id).getD .null, target, rules⟩

namespace Families

variable {documents : Documents} {families : Families} {family : Family}

/-- Once the resources are linked, nothing else of the documents is looked at. -/
lemma ofDocuments_of_links {links : Links} (hlinks : Links.ofDocuments documents = .ok links) :
    ofDocuments documents =
      (links.foldlM (addFamilyOf links) []).map fun found => ⟨documents, links, found⟩ := by
  rw [ofDocuments, hlinks]
  change (links.foldlM (addFamilyOf links) [] >>= fun found => .ok _) = _
  cases links.foldlM (addFamilyOf links) [] <;> rfl

theorem resolves (hdocuments : documents.WellFormed)
    (h : ofDocuments documents = .ok families) (hfamily : family ∈ families.families) :
    documents.Resolves family := by
  obtain ⟨links, hlinks, h⟩ := bind_eq_ok_iff.mp h
  obtain ⟨found, hfound, h⟩ := bind_eq_ok_iff.mp h
  cases h
  refine foldlM_invariant (fun found => ∀ family ∈ found, documents.Resolves family)
    (by simp) ?_ hfound family hfamily
  intro before link after _ hbefore hstep
  obtain ⟨root, hroot, hstep⟩ := bind_eq_ok_iff.mp hstep
  split_ifs at hstep
  · cases hstep
    exact hbefore
  · obtain ⟨new, hnew, hstep⟩ := bind_eq_ok_iff.mp hstep
    cases hstep
    intro family hfamily
    rcases List.mem_append.mp hfamily with hfamily | hfamily
    · exact hbefore family hfamily
    · rw [List.mem_singleton] at hfamily
      subst hfamily
      exact (Family.resolves_of_ofRoot hdocuments hlinks hroot hnew).2

lemma exists_mem_of_map_families {found : List Family}
    (h : (ofDocuments documents).map Families.families = .ok found) (hfamily : family ∈ found) :
    ∃ families, ofDocuments documents = .ok families ∧ family ∈ families.families := by
  obtain ⟨families, hfamilies, rfl⟩ := map_eq_ok_iff.mp h
  exact ⟨families, hfamilies, hfamily⟩

/-- What is merged into a root are the resources that it has a chain from, each of them once,
nearest first; those at one distance in the order of what they extend, and then in document order.
The properties and their provenance come from merging in this order, each time under the rules of
the member, and nothing else of the root is changed. -/
theorem merge_order (hdocuments : documents.WellFormed) (h : ofDocuments documents = .ok families)
    (hfamily : family ∈ families.families) :
    ∃ merged, family.members = family.root :: merged ∧
      (∀ id, id ∈ merged ↔ ∃ n, documents.Chain family.root (n + 1) id) ∧
      family.members.Nodup ∧
      merged.Pairwise (documents.MergedBefore family.root family.members) ∧
      merged.foldlM documents.contribute
        (documents.ownProperties family.root, .leaf family.root) =
          .ok (family.properties, family.provenance) ∧
      ∃ fs, documents.resource? family.root = some (.object fs) ∧
        family.resource = .object (Fields.set fs "Properties" family.properties) := by
  have hresolves := resolves hdocuments h hfamily
  exact ⟨family.members.tail, hresolves.members_eq_cons,
    fun _ => hresolves.mem_tail_members_iff hdocuments, hresolves.nodup_members hdocuments,
    (hresolves.pairwise_members hdocuments).tail, hresolves.merged, hresolves.resource⟩

/-- A resource that is listed before its target, and one that extends the root from
another module. -/
theorem merge_order_near_before_deep :
    let documents : Documents :=
      [("base", ⟨.object [("Resources", .object
          [("deep", .object [("Extend", .object [("resource", .string "near")]),
            ("Properties", .object [("A", .string "deep")])]),
          ("near", .object [("Extend", .object [("resource", .string "root")]),
            ("Properties", .object [("A", .string "near"), ("B", .string "near")])]),
          ("root", .object [("Type", .string "T"), ("Properties", .null)])])], none⟩),
        ("app", ⟨.object [("Resources", .object
          [("far", .object
            [("Extend", .object [("module", .string "base"), ("resource", .string "root")]),
            ("Properties", .object [("B", .string "far")])])])], none⟩)]
    let family : Family :=
      { root := ⟨"base", "root"⟩
        members :=
          [⟨"base", "root"⟩, ⟨"base", "near"⟩, ⟨"app", "far"⟩, ⟨"base", "deep"⟩]
        resource := .object [("Type", .string "T"),
          ("Properties", .object [("A", .string "deep"), ("B", .string "far")])]
        provenance := .fields ⟨"base", "root"⟩
          [("A", .leaf ⟨"base", "deep"⟩), ("B", .leaf ⟨"app", "far"⟩)] }
    documents.WellFormed ∧ ∃ families, ofDocuments documents = .ok families ∧
      family ∈ families.families ∧
      ∃ merged, family.members = family.root :: merged ∧
        merged.Pairwise (documents.MergedBefore family.root family.members) := by
  intro documents family
  have hdocuments : documents.WellFormed := by decide
  have hresult : (ofDocuments documents).map Families.families = .ok [family] := by cbv
  obtain ⟨families, h, hfamily⟩ :=
    exists_mem_of_map_families hresult (List.mem_singleton_self family)
  obtain ⟨merged, hmembers, -, -, hpairwise, -⟩ := merge_order hdocuments h hfamily
  exact ⟨hdocuments, families, h, hfamily, merged, hmembers, hpairwise⟩

end Families

end ModularTemplates
