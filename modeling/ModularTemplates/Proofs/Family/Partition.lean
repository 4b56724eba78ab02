import Mathlib.Tactic.Lemma
import ModularTemplates.Proofs.Family.MergeOrder
import ModularTemplates.Proofs.Merge.Objects
import ModularTemplates.Proofs.Provenance.Authors

/-!
# Families partition the resources

Forward links lead from every resource to the root of a family, backward links lead from a root to
all members of its family. Both are read off the same declarations, so every resource is a member of
one family, that of the root at the end of its chain, and of no other.
-/

namespace ModularTemplates

/-! ### Following the links -/

/-- A chain ends only where nothing more is extended. -/
lemma Documents.Chain.root_unique {documents : Documents} {root other id : ResourceId} {m n : Nat}
    (hm : documents.Chain root m id) (hn : documents.Chain other n id)
    (hroot : documents.extended? root = none) (hother : documents.extended? other = none) :
    root = other := by
  induction hm generalizing n with
  | root =>
    cases hn with
    | root => rfl
    | link h => simp [hroot] at h
  | link h rest ih =>
    cases hn with
    | root => simp [hother] at h
    | link h' rest' =>
      rw [h, Option.some.injEq] at h'
      subst h'
      exact ih rest'

namespace Links

variable {documents : Documents} {links : Links} {root : ResourceId}

/-- Where following the links stops there is a chain to. -/
lemma exists_chain_of_rootFrom (hdocuments : documents.WellFormed)
    (hlinks : ofDocuments documents = .ok links) {passed : List ResourceId} {id : ResourceId}
    (h : links.rootFrom passed id = .ok root) : ∃ n, documents.Chain root n id := by
  induction passed, id using rootFrom.induct links with
  | case1 passed id hmem =>
    rw [rootFrom_of_mem hmem] at h
    cases h
  | case2 passed id hfresh htarget =>
    rw [rootFrom_of_none hfresh htarget] at h
    cases h
    exact ⟨0, .root⟩
  | case3 passed id hfresh target htarget ih =>
    rw [rootFrom_of_some hfresh htarget] at h
    obtain ⟨n, hchain⟩ := ih h
    rw [target?_of_ofDocuments hdocuments hlinks] at htarget
    exact ⟨n + 1, .link htarget hchain⟩

/-- Linking reads every declaration. -/
lemma declaration_of_mem (h : ofDocuments documents = .ok links) {id : ResourceId} {body : Json}
    (hmem : (id, body) ∈ documents.resources) :
    Declaration.of id body = .ok body.declaration? := by
  unfold ofDocuments at h
  obtain ⟨⟨⟩, -, h⟩ := bind_eq_ok_iff.mp h
  obtain ⟨declared, hdeclared, -⟩ := bind_eq_ok_iff.mp h
  obtain ⟨-, hall⟩ :=
    eq_map_of_mapM (g := fun r => (r.1, r.2, r.2.declaration?)) hdeclared <| by
    intro r _ b hb
    obtain ⟨declaration, hdeclaration, hb⟩ := bind_eq_ok_iff.mp hb
    cases hb
    rw [declaration_of_ok hdeclaration]
  obtain ⟨declaration, hdeclaration, -⟩ := bind_eq_ok_iff.mp (hall (id, body) hmem)
  rw [hdeclaration, declaration_of_ok hdeclaration]

/-- A resource that extends nothing has no declaration, not even an unreadable one. -/
lemma extend_eq_none_of_extended? (hdocuments : documents.WellFormed)
    (h : ofDocuments documents = .ok links) {id : ResourceId} {body : Json}
    (hbody : documents.resource? id = some body) (hextended : documents.extended? id = none) :
    body.field? "Extend" = none := by
  have hdeclaration := declaration_of_mem h ((Documents.resource?_eq_some_iff hdocuments).mp hbody)
  rw [Documents.extended?, Documents.declaration?, hbody, Option.bind_some,
    Option.map_eq_none_iff] at hextended
  rw [hextended, Declaration.of] at hdeclaration
  split at hdeclaration
  · assumption
  · split at hdeclaration <;> simp at hdeclaration

end Links

/-! ### One family for each root -/

lemma Family.root_of_ofRoot {links : Links} {root : ResourceId} {family : Family}
    (h : ofRoot links root = .ok family) : family.root = root := by
  rw [ofRoot_eq] at h
  split at h
  · cases h
  · obtain ⟨⟨properties, provenance⟩, -, h⟩ := bind_eq_ok_iff.mp h
    cases h
    rfl

namespace Families

variable {documents : Documents} {families : Families} {links : Links}

/-- Follow the links from a resource for a number of steps. -/
def follow (f : Families) : Nat → ResourceId → Option ResourceId
  | 0, id => some id
  | n + 1, id => (f.target? id).bind (f.follow n)

/-- The links from a resource lead to another one and no further. -/
def LeadsTo (f : Families) (id root : ResourceId) : Prop :=
  (∃ n, f.follow n id = some root) ∧ f.target? root = none

/-- Resolved families come from the links of the documents, one resource after the other. -/
lemma of_ofDocuments (h : ofDocuments documents = .ok families) :
    families.documents = documents ∧ Links.ofDocuments documents = .ok families.links ∧
      families.links.foldlM (addFamilyOf families.links) [] = .ok families.families := by
  obtain ⟨links, hlinks, h⟩ := bind_eq_ok_iff.mp h
  obtain ⟨found, hfound, h⟩ := bind_eq_ok_iff.mp h
  cases h
  exact ⟨rfl, hlinks, hfound⟩

lemma addFamilyOf_eq_ok {found next : List Family} {link : Link}
    (h : addFamilyOf links found link = .ok next) :
    ∃ root, links.root link.id = .ok root ∧
      ((∃ family ∈ found, family.root = root) ∧ next = found ∨
        (∀ family ∈ found, family.root ≠ root) ∧
          ∃ family, family.root = root ∧ next = found ++ [family]) := by
  obtain ⟨root, hroot, h⟩ := bind_eq_ok_iff.mp h
  refine ⟨root, hroot, ?_⟩
  split_ifs at h with hany
  · cases h
    exact .inl ⟨by simpa using hany, rfl⟩
  · obtain ⟨family, hfamily, h⟩ := bind_eq_ok_iff.mp h
    cases h
    exact .inr ⟨by simpa using hany, family, Family.root_of_ofRoot hfamily, rfl⟩

/-- No root has two families. -/
lemma nodup_roots (h : ofDocuments documents = .ok families) :
    (families.families.map Family.root).Nodup := by
  obtain ⟨-, -, hfound⟩ := of_ofDocuments h
  refine foldlM_invariant (fun found => (found.map Family.root).Nodup) List.nodup_nil ?_ hfound
  intro found link next _ hnodup hnext
  obtain ⟨root, -, ⟨-, rfl⟩ | ⟨hnew, family, rfl, rfl⟩⟩ := addFamilyOf_eq_ok hnext
  · exact hnodup
  · rw [List.map_append, List.nodup_append']
    refine ⟨hnodup, List.nodup_singleton _, ?_⟩
    simpa [List.disjoint_singleton] using fun family hfamily => hnew family hfamily

/-- Every resource that was gone through has a family, and families are never lost. -/
lemma exists_family_of_foldlM {rest : Links} {found last : List Family}
    (h : rest.foldlM (addFamilyOf links) found = .ok last) :
    (∀ family ∈ found, family ∈ last) ∧
      ∀ link ∈ rest, ∃ family ∈ last, links.root link.id = .ok family.root := by
  induction rest generalizing found with
  | nil =>
    cases h
    simp
  | cons link rest ih =>
    rw [List.foldlM_cons] at h
    obtain ⟨next, hnext, h⟩ := bind_eq_ok_iff.mp h
    obtain ⟨hkept, hrest⟩ := ih h
    obtain ⟨root, hroot, ⟨⟨family, hfamily, rfl⟩, rfl⟩ | ⟨-, family, rfl, rfl⟩⟩ :=
      addFamilyOf_eq_ok hnext
    · refine ⟨hkept, fun link' hlink' => ?_⟩
      rcases List.mem_cons.mp hlink' with rfl | hlink'
      · exact ⟨family, hkept family hfamily, hroot⟩
      · exact hrest link' hlink'
    · refine ⟨fun family' hfamily' => hkept family' (List.mem_append_left _ hfamily'),
        fun link' hlink' => ?_⟩
      rcases List.mem_cons.mp hlink' with rfl | hlink'
      · exact ⟨family, hkept family (List.mem_append_right _ (List.mem_singleton_self family)),
          hroot⟩
      · exact hrest link' hlink'

/-! ### Chains as walks -/

lemma target?_eq (hdocuments : documents.WellFormed) (h : ofDocuments documents = .ok families)
    (id : ResourceId) : families.target? id = documents.extended? id :=
  Links.target?_of_ofDocuments hdocuments (of_ofDocuments h).2.1 id

lemma extenders_eq (hdocuments : documents.WellFormed) (h : ofDocuments documents = .ok families)
    (id : ResourceId) : families.extenders id = documents.extenders id :=
  Links.extenders_of_ofDocuments hdocuments (of_ofDocuments h).2.1 id

lemma follow_eq_some_iff (hdocuments : documents.WellFormed)
    (h : ofDocuments documents = .ok families) {n : Nat} {id root : ResourceId} :
    families.follow n id = some root ↔ documents.Chain root n id := by
  induction n generalizing id with
  | zero =>
    rw [follow, Option.some.injEq]
    constructor
    · rintro rfl
      exact .root
    · rintro ⟨⟩
      rfl
  | succ n ih =>
    rw [follow, Option.bind_eq_some_iff]
    constructor
    · rintro ⟨target, htarget, hfollow⟩
      rw [target?_eq hdocuments h] at htarget
      exact .link htarget (ih.mp hfollow)
    · rintro (_ | ⟨htarget, hchain⟩)
      rw [← target?_eq hdocuments h] at htarget
      exact ⟨_, htarget, ih.mpr hchain⟩

lemma leadsTo_iff (hdocuments : documents.WellFormed) (h : ofDocuments documents = .ok families)
    {id root : ResourceId} : families.LeadsTo id root ↔
      (∃ n, documents.Chain root n id) ∧ documents.extended? root = none := by
  rw [LeadsTo, target?_eq hdocuments h]
  simp only [follow_eq_some_iff hdocuments h]

/-! ### Members -/

/-- The members of a family are the resources that lead to its root. -/
lemma mem_members_iff_leadsTo (hdocuments : documents.WellFormed)
    (h : ofDocuments documents = .ok families) {family : Family}
    (hfamily : family ∈ families.families) {id : ResourceId} :
    id ∈ family.members ↔ families.LeadsTo id family.root := by
  have hresolves := resolves hdocuments h hfamily
  rw [leadsTo_iff hdocuments h, hresolves.mem_members_iff hdocuments]
  exact ⟨fun hchain => ⟨hchain, hresolves.root_extends⟩, fun hleads => hleads.1⟩

lemma LeadsTo.unique (hdocuments : documents.WellFormed) (h : ofDocuments documents = .ok families)
    {id root other : ResourceId} (hroot : families.LeadsTo id root)
    (hother : families.LeadsTo id other) : root = other := by
  rw [leadsTo_iff hdocuments h] at hroot hother
  obtain ⟨⟨m, hm⟩, hrootless⟩ := hroot
  obtain ⟨⟨n, hn⟩, hotherless⟩ := hother
  exact hm.root_unique hn hrootless hotherless

lemma eq_of_root_eq (h : ofDocuments documents = .ok families) {family other : Family}
    (hfamily : family ∈ families.families) (hother : other ∈ families.families)
    (hroot : family.root = other.root) : family = other :=
  List.inj_on_of_nodup_map (nodup_roots h) hfamily hother hroot

lemma eq_of_mem_members (hdocuments : documents.WellFormed)
    (h : ofDocuments documents = .ok families) {family other : Family} {id : ResourceId}
    (hfamily : family ∈ families.families) (hother : other ∈ families.families)
    (hid : id ∈ family.members) (hid' : id ∈ other.members) : family = other := by
  rw [mem_members_iff_leadsTo hdocuments h] at hid hid'
  · exact eq_of_root_eq h hfamily hother (hid.unique hdocuments h hid')
  · exact hother
  · exact hfamily

theorem get?_eq_some_iff (hdocuments : documents.WellFormed)
    (h : ofDocuments documents = .ok families) {id : ResourceId} {family : Family} :
    families.get? id = some family ↔ family ∈ families.families ∧ id ∈ family.members := by
  rw [get?]
  constructor
  · intro hfind
    exact ⟨List.mem_of_find?_eq_some hfind, by simpa using List.find?_some hfind⟩
  · rintro ⟨hfamily, hid⟩
    cases hfind : families.families.find? fun family => family.members.contains id with
    | none =>
      have hnot := List.find?_eq_none.mp hfind family hfamily
      simp [hid] at hnot
    | some other =>
      have hother : id ∈ other.members := by simpa using List.find?_some hfind
      rw [eq_of_mem_members hdocuments h hfamily (List.mem_of_find?_eq_some hfind) hid hother]

lemma resolves_of_get? (hdocuments : documents.WellFormed)
    (h : ofDocuments documents = .ok families) {id : ResourceId} {family : Family}
    (hget : families.get? id = some family) :
    documents.Resolves family :=
  resolves hdocuments h ((get?_eq_some_iff hdocuments h).mp hget).1

theorem mem_resourceMap_iff (hdocuments : documents.WellFormed)
    (h : ofDocuments documents = .ok families) {id : ResourceId} {family : Family} :
    (id, family) ∈ families.resourceMap ↔ families.get? id = some family := by
  rw [get?_eq_some_iff hdocuments h]
  simp [resourceMap]

/-- Every resource leads to the root of its family. -/
theorem exists_get? (hdocuments : documents.WellFormed) (h : ofDocuments documents = .ok families)
    {id : ResourceId} (hid : id ∈ documents.ids) :
    ∃ family, families.get? id = some family ∧ families.LeadsTo id family.root := by
  obtain ⟨-, hlinks, hfound⟩ := of_ofDocuments h
  obtain ⟨body, hbody⟩ := (Documents.mem_ids_iff hdocuments).mp hid
  have hlink : Link.ofResource id body ∈ families.links := by
    rw [(Links.of_ofDocuments hlinks).1]
    exact List.mem_map.mpr ⟨_, (Documents.resource?_eq_some_iff hdocuments).mp hbody, rfl⟩
  obtain ⟨family, hfamily, hroot⟩ := (exists_family_of_foldlM hfound).2 _ hlink
  have hleads : families.LeadsTo id family.root := by
    refine (leadsTo_iff hdocuments h).mpr ⟨?_, (resolves hdocuments h hfamily).root_extends⟩
    exact Links.exists_chain_of_rootFrom hdocuments hlinks hroot
  refine ⟨family, ?_, hleads⟩
  rw [get?_eq_some_iff hdocuments h]
  exact ⟨hfamily, (mem_members_iff_leadsTo hdocuments h hfamily).mpr hleads⟩

lemma mem_ids_of_get? (hdocuments : documents.WellFormed)
    (h : ofDocuments documents = .ok families) {id : ResourceId} {family : Family}
    (hget : families.get? id = some family) : id ∈ documents.ids := by
  obtain ⟨hfamily, hid⟩ := (get?_eq_some_iff hdocuments h).mp hget
  have hresolves := resolves hdocuments h hfamily
  obtain ⟨n, hchain⟩ := (hresolves.mem_members_iff hdocuments).mp hid
  cases hchain with
  | root => exact hresolves.root_mem
  | link hextended =>
    exact List.mem_of_mem_filter ((Documents.mem_extenders_iff hdocuments).mpr hextended)

lemma nodup_keys_resourceMap (hdocuments : documents.WellFormed)
    (h : ofDocuments documents = .ok families) :
    (families.resourceMap.map Prod.fst).Nodup := by
  have hkeys : families.resourceMap.map Prod.fst = families.families.flatMap Family.members := by
    simp [resourceMap, List.map_flatMap, Function.comp_def]
  rw [hkeys, List.nodup_flatMap]
  constructor
  · intro family hfamily
    exact (resolves hdocuments h hfamily).nodup_members hdocuments
  · have hroots : families.families.Pairwise fun a b => a.root ≠ b.root :=
      List.pairwise_map.mp (nodup_roots h)
    refine hroots.imp_of_mem fun {a b} ha hb hne => ?_
    intro id hida hidb
    exact hne (congrArg Family.root (eq_of_mem_members hdocuments h ha hb hida hidb))

end Families

/-! ### Merged properties -/

namespace Documents

variable {documents : Documents}

lemma exists_object_ownProperties (hdocuments : documents.WellFormed) (id : ResourceId) :
    ∃ fs, documents.ownProperties id = .object fs ∧ Fields.Distinct fs := by
  have hwell := wellFormed_ownProperties hdocuments id
  have hobject : ∃ fs, documents.ownProperties id = .object fs := by
    unfold ownProperties
    cases documents.resource? id with
    | none => exact ⟨[], rfl⟩
    | some body =>
      rw [Option.map_some, Option.getD_some, Json.ownProperties]
      split
      · exact ⟨_, rfl⟩
      · exact ⟨[], rfl⟩
  obtain ⟨fs, hfs⟩ := hobject
  rw [hfs] at hwell
  exact ⟨fs, hfs, hwell.distinct⟩

/-- No rule makes anything but an object of the properties of a family. -/
lemma Resolves.exists_object_properties (hdocuments : documents.WellFormed) {family : Family}
    (h : documents.Resolves family) :
    ∃ fs, family.properties = .object fs ∧ Fields.Distinct fs := by
  refine foldlM_invariant (fun sofar => ∃ fs, sofar.1 = .object fs ∧ Fields.Distinct fs)
    (exists_object_ownProperties hdocuments family.root) ?_ h.merged
  rintro ⟨before, provenance⟩ id next - ⟨ts, rfl, hts⟩ hnext
  obtain ⟨⟨properties, changes⟩, hresult, hnext⟩ := bind_eq_ok_iff.mp hnext
  cases hnext
  obtain ⟨ss, hss, hdistinct⟩ := exists_object_ownProperties hdocuments id
  rw [hss] at hresult
  exact exists_object_of_merge hts hdistinct hresult

end Documents

namespace Families

variable {documents : Documents} {families : Families}

lemma perm_keys_resourceMap (hdocuments : documents.WellFormed)
    (h : ofDocuments documents = .ok families) :
    (families.resourceMap.map Prod.fst).Perm (documents.resources.map Prod.fst) := by
  refine (List.perm_ext_iff_of_nodup (nodup_keys_resourceMap hdocuments h)
    (Documents.nodup_ids hdocuments)).mpr fun id => ?_
  constructor
  · intro hid
    obtain ⟨⟨_, family⟩, hmem, rfl⟩ := List.mem_map.mp hid
    exact mem_ids_of_get? hdocuments h ((mem_resourceMap_iff hdocuments h).mp hmem)
  · intro hid
    obtain ⟨family, hget, -⟩ := exists_get? hdocuments h hid
    exact List.mem_map.mpr ⟨_, (mem_resourceMap_iff hdocuments h).mpr hget, rfl⟩

/-- Two resources have one family exactly if they lead to one root. -/
lemma get?_eq_get?_iff (hdocuments : documents.WellFormed)
    (h : ofDocuments documents = .ok families) {a b : ResourceId}
    (ha : a ∈ documents.resources.map Prod.fst) (hb : b ∈ documents.resources.map Prod.fst) :
    families.get? a = families.get? b ↔
      ∃ root, families.LeadsTo a root ∧ families.LeadsTo b root := by
  obtain ⟨family, hget, hleads⟩ := exists_get? hdocuments h ha
  obtain ⟨other, hget', hleads'⟩ := exists_get? hdocuments h hb
  rw [hget, hget', Option.some.injEq]
  constructor
  · rintro rfl
    exact ⟨family.root, hleads, hleads'⟩
  · rintro ⟨root, hroot, hroot'⟩
    refine eq_of_root_eq h ((get?_eq_some_iff hdocuments h).mp hget).1
      ((get?_eq_some_iff hdocuments h).mp hget').1 ?_
    rw [hleads.unique hdocuments h hroot, hleads'.unique hdocuments h hroot']

/-- Families partition the resources. Each resource is listed once, together with the family that it
is found to have. That is the family of the only root that the links from it lead to, a resource
without an extend declaration. So two resources share their family exactly if they lead to one root,
and every root has one family only. Backward links are forward links turned around, and merged
properties are an object. -/
theorem partition_resources (hdocuments : documents.WellFormed)
    (h : ofDocuments documents = .ok families) :
    families.documents = documents ∧
    (families.resourceMap.map Prod.fst).Nodup ∧
    (families.resourceMap.map Prod.fst).Perm (documents.resources.map Prod.fst) ∧
    (∀ id family, (id, family) ∈ families.resourceMap ↔ families.get? id = some family) ∧
    (∀ id ∈ documents.resources.map Prod.fst, ∃ root body family,
      (∃ n, families.follow n id = some root) ∧ families.target? root = none ∧
      documents.resource? root = some body ∧ body.field? "Extend" = none ∧
      families.get? id = some family ∧ family.root = root) ∧
    (∀ a ∈ documents.resources.map Prod.fst, ∀ b ∈ documents.resources.map Prod.fst,
      families.get? a = families.get? b ↔
        ∃ root, families.LeadsTo a root ∧ families.LeadsTo b root) ∧
    (families.families.map Family.root).Nodup ∧
    (∀ x y, y ∈ families.extenders x ↔ families.target? y = some x) ∧
    (∀ x, (families.extenders x).Nodup) ∧
    ∀ id family, families.get? id = some family →
      ∃ fs, family.resource.field? "Properties" = some (.object fs) := by
  refine ⟨(of_ofDocuments h).1, nodup_keys_resourceMap hdocuments h,
    perm_keys_resourceMap hdocuments h, fun id family => mem_resourceMap_iff hdocuments h, ?_,
    fun a ha b hb => get?_eq_get?_iff hdocuments h ha hb, nodup_roots h, ?_, ?_, ?_⟩
  · intro id hid
    obtain ⟨family, hget, hfollow, htarget⟩ := exists_get? hdocuments h hid
    have hresolves := resolves_of_get? hdocuments h hget
    obtain ⟨fs, hbody, -⟩ := hresolves.resource
    refine ⟨family.root, .object fs, family, hfollow, htarget, hbody, ?_, hget, rfl⟩
    exact Links.extend_eq_none_of_extended? hdocuments (of_ofDocuments h).2.1 hbody
      hresolves.root_extends
  · intro x y
    rw [extenders_eq hdocuments h, target?_eq hdocuments h, Documents.mem_extenders_iff hdocuments]
  · intro x
    rw [extenders_eq hdocuments h]
    exact (Documents.nodup_ids hdocuments).filter _
  · intro id family hget
    obtain ⟨hfamily, -⟩ := (get?_eq_some_iff hdocuments h).mp hget
    have hresolves := resolves hdocuments h hfamily
    obtain ⟨fs, hfs, -⟩ := hresolves.exists_object_properties hdocuments
    obtain ⟨gs, -, hresource⟩ := hresolves.resource
    rw [hresource, hfs]
    exact ⟨fs, by simp [Json.field?, Json.asObject?]⟩

/-- A chain of two links under rules for whole property objects, beside a resource on its own. -/
theorem partition_resources_chain :
    let documents : Documents :=
      [("app", ⟨.object [("Resources", .object
          [("far", .object
            [("Extend", .object [("module", .string "base"), ("resource", .string "near"),
              ("rules", .object [("", .string "REPLACE")])]),
            ("Properties", .object [("A", .string "far")])]),
          ("alone", .object [("Properties", .null)])])], none⟩),
        ("base", ⟨.object [("Resources", .object
          [("near", .object [("Extend", .object [("resource", .string "root"),
              ("rules", .object [("", .string "COMBINE")])]),
            ("Properties", .object [("B", .string "near")])]),
          ("root", .object [("Type", .string "T")])])], none⟩)]
    let far : ResourceId := ⟨"app", "far"⟩
    let root : ResourceId := ⟨"base", "root"⟩
    documents.WellFormed ∧ ∃ families, ofDocuments documents = .ok families ∧
      families.LeadsTo far root ∧ families.LeadsTo root root ∧
      families.get? far = families.get? root ∧
      families.get? far ≠ families.get? ⟨"app", "alone"⟩ ∧
      far ∈ families.extenders ⟨"base", "near"⟩ ∧
      ∃ family fs, families.get? far = some family ∧
        family.resource.field? "Properties" = some (.object fs) := by
  intro documents far root
  have hdocuments : documents.WellFormed := by decide
  have hlinks : Links.ofDocuments documents = .ok
      [documents.linkTo far (some ⟨"base", "near"⟩) [([], .replace)],
        documents.linkTo ⟨"app", "alone"⟩ none [],
        documents.linkTo ⟨"base", "near"⟩ (some root) [([], .combine)],
        documents.linkTo root none []] := rfl
  have hresult : (ofDocuments documents).map (fun families =>
      (families.families.map Family.root, families.target? far, families.target? root,
        families.target? ⟨"base", "near"⟩, families.target? ⟨"app", "alone"⟩)) =
      .ok ([root, ⟨"app", "alone"⟩], some ⟨"base", "near"⟩, none, some root, none) := by
    rw [ofDocuments_of_links hlinks]
    cbv
  obtain ⟨families, h, hshape⟩ := map_eq_ok_iff.mp hresult
  simp only [Prod.mk.injEq] at hshape
  obtain ⟨-, hfar, hroot, hnear, halone⟩ := hshape
  obtain ⟨-, -, -, -, hreach, hshared, -, hextenders, -, hobject⟩ :=
    partition_resources hdocuments h
  have hleads : families.LeadsTo far root := ⟨⟨2, by simp [follow, hfar, hnear]⟩, hroot⟩
  have hself : families.LeadsTo root root := ⟨⟨0, rfl⟩, hroot⟩
  have hother : families.LeadsTo ⟨"app", "alone"⟩ ⟨"app", "alone"⟩ :=
    ⟨⟨0, rfl⟩, halone⟩
  refine ⟨hdocuments, families, h, hleads, hself, ?_, ?_, (hextenders _ far).mpr hfar, ?_⟩
  · exact (hshared far (by decide) root (by decide)).mpr ⟨root, hleads, hself⟩
  · rw [Ne, hshared far (by decide) _ (by decide)]
    rintro ⟨end', hend, hend'⟩
    have heq := hleads.unique hdocuments h hend
    rw [← heq] at hend'
    exact absurd (hother.unique hdocuments h hend') (by decide)
  · obtain ⟨-, -, family, -, -, -, -, hget, -⟩ := hreach far (by decide)
    obtain ⟨fs, hfs⟩ := hobject far family hget
    exact ⟨family, fs, hget, hfs⟩

end Families

end ModularTemplates
