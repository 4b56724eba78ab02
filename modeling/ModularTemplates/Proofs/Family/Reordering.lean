import Mathlib.Tactic.Lemma
import ModularTemplates.Proofs.Family.Acceptance
import ModularTemplates.Proofs.Family.KeyByKey
import ModularTemplates.Proofs.Merge.WellFormed

/-!
# Reordering modules

The order of the modules decides about the order in which the members of a family are merged. If the
extenders of a root share no key and no rule is about the properties as a whole, it decides about
nothing else: the documents are accepted in every order or in none, and the families come out alike.
-/

namespace ModularTemplates

namespace Documents

variable {documents documents' : Documents}

/-! ### The same resources -/

/-- Both sets of documents have the same resources, listed in some order. -/
structure SameResources (documents documents' : Documents) : Prop where
  found : documents.resource? = documents'.resource?
  listed : documents.resources.Perm documents'.resources

lemma WellFormed.perm (hdocuments : documents.WellFormed) (h : documents.Perm documents') :
    documents'.WellFormed :=
  ⟨(h.map Prod.fst).nodup_iff.mp hdocuments.distinct,
    fun entry hentry => hdocuments.document entry (h.mem_iff.mpr hentry)⟩

lemma SameResources.of_perm (hdocuments : documents.WellFormed) (h : documents.Perm documents') :
    SameResources documents documents' := by
  refine ⟨funext fun id => ?_, h.flatMap_right _⟩
  rw [resource?, resource?, hdocuments.distinct.get?_perm h]

namespace SameResources

variable (h : SameResources documents documents')

include h

lemma symm : SameResources documents' documents :=
  ⟨h.found.symm, h.listed.symm⟩

lemma mem_ids_iff {id : ResourceId} : id ∈ documents.ids ↔ id ∈ documents'.ids :=
  (h.listed.map Prod.fst).mem_iff

lemma extended?_eq : documents.extended? = documents'.extended? := by
  unfold extended? declaration?
  rw [h.found]

lemma rulesOf_eq : documents.rulesOf = documents'.rulesOf := by
  unfold rulesOf declaration?
  rw [h.found]

lemma ownProperties_eq : documents.ownProperties = documents'.ownProperties := by
  unfold ownProperties
  rw [h.found]

lemma contribute_eq : documents.contribute = documents'.contribute := by
  unfold contribute
  rw [h.rulesOf_eq, h.ownProperties_eq]

lemma chain {root id : ResourceId} {n : Nat} (hchain : documents.Chain root n id) :
    documents'.Chain root n id := by
  induction hchain with
  | root => exact .root
  | link hextended _ ih => exact .link (h.extended?_eq ▸ hextended) ih

lemma chain_iff {root id : ResourceId} {n : Nat} :
    documents.Chain root n id ↔ documents'.Chain root n id :=
  ⟨h.chain, h.symm.chain⟩

/-- Lists of what is merged into a root differ in their order only. -/
lemma perm_of_chains {root : ResourceId} {members members' : List ResourceId}
    (hnodup : members.Nodup) (hnodup' : members'.Nodup)
    (hmem : ∀ id, id ∈ members ↔ ∃ n, documents.Chain root (n + 1) id)
    (hmem' : ∀ id, id ∈ members' ↔ ∃ n, documents'.Chain root (n + 1) id) :
    members.Perm members' := by
  refine (List.perm_ext_iff_of_nodup hnodup hnodup').mpr fun id => ?_
  rw [hmem, hmem']
  simp only [h.chain_iff]

end SameResources

/-! ### Independent extenders -/

/-- A resource is merged into a root: a chain of links leads from it to a resource that
extends nothing. -/
def MergedInto (documents : Documents) (root id : ResourceId) : Prop :=
  root ∈ documents.ids ∧ documents.extended? root = none ∧
    ∃ n, documents.Chain root (n + 1) id

/-- No two resources that are merged into one root have a key in common, and no rule is about the
properties as a whole. -/
structure Independent (documents : Documents) : Prop where
  keys : ∀ root a b, documents.MergedInto root a → documents.MergedInto root b → a ≠ b →
    ∀ key, (documents.ownProperties a).field? key = none ∨
      (documents.ownProperties b).field? key = none
  rules : ∀ id, ∀ rule ∈ documents.rulesOf id, rule.1 ≠ []

lemma Independent.of_same (hindependent : documents.Independent)
    (h : SameResources documents documents') :
    documents'.Independent := by
  have hmerged : ∀ root id, documents'.MergedInto root id → documents.MergedInto root id := by
    rintro root id ⟨hroot, hextended, n, hchain⟩
    exact ⟨h.mem_ids_iff.mpr hroot, h.extended?_eq ▸ hextended, n, h.chain_iff.mpr hchain⟩
  refine ⟨fun root a b ha hb hne => ?_, h.rulesOf_eq ▸ hindependent.rules⟩
  rw [← h.ownProperties_eq]
  exact hindependent.keys root a b (hmerged root a ha) (hmerged root b hb) hne

/-- It is enough that no two extenders at all have a key in common. -/
lemma Independent.of_segments (hdocuments : documents.WellFormed)
    (hkeys : ∀ a ∈ documents.ids, ∀ b ∈ documents.ids, a ≠ b →
      documents.extended? a ≠ none → documents.extended? b ≠ none →
        ∀ seg ∈ (documents.ownProperties a).segments,
          seg ∉ (documents.ownProperties b).segments)
    (hrules : ∀ id ∈ documents.ids, ∀ rule ∈ documents.rulesOf id, rule.1 ≠ []) :
    documents.Independent := by
  have hextends : ∀ root id, documents.MergedInto root id →
      id ∈ documents.ids ∧ documents.extended? id ≠ none := by
    rintro root id ⟨-, -, n, hchain⟩
    cases hchain with
    | link hextended rest =>
      exact ⟨List.mem_of_mem_filter
        ((mem_extenders_iff hdocuments).mpr hextended), by simp [hextended]⟩
  constructor
  · intro root a b ha hb hne key
    obtain ⟨ha, haextends⟩ := hextends root a ha
    obtain ⟨hb, hbextends⟩ := hextends root b hb
    by_contra hboth
    rw [not_or, ← Json.child?_key, ← Json.child?_key, ← ne_eq, Option.ne_none_iff_exists',
      ← ne_eq, Option.ne_none_iff_exists', ← Json.mem_segments_iff,
      ← Json.mem_segments_iff] at hboth
    exact hkeys a ha b hb hne haextends hbextends _ hboth.1 hboth.2
  · intro id
    cases hbody : documents.resource? id with
    | none => simp [rulesOf, declaration?, hbody]
    | some body => exact hrules id ((mem_ids_iff hdocuments).mpr ⟨body, hbody⟩)

/-- Of any two resources that are merged into a root at most one contributes under a key. -/
lemma Independent.pairwise (hindependent : documents.Independent) {root : ResourceId}
    {members : List ResourceId} (hmembers : ∀ id ∈ members, documents.MergedInto root id)
    (hnodup : members.Nodup) (owner : ResourceId) (key : String) :
    members.Pairwise fun a b => (∀ part, documents.contributeAt owner key part a = .ok part) ∨
      ∀ part, documents.contributeAt owner key part b = .ok part := by
  refine hnodup.imp_of_mem fun {a b} ha hb hne => ?_
  have hkeys := hindependent.keys root a b (hmembers a ha) (hmembers b hb) hne key
  rw [← Json.child?_key, ← Json.child?_key] at hkeys
  rcases hkeys with hnone | hnone
  · exact .inl (contributeAt_of_none hnone owner)
  · exact .inr (contributeAt_of_none hnone owner)

/-- Independent resources can be merged in every order, and every key comes out the same. -/
theorem Independent.exists_foldlM_perm (hindependent : documents.Independent)
    (hdocuments : documents.WellFormed) {root : ResourceId} {members members' : List ResourceId}
    (hmembers : ∀ id ∈ members, documents.MergedInto root id) (hnodup : members.Nodup)
    (hperm : members.Perm members') {sofar last : Json × Provenance} (hopen : Open sofar)
    (h : members.foldlM documents.contribute sofar = .ok last) :
    ∃ last', members'.foldlM documents.contribute sofar = .ok last' ∧ Open last ∧
      Open last' ∧
      last.2.owner = last'.2.owner ∧ ∀ key, Part.of key last = Part.of key last' := by
  have hrules : ∀ members : List ResourceId, ∀ id ∈ members,
      ∀ rule ∈ documents.rulesOf id, rule.1 ≠ [] :=
    fun _ id _ => hindependent.rules id
  obtain ⟨hlast, howner, hparts⟩ := foldlM_contribute_parts hdocuments (hrules members) hopen h
  have hparts' :
    ∀ key, members'.foldlM (documents.contributeAt sofar.2.owner key) (.of key sofar) =
      .ok (.of key last) := by
    intro key
    rw [← foldlM_perm hperm (hindependent.pairwise hmembers hnodup sofar.2.owner key)]
    exact hparts key
  -- every key can be merged in the other order too, so the members can
  obtain ⟨last', h'⟩ := exists_foldlM_contribute hdocuments (hrules members') hopen
    fun key => ⟨_, hparts' key⟩
  obtain ⟨hlast', howner', hparts''⟩ :=
    foldlM_contribute_parts hdocuments (hrules members') hopen h'
  refine ⟨last', h', hlast, hlast', howner.trans howner'.symm, fun key => ?_⟩
  exact Except.ok.inj ((hparts' key).symm.trans (hparts'' key))

end Documents

/-! ### Acceptance -/

section Acceptance

variable {documents documents' : Documents} {links links' : Links} {root : ResourceId}

lemma Links.Linkable.of_same (h : documents.SameResources documents') {id : ResourceId}
    {body : Json} (hlinkable : Linkable documents id body) : Linkable documents' id body :=
  ⟨hlinkable.1, hlinkable.2.1,
    fun target htarget => h.mem_ids_iff.mp (hlinkable.2.2 target htarget)⟩

lemma Links.perm_map_id_members (h : documents.SameResources documents')
    (hdocuments : documents.WellFormed) (hdocuments' : documents'.WellFormed)
    (hlinks : ofDocuments documents = .ok links) (hlinks' : ofDocuments documents' = .ok links')
    (hroot : documents.extended? root = none) (hmem : root ∈ documents.ids) :
    ((links.members root).map Link.id).Perm ((links'.members root).map Link.id) := by
  have hroot' : documents'.extended? root = none := h.extended?_eq ▸ hroot
  have hmem' := h.mem_ids_iff.mp hmem
  exact h.perm_of_chains (nodup_map_id_members hdocuments hlinks hroot hmem)
    (nodup_map_id_members hdocuments' hlinks' hroot' hmem')
    (fun _ => mem_map_id_members_iff hdocuments hlinks hroot hmem)
    (fun _ => mem_map_id_members_iff hdocuments' hlinks' hroot' hmem')

/-- The members of a root are the same links in all orders. -/
lemma Links.mem_members_of_same (h : documents.SameResources documents')
    (hdocuments : documents.WellFormed) (hdocuments' : documents'.WellFormed)
    (hlinks : ofDocuments documents = .ok links) (hlinks' : ofDocuments documents' = .ok links')
    (hroot : documents.extended? root = none) (hmem : root ∈ documents.ids) {link : Link}
    (hlink : link ∈ links'.members root) : link ∈ links.members root := by
  have hperm := perm_map_id_members h hdocuments hdocuments' hlinks hlinks' hroot hmem
  obtain ⟨other, hother, hid⟩ := List.mem_map.mp (hperm.mem_iff.mpr (List.mem_map_of_mem hlink))
  obtain ⟨body, hbody, heq⟩ := exists_resource_of_mem_members hdocuments hlinks hother
  obtain ⟨body', hbody', heq'⟩ := exists_resource_of_mem_members hdocuments' hlinks' hlink
  rw [← h.found, ← hid, hbody] at hbody'
  cases hbody'
  rw [heq', ← hid, ← heq]
  exact hother

lemma Family.exists_ofRoot_of_same (h : documents.SameResources documents')
    (hdocuments : documents.WellFormed) (hdocuments' : documents'.WellFormed)
    (hindependent : documents.Independent) (hlinks : Links.ofDocuments documents = .ok links)
    (hlinks' : Links.ofDocuments documents' = .ok links') {id : ResourceId} {family : Family}
    (hroot : links.root id = .ok root) (hfamily : ofRoot links root = .ok family) :
    ∃ family', ofRoot links' root = .ok family' := by
  obtain ⟨rfl, hresolves⟩ := resolves_of_ofRoot hdocuments hlinks hroot hfamily
  have hmem := hresolves.root_mem
  have hextended := hresolves.root_extends
  obtain ⟨body, hbody⟩ := (Documents.mem_ids_iff hdocuments).mp hmem
  obtain ⟨htypes, merged, hmerged⟩ :=
    (exists_ofRoot_iff hdocuments hlinks hbody).mp ⟨family, hfamily⟩
  rw [exists_ofRoot_iff hdocuments' hlinks' (h.found ▸ hbody), ← h.contribute_eq,
    ← h.ownProperties_eq]
  refine ⟨fun link hlink => htypes link
    (Links.mem_members_of_same h hdocuments hdocuments' hlinks hlinks' hextended hmem hlink), ?_⟩
  obtain ⟨merged', hmerged', -⟩ := hindependent.exists_foldlM_perm hdocuments
    (fun id hid => ⟨hmem, hextended,
      (Links.mem_map_id_members_iff hdocuments hlinks hextended hmem).mp hid⟩)
    (Links.nodup_map_id_members hdocuments hlinks hextended hmem)
    (Links.perm_map_id_members h hdocuments hdocuments' hlinks hlinks' hextended hmem)
    (Documents.open_root hdocuments family.root) hmerged
  exact ⟨merged', hmerged'⟩

lemma Families.exists_ofDocuments_of_same (h : documents.SameResources documents')
    (hdocuments : documents.WellFormed) (hdocuments' : documents'.WellFormed)
    (hindependent : documents.Independent)
    (haccepted : ∃ families, ofDocuments documents = .ok families) :
    ∃ families', ofDocuments documents' = .ok families' := by
  obtain ⟨links, hlinks, hroots⟩ := exists_ofDocuments_iff.mp haccepted
  obtain ⟨links', hlinks'⟩ := Links.exists_ofDocuments_iff.mpr fun id body hmem =>
    (Links.exists_ofDocuments_iff.mp ⟨links, hlinks⟩ id body
      (h.listed.mem_iff.mpr hmem)).of_same h
  refine exists_ofDocuments_iff.mpr ⟨links', hlinks', fun link hlink => ?_⟩
  have hsame : links.Perm links' := by
    rw [(Links.of_ofDocuments hlinks).1, (Links.of_ofDocuments hlinks').1]
    exact h.listed.map _
  obtain ⟨root, hroot, family, hfamily⟩ := hroots link (hsame.mem_iff.mpr hlink)
  have htargets : ∀ id, links'.target? id = links.target? id := by
    intro id
    rw [Links.target?_of_ofDocuments hdocuments hlinks,
      Links.target?_of_ofDocuments hdocuments' hlinks', h.extended?_eq]
  exact ⟨root, (Links.rootFrom_congr htargets).trans hroot,
    Family.exists_ofRoot_of_same h hdocuments hdocuments' hindependent hlinks hlinks'
      hroot hfamily⟩

end Acceptance

/-! ### Families in another order -/

/-- Two families have one root, under every key of their properties the same value, and the same
answer to every question about provenance. -/
structure Family.Alike (family other : Family) : Prop where
  root : family.root = other.root
  value : ∀ key, family.properties.field? key = other.properties.field? key
  same : family.properties.same other.properties = true
  source : ∀ p, family.provenance.source p = other.provenance.source p

namespace Families

variable {documents documents' : Documents} {families families' : Families}

lemma alike_of_parts {family other : Family} (hroot : family.root = other.root)
    (hfamily : Open (family.properties, family.provenance))
    (hother : Open (other.properties, other.provenance)) (hwell : family.properties.WellFormed)
    (howner : family.provenance.owner = other.provenance.owner)
    (hparts : ∀ key, Part.of key (family.properties, family.provenance) =
      Part.of key (other.properties, other.provenance)) : family.Alike other := by
  have hvalue : ∀ key, family.properties.field? key = other.properties.field? key := by
    intro key
    rw [← Json.child?_key, ← Json.child?_key]
    exact congrArg Part.value? (hparts key)
  refine ⟨hroot, hvalue, ?_, fun p => hfamily.records.source_eq hother.records howner
    (fun key => congrArg Part.record? (hparts key)) p⟩
  obtain ⟨fs, hfs, -⟩ := hfamily.properties
  obtain ⟨gs, hgs, hdistinct⟩ := hother.properties
  change family.properties = .object fs at hfs
  change other.properties = .object gs at hgs
  rw [hfs, hgs] at hvalue ⊢
  exact Json.same_object (hfs ▸ hwell) hdistinct hvalue

/-- The families of one root are alike. -/
lemma alike_of_root_eq (h : documents.SameResources documents') (hdocuments : documents.WellFormed)
    (hdocuments' : documents'.WellFormed) (hindependent : documents.Independent)
    {family other : Family} (hfamily : documents.Resolves family)
    (hother : documents'.Resolves other) (hroot : family.root = other.root) :
    family.Alike other := by
  have hnodup := (hfamily.nodup_members hdocuments).sublist (List.tail_sublist _)
  have hperm : family.members.tail.Perm other.members.tail :=
    h.perm_of_chains hnodup ((hother.nodup_members hdocuments').sublist (List.tail_sublist _))
      (fun _ => hfamily.mem_tail_members_iff hdocuments)
      fun _ => hroot ▸ hother.mem_tail_members_iff hdocuments'
  obtain ⟨last, hlast, hopen, hopen', howner, hparts⟩ :=
    hindependent.exists_foldlM_perm hdocuments
      (fun id hid => ⟨hfamily.root_mem, hfamily.root_extends,
        (hfamily.mem_tail_members_iff hdocuments).mp hid⟩)
      hnodup hperm (Documents.open_root hdocuments family.root) hfamily.merged
  -- the other family is what merging its members in their own order gives
  have hmerged := hother.merged
  rw [← h.contribute_eq, ← h.ownProperties_eq, ← hroot, hlast] at hmerged
  cases hmerged
  exact alike_of_parts hroot hopen hopen' (hfamily.wellFormed_properties hdocuments) howner hparts

/-- Independent extenders commute. Reordered modules are accepted exactly if the modules are, and
then every resource belongs to alike families. -/
theorem reordered_modules (hdocuments : documents.WellFormed) (hperm : documents.Perm documents')
    (hindependent : documents.Independent) :
    ((∃ families, ofDocuments documents = .ok families) ↔
      ∃ families', ofDocuments documents' = .ok families') ∧
    ∀ families families', ofDocuments documents = .ok families →
      ofDocuments documents' = .ok families' →
      ∀ id ∈ documents.ids, ∃ family family', families.get? id = some family ∧
        families'.get? id = some family' ∧ family.Alike family' := by
  have h := Documents.SameResources.of_perm hdocuments hperm
  have hdocuments' := hdocuments.perm hperm
  refine ⟨⟨exists_ofDocuments_of_same h hdocuments hdocuments' hindependent,
    exists_ofDocuments_of_same h.symm hdocuments' hdocuments (hindependent.of_same h)⟩, ?_⟩
  intro families families' hok hok' id hid
  obtain ⟨family, hget, hleads⟩ := exists_get? hdocuments hok hid
  obtain ⟨family', hget', hleads'⟩ := exists_get? hdocuments' hok' (h.mem_ids_iff.mp hid)
  refine ⟨family, family', hget, hget', ?_⟩
  obtain ⟨⟨m, hchain⟩, hextended⟩ := (leadsTo_iff hdocuments hok).mp hleads
  obtain ⟨⟨n, hchain'⟩, hextended'⟩ := (leadsTo_iff hdocuments' hok').mp hleads'
  have hroot :=
    hchain.root_unique (h.chain_iff.mpr hchain') hextended (h.extended?_eq ▸ hextended')
  exact alike_of_root_eq h hdocuments hdocuments' hindependent
    (resolves hdocuments hok ((get?_eq_some_iff hdocuments hok).mp hget).1)
    (resolves hdocuments' hok' ((get?_eq_some_iff hdocuments' hok').mp hget').1) hroot

/-- One extender adds items and another one sets what the root has. The members are merged in
another order. -/
theorem reordered_modules_extenders :
    let base : String × ModuleDocument :=
      ("base", ⟨.object [("Resources", .object
        [("root", .object [("Properties", .object
          [("C", .string "root"), ("L", .array [.string "root"])])])])], none⟩)
    let one : String × ModuleDocument :=
      ("one", ⟨.object [("Resources", .object
        [("a", .object
          [("Extend", .object [("module", .string "base"), ("resource", .string "root"),
            ("rules", .object [("L", .string "APPEND")])]),
          ("Properties", .object [("L", .array [.string "a"]), ("D", .null)])])])], none⟩)
    let two : String × ModuleDocument :=
      ("two", ⟨.object [("Resources", .object
        [("b", .object
          [("Extend", .object [("module", .string "base"), ("resource", .string "root")]),
          ("Properties", .object [("C", .string "b"), ("E", .null)])])])], none⟩)
    let documents : Documents := [base, one, two]
    let reordered : Documents := [two, one, base]
    let id : ResourceId := ⟨"one", "a"⟩
    documents.WellFormed ∧ documents.Perm reordered ∧ documents.Independent ∧
      ∃ families families' family family', ofDocuments documents = .ok families ∧
        ofDocuments reordered = .ok families' ∧ families.get? id = some family ∧
        families'.get? id = some family' ∧ family.members ≠ family'.members ∧
        family.Alike family' := by
  intro base one two documents reordered id
  have hdocuments : documents.WellFormed := by decide
  have hperm : documents.Perm reordered := (List.reverse_perm documents).symm
  have hindependent : documents.Independent :=
    .of_segments hdocuments (by decide) (by decide)
  let root := documents.linkTo ⟨"base", "root"⟩ none []
  let first := documents.linkTo id (some ⟨"base", "root"⟩) [([.key "L"], .append)]
  let second := documents.linkTo ⟨"two", "b"⟩ (some ⟨"base", "root"⟩) []
  have hlinks : Links.ofDocuments documents = .ok [root, first, second] := rfl
  have hlinks' : Links.ofDocuments reordered = .ok [second, first, root] := rfl
  have hmembers :
      (ofDocuments documents).map (fun families => (families.get? id).map Family.members) =
        .ok (some [⟨"base", "root"⟩, id, ⟨"two", "b"⟩]) := by
    rw [ofDocuments_of_links hlinks]
    cbv
  have hmembers' :
      (ofDocuments reordered).map (fun families => (families.get? id).map Family.members) =
        .ok (some [⟨"base", "root"⟩, ⟨"two", "b"⟩, id]) := by
    rw [ofDocuments_of_links hlinks']
    cbv
  obtain ⟨families, h, hmembers⟩ := map_eq_ok_iff.mp hmembers
  obtain ⟨-, halike⟩ := reordered_modules hdocuments hperm hindependent
  obtain ⟨families', h', hmembers'⟩ := map_eq_ok_iff.mp hmembers'
  obtain ⟨family, family', hget, hget', halike⟩ := halike families families' h h' id (by decide)
  refine ⟨hdocuments, hperm, hindependent, families, families', family, family', h, h',
    hget, hget', ?_, halike⟩
  rw [hget] at hmembers
  rw [hget'] at hmembers'
  rw [Option.some.inj hmembers, Option.some.inj hmembers']
  decide

end Families

end ModularTemplates
