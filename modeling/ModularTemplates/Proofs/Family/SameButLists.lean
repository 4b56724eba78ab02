import Mathlib.Tactic.Lemma
import ModularTemplates.Proofs.Family.Locality
import ModularTemplates.Proofs.Provenance.SameButList

/-!
# Families that are the same but for a list

Two sets of documents may hold the same resources but for the lists at a path of keys below the
properties. Extending takes no notice of the items of these lists: the families have the same roots,
the same members and the same properties but for the list.
-/

namespace ModularTemplates

lemma Json.SameButList.ownProperties {keys : List String} {body body' : Json}
    (h : SameButList ("Properties" :: keys) body body') :
    SameButList keys body.ownProperties body'.ownProperties := by
  have hproperties := h.field?
  unfold Json.ownProperties
  generalize body.field? "Properties" = v, body'.field? "Properties" = w at hproperties
  cases hproperties with
  | none => exact .refl keys _
  | some h =>
    cases keys with
    | nil =>
      rcases h with rfl | ⟨xs, ys, rfl, rfl⟩
      · exact .refl [] _
      · exact .refl [] _
    | cons key keys =>
      rcases h with rfl | ⟨fs, gs, rfl, rfl, h⟩
      · exact .refl _ _
      · exact .of_fields h

namespace Documents

variable {documents documents' : Documents} {keys : List String}

/-- The same resources in the same order, but for the lists at a path of keys below
their properties. -/
def SameButLists (keys : List String) (documents documents' : Documents) : Prop :=
  List.Forall₂ (fun r r' => r'.1 = r.1 ∧ Json.SameButList ("Properties" :: keys) r.2 r'.2)
    documents.resources documents'.resources

namespace SameButLists

variable (h : SameButLists keys documents documents')

include h

lemma ids_eq : documents'.ids = documents.ids := by
  unfold SameButLists at h
  rw [ids, ids]
  generalize documents.resources = rs, documents'.resources = rs' at h
  induction h with
  | nil => rfl
  | cons hr _ ih => rw [List.map_cons, List.map_cons, hr.1, ih]

lemma resource? (hdocuments : documents.WellFormed) (hdocuments' : documents'.WellFormed)
    (id : ResourceId) :
    Option.Rel (Json.SameButList ("Properties" :: keys)) (documents.resource? id)
      (documents'.resource? id) := by
  cases hbody : documents.resource? id with
  | some body =>
    rw [resource?_eq_some_iff hdocuments] at hbody
    obtain ⟨⟨_, body'⟩, hbody', rfl, hsame⟩ := exists_mem_of_forall₂ h _ hbody
    rw [← resource?_eq_some_iff hdocuments'] at hbody'
    rw [hbody']
    exact .some hsame
  | none =>
    have hmissing : id ∉ documents'.ids := by
      rw [h.ids_eq, mem_ids_iff hdocuments, hbody]
      simp
    rw [mem_ids_iff hdocuments', not_exists, ← Option.eq_none_iff_forall_ne_some] at hmissing
    rw [hmissing]
    exact .none

lemma declaration?_eq (hdocuments : documents.WellFormed) (hdocuments' : documents'.WellFormed)
    (id : ResourceId) : documents'.declaration? id = documents.declaration? id := by
  have hbody := h.resource? hdocuments hdocuments' id
  unfold declaration?
  generalize documents.resource? id = v, documents'.resource? id = w at hbody
  cases hbody with
  | none => rfl
  | some hbody =>
    rw [Option.bind_some, Option.bind_some, Json.declaration?, Json.declaration?,
      hbody.field?_of_ne (by decide)]

lemma extended?_eq (hdocuments : documents.WellFormed) (hdocuments' : documents'.WellFormed)
    (id : ResourceId) : documents'.extended? id = documents.extended? id := by
  rw [extended?, extended?, h.declaration?_eq hdocuments hdocuments']

lemma rulesOf_eq (hdocuments : documents.WellFormed) (hdocuments' : documents'.WellFormed)
    (id : ResourceId) : documents'.rulesOf id = documents.rulesOf id := by
  rw [rulesOf, rulesOf, h.declaration?_eq hdocuments hdocuments']

lemma ownProperties (hdocuments : documents.WellFormed) (hdocuments' : documents'.WellFormed)
    (id : ResourceId) :
    Json.SameButList keys (documents.ownProperties id) (documents'.ownProperties id) := by
  have hbody := h.resource? hdocuments hdocuments' id
  unfold Documents.ownProperties
  generalize documents.resource? id = v, documents'.resource? id = w at hbody
  cases hbody with
  | none => exact .refl keys _
  | some hbody => exact hbody.ownProperties

lemma extenders_eq (hdocuments : documents.WellFormed) (hdocuments' : documents'.WellFormed)
    (id : ResourceId) : documents'.extenders id = documents.extenders id := by
  rw [extenders, extenders, h.ids_eq, funext (h.extended?_eq hdocuments hdocuments')]

lemma generations_eq (hdocuments : documents.WellFormed) (hdocuments' : documents'.WellFormed)
    (root : ResourceId) (n : Nat) :
    documents'.generations root n = documents.generations root n := by
  have hextenders := funext (h.extenders_eq hdocuments hdocuments')
  have hgeneration : ∀ n, documents'.generation root n = documents.generation root n := by
    intro n
    induction n with
    | zero => rfl
    | succ n ih => rw [generation, generation, ih, hextenders]
  exact List.flatMap_congr fun m _ => hgeneration m

lemma chain (hdocuments : documents.WellFormed) (hdocuments' : documents'.WellFormed)
    {root id : ResourceId} {n : Nat} (hchain : documents.Chain root n id) :
    documents'.Chain root n id := by
  induction hchain with
  | root => exact .root
  | link hextended _ ih =>
    exact .link ((h.extended?_eq hdocuments hdocuments' _).trans hextended) ih

lemma foldl_contributeMarked (hdocuments : documents.WellFormed)
    (hdocuments' : documents'.WellFormed) {members : List ResourceId} {M N : Marked}
    (hMN : Marked.SameButList keys M N) :
    Marked.SameButList keys (members.foldl documents.contributeMarked M)
      (members.foldl documents'.contributeMarked N) := by
  induction members generalizing M N with
  | nil => exact hMN
  | cons id members ih =>
    refine ih ?_
    rw [contributeMarked, contributeMarked, h.rulesOf_eq hdocuments hdocuments']
    exact hMN.mergeAt (h.ownProperties hdocuments hdocuments' id)

/-- Contributing the same members leaves properties that are the same but for the list. -/
lemma foldlM_contribute (hdocuments : documents.WellFormed) (hdocuments' : documents'.WellFormed)
    {members : List ResourceId} {x y last last' : Json × Provenance}
    (hxy : Provenance.SameButList keys x y)
    (hlast : members.foldlM documents.contribute x = .ok last)
    (hlast' : members.foldlM documents'.contribute y = .ok last') :
    Provenance.SameButList keys last last' := by
  obtain ⟨M, N, hM, hN, htracks, htracks', hMN⟩ := hxy
  obtain ⟨herase, htracks⟩ := foldlM_contribute_tracks hdocuments hM htracks hlast
  obtain ⟨herase', htracks'⟩ := foldlM_contribute_tracks hdocuments' hN htracks' hlast'
  exact ⟨_, _, herase, herase', htracks, htracks',
    h.foldl_contributeMarked hdocuments hdocuments' hMN⟩

end SameButLists

end Documents

/-! ### Families -/

/-- Two families with the same root and members, whose properties are the same but for a list. -/
structure Family.SameButList (keys : List String) (family family' : Family) : Prop where
  root : family'.root = family.root
  members : family'.members = family.members
  merged : Provenance.SameButList keys (family.properties, family.provenance)
    (family'.properties, family'.provenance)
  resource : ∀ v, family'.resource.setField "Properties" v =
    family.resource.setField "Properties" v

namespace Documents

variable {documents documents' : Documents} {keys : List String} {family family' : Family}

lemma Resolves.sameButList (hdocuments : documents.WellFormed) (hdocuments' : documents'.WellFormed)
    (hsame : SameButLists keys documents documents') (h : documents.Resolves family)
    (h' : documents'.Resolves family') (hroot : family'.root = family.root) :
    family.SameButList keys family' := by
  have hmembers : family'.members = family.members := by
    obtain ⟨n, hn, hbound⟩ := h.members
    obtain ⟨n', hn', hbound'⟩ := h'.members
    rw [hn, hn', ← generations_eq_of_bound hdocuments' hbound' n, Nat.add_comm,
      hsame.generations_eq hdocuments hdocuments', hroot,
        generations_eq_of_bound hdocuments hbound n']
  refine ⟨hroot, hmembers, ?_, fun v => ?_⟩
  · have hmerged := h'.merged
    rw [hmembers, hroot] at hmerged
    exact hsame.foldlM_contribute hdocuments hdocuments'
      (.leaf (hsame.ownProperties hdocuments hdocuments' _) _) h.merged hmerged
  · obtain ⟨fs, hfs, hresource⟩ := h.resource
    obtain ⟨gs, hgs, hresource'⟩ := h'.resource
    rw [hresource, hresource', Json.setField, Json.setField, Fields.set_set, Fields.set_set]
    have hbody := hsame.resource? hdocuments hdocuments' family.root
    rw [hroot] at hgs
    rw [hfs, hgs] at hbody
    cases hbody with
    | some hbody =>
      rcases hbody with heq | ⟨_, _, heq, heq', hfields⟩
      · rw [Json.object.inj heq]
      · cases heq
        cases heq'
        rw [hfields.set_eq (wellFormed_of_mem hdocuments
          ((resource?_eq_some_iff hdocuments).mp hfs)).distinct]

end Documents

namespace Families

variable {documents documents' : Documents} {families families' : Families} {keys : List String}

/-- Every resource has a family that is the same but for the list, or none in both sets
of documents. -/
theorem get?_sameButList (hdocuments : documents.WellFormed) (hdocuments' : documents'.WellFormed)
    (h : ofDocuments documents = .ok families) (h' : ofDocuments documents' = .ok families')
    (hsame : Documents.SameButLists keys documents documents') (id : ResourceId) :
    Option.Rel (Family.SameButList keys) (families.get? id) (families'.get? id) := by
  cases hget : families.get? id with
  | some family =>
    have hid := mem_ids_of_get? hdocuments h hget
    rw [← hsame.ids_eq] at hid
    obtain ⟨family', hget', hleads'⟩ := exists_get? hdocuments' h' hid
    rw [hget']
    have hresolves := resolves_of_get? hdocuments h hget
    refine .some (hresolves.sameButList hdocuments hdocuments' hsame
      (resolves_of_get? hdocuments' h' hget') ?_)
    obtain ⟨⟨n, hchain'⟩, hroot'⟩ := (leadsTo_iff hdocuments' h').mp hleads'
    obtain ⟨m, hchain⟩ :=
      (hresolves.mem_members_iff hdocuments).mp ((get?_eq_some_iff hdocuments h).mp hget).2
    have hroot := (hsame.extended?_eq hdocuments hdocuments' _).trans hresolves.root_extends
    exact hchain'.root_unique (hsame.chain hdocuments hdocuments' hchain) hroot' hroot
  | none =>
    cases hget' : families'.get? id with
    | none => exact .none
    | some family' =>
      have hid := mem_ids_of_get? hdocuments' h' hget'
      rw [hsame.ids_eq] at hid
      obtain ⟨family, hfamily, -⟩ := exists_get? hdocuments h hid
      rw [hget] at hfamily
      cases hfamily

end Families

end ModularTemplates
