import Mathlib.Tactic.Lemma
import ModularTemplates.Proofs.Family.Partition

/-!
# Accepted documents

When the extensions of documents can be resolved: all resources can be linked, the links from every
resource end at a root, and the members of every root can be merged into it.
-/

namespace ModularTemplates

namespace Links

variable {documents : Documents} {links : Links} {root : ResourceId}

lemma linkResource_eq_ok {resources : List (ResourceId × Json)} {id : ResourceId} {body : Json}
    (h : ∀ target, (Link.ofResource id body).target = some target →
      target ∈ resources.map Prod.fst) :
    linkResource resources id body body.declaration? = .ok (Link.ofResource id body) := by
  unfold Link.ofResource at *
  cases hd : body.declaration? with
  | none => rfl
  | some declaration =>
    rw [hd] at h
    have hany : resources.any (fun r => r.1 == declaration.target id.module) = true := by
      obtain ⟨r, hr, heq⟩ := List.mem_map.mp (h _ rfl)
      exact List.any_eq_true.mpr ⟨r, hr, beq_iff_eq.mpr heq⟩
    simp only [linkResource, hany, if_true]
    rfl

/-- A resource that can be linked: it is an object, its declaration can be read, and what it extends
is among the resources. -/
def Linkable (documents : Documents) (id : ResourceId) (body : Json) : Prop :=
  body.isObject = true ∧ Declaration.of id body = .ok body.declaration? ∧
    ∀ target, (Link.ofResource id body).target = some target → target ∈ documents.ids

theorem exists_ofDocuments_iff : (∃ links, ofDocuments documents = .ok links) ↔
    ∀ id body, (id, body) ∈ documents.resources → Linkable documents id body := by
  constructor
  · rintro ⟨links, h⟩ id body hr
    obtain ⟨rfl, hobject, htargets⟩ := of_ofDocuments h
    exact ⟨hobject _ hr, declaration_of_mem h hr,
      htargets _ (List.mem_map.mpr ⟨_, hr, rfl⟩)⟩
  · intro h
    let declared := documents.resources.map fun r => (r.1, r.2, r.2.declaration?)
    refine ⟨declared.map fun r => Link.ofResource r.1 r.2.1, bind_eq_ok_iff.mpr ⟨(), ?_,
      bind_eq_ok_iff.mpr ⟨declared, mapM_eq_ok ?_, mapM_eq_ok ?_⟩⟩⟩
    · exact forM_ok fun ⟨id, body⟩ hr => if_pos (h id body hr).1
    · exact fun ⟨id, body⟩ hr => bind_eq_ok_iff.mpr ⟨_, (h id body hr).2.1, rfl⟩
    · intro r hr
      obtain ⟨⟨id, body⟩, hmem, rfl⟩ := List.mem_map.mp hr
      exact linkResource_eq_ok (h id body hmem).2.2

/-! ### Members -/

lemma nodup_map_id_members (hdocuments : documents.WellFormed)
    (hlinks : ofDocuments documents = .ok links) (hroot : documents.extended? root = none)
    (hmem : root ∈ documents.ids) : ((links.members root).map Link.id).Nodup := by
  obtain ⟨n, hmembers, -⟩ := exists_cons_map_id_members hdocuments hlinks hroot hmem
  have hnodup := Documents.nodup_generations hdocuments hroot n
  rw [← hmembers] at hnodup
  exact hnodup.of_cons

/-- The members behind the root are those that are some way from it. -/
lemma mem_map_id_members_iff (hdocuments : documents.WellFormed)
    (hlinks : ofDocuments documents = .ok links) (hroot : documents.extended? root = none)
    (hmem : root ∈ documents.ids) {id : ResourceId} :
    id ∈ (links.members root).map Link.id ↔ ∃ n, documents.Chain root (n + 1) id := by
  obtain ⟨n, hmembers, hbound⟩ := exists_cons_map_id_members hdocuments hlinks hroot hmem
  exact Documents.mem_behind_root_iff hdocuments hroot hmembers hbound

end Links

namespace Family

variable {documents : Documents} {links : Links} {root : ResourceId} {body : Json}

theorem exists_ofRoot_iff (hdocuments : documents.WellFormed)
    (hlinks : Links.ofDocuments documents = .ok links)
    (hbody : documents.resource? root = some body) :
    (∃ family, ofRoot links root = .ok family) ↔
      (∀ link ∈ links.members root, checkType (Link.ofResource root body) link = .ok ()) ∧
      ∃ merged, ((links.members root).map Link.id).foldlM documents.contribute
        (documents.ownProperties root, .leaf root) = .ok merged := by
  have hown : documents.ownProperties root = (Link.ofResource root body).body.ownProperties := by
    rw [Documents.ownProperties, hbody]
    rfl
  have hmembers : ∀ link ∈ links.members root, ∃ id body,
      documents.resource? id = some body ∧ link = Link.ofResource id body := fun link hlink =>
    ⟨link.id, Links.exists_resource_of_mem_members hdocuments hlinks hlink⟩
  rw [ofRoot_eq]
  rw [Links.find?_of_ofDocuments hdocuments hlinks, hbody, hown]
  simp only [Option.map_some]
  constructor
  · rintro ⟨family, h⟩
    obtain ⟨merged, hmerged, -⟩ := bind_eq_ok_iff.mp h
    obtain ⟨htypes, hmerged⟩ := (foldlM_contribute_iff hmembers).mp hmerged
    exact ⟨htypes, merged, hmerged⟩
  · rintro ⟨htypes, merged, hmerged⟩
    exact ⟨_, bind_eq_ok_iff.mpr
      ⟨merged, (foldlM_contribute_iff hmembers).mpr ⟨htypes, hmerged⟩, rfl⟩⟩

end Family

namespace Families

variable {documents : Documents} {links : Links}

lemma ofRoot_of_mem {rest : Links} {found : List Family}
    (h : rest.foldlM (addFamilyOf links) [] = .ok found) :
    ∀ family ∈ found, Family.ofRoot links family.root = .ok family := by
  refine foldlM_invariant
    (fun found => ∀ family ∈ found, Family.ofRoot links family.root = .ok family) (by simp) ?_ h
  intro before link after _ hbefore hstep
  obtain ⟨root, -, hstep⟩ := bind_eq_ok_iff.mp hstep
  split_ifs at hstep
  · cases hstep
    exact hbefore
  · obtain ⟨new, hnew, hstep⟩ := bind_eq_ok_iff.mp hstep
    cases hstep
    obtain rfl := Family.root_of_ofRoot hnew
    exact List.forall_mem_append.mpr ⟨hbefore, List.forall_mem_singleton.mpr hnew⟩

/-- Families are resolved exactly if all resources can be linked and the links from every resource
lead to a root whose family can be merged. -/
theorem exists_ofDocuments_iff : (∃ families, ofDocuments documents = .ok families) ↔
    ∃ links, Links.ofDocuments documents = .ok links ∧ ∀ link ∈ links,
      ∃ root, links.root link.id = .ok root ∧
        ∃ family, Family.ofRoot links root = .ok family := by
  constructor
  · rintro ⟨families, h⟩
    obtain ⟨-, hlinks, hfound⟩ := of_ofDocuments h
    refine ⟨families.links, hlinks, fun link hlink => ?_⟩
    obtain ⟨family, hfamily, hroot⟩ := (exists_family_of_foldlM hfound).2 link hlink
    exact ⟨family.root, hroot, family, ofRoot_of_mem hfound family hfamily⟩
  · rintro ⟨links, hlinks, h⟩
    obtain ⟨found, hfound⟩ := exists_foldlM (f := addFamilyOf links) (fun link hlink found => by
      obtain ⟨root, hroot, family, hfamily⟩ := h link hlink
      by_cases hany : found.any fun family => family.root == root
      · exact ⟨found, bind_eq_ok_iff.mpr ⟨root, hroot, if_pos hany⟩⟩
      · refine ⟨found ++ [family], bind_eq_ok_iff.mpr ⟨root, hroot, ?_⟩⟩
        rw [if_neg hany, hfamily]
        rfl) []
    exact ⟨_, bind_eq_ok_iff.mpr
      ⟨links, hlinks, bind_eq_ok_iff.mpr ⟨found, hfound, rfl⟩⟩⟩

end Families

end ModularTemplates
