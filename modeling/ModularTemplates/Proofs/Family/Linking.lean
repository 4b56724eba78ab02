import Mathlib.Tactic.Lemma
import ModularTemplates.Family.Link
import ModularTemplates.Proofs.Documents
import ModularTemplates.Proofs.Except

/-!
# Linked documents

When linking succeeds, the links are the resources of the documents in document order, each with the
target and the rules of its declaration, and every target is a resource. So the links can be read
off the documents.
-/

namespace ModularTemplates

/-- The declaration in the body of a resource, if there is a readable one. -/
def Json.declaration? (body : Json) : Option Declaration :=
  (body.field? "Extend").bind Declaration.ofJson?

/-- The link of a resource. -/
def Link.ofResource (id : ResourceId) (body : Json) : Link where
  id := id
  body := body
  target := body.declaration?.map fun declaration => declaration.target id.module
  rules := (body.declaration?.map Declaration.rules).getD []

namespace Documents

/-- The declaration of a resource. -/
def declaration? (documents : Documents) (id : ResourceId) : Option Declaration :=
  (documents.resource? id).bind Json.declaration?

/-- The resource that a resource declares to extend. -/
def extended? (documents : Documents) (id : ResourceId) : Option ResourceId :=
  (documents.declaration? id).map fun declaration => declaration.target id.module

/-- The rules that a resource declares. -/
def rulesOf (documents : Documents) (id : ResourceId) : Rules :=
  ((documents.declaration? id).map Declaration.rules).getD []

/-- The resources that extend a resource, in document order. -/
def extenders (documents : Documents) (id : ResourceId) : List ResourceId :=
  documents.ids.filter fun extender => documents.extended? extender == some id

lemma mem_extenders_iff {documents : Documents} (h : documents.WellFormed)
    {id extender : ResourceId} :
    extender ∈ documents.extenders id ↔ documents.extended? extender = some id := by
  rw [extenders, List.mem_filter, beq_iff_eq, and_iff_right_iff_imp, mem_ids_iff h]
  intro hextended
  obtain ⟨declaration, hdeclaration, -⟩ := Option.map_eq_some_iff.mp hextended
  obtain ⟨body, hbody, -⟩ := Option.bind_eq_some_iff.mp hdeclaration
  exact ⟨body, hbody⟩

end Documents

namespace Links

/-! ### What linking makes of a resource -/

lemma declaration_of_ok {id : ResourceId} {body : Json} {declaration : Option Declaration}
    (h : Declaration.of id body = .ok declaration) : declaration = body.declaration? := by
  unfold Declaration.of at h
  unfold Json.declaration?
  cases hbody : body.field? "Extend" with
  | none =>
    rw [hbody] at h
    cases h
    rfl
  | some v =>
    rw [hbody] at h
    cases hv : Declaration.ofJson? v with
    | none => simp [hv] at h
    | some d =>
      simp only [hv, Except.ok.injEq] at h
      simp [hv, ← h]

lemma eq_of_linkResource {resources : List (ResourceId × Json)} {id : ResourceId} {body : Json}
    {link : Link} (h : linkResource resources id body body.declaration? = .ok link) :
    link = Link.ofResource id body ∧ ∀ target, link.target = some target →
      target ∈ resources.map Prod.fst := by
  unfold Link.ofResource
  cases hd : body.declaration? with
  | none =>
    rw [hd] at h
    cases h
    simp
  | some declaration =>
    rw [hd] at h
    simp only [linkResource] at h
    split_ifs at h with hany
    cases h
    refine ⟨rfl, fun target htarget => ?_⟩
    cases htarget
    obtain ⟨r, hr, heq⟩ := List.any_eq_true.mp hany
    rw [← beq_iff_eq.mp heq]
    exact List.mem_map_of_mem hr

/-- Links are resources, all of them objects, and extend resources. -/
theorem of_ofDocuments {documents : Documents} {links : Links}
    (h : ofDocuments documents = .ok links) :
    links = documents.resources.map (fun r => Link.ofResource r.1 r.2) ∧
    (∀ r ∈ documents.resources, r.2.isObject = true) ∧
    ∀ link ∈ links, ∀ target, link.target = some target → target ∈ documents.ids := by
  unfold ofDocuments at h
  obtain ⟨⟨⟩, hobjects, h⟩ := bind_eq_ok_iff.mp h
  obtain ⟨declared, hdeclared, h⟩ := bind_eq_ok_iff.mp h
  obtain ⟨rfl, -⟩ := eq_map_of_mapM (g := fun r => (r.1, r.2, r.2.declaration?)) hdeclared <| by
    intro r _ b hb
    obtain ⟨declaration, hdeclaration, hb⟩ := bind_eq_ok_iff.mp hb
    cases hb
    rw [declaration_of_ok hdeclaration]
  obtain ⟨rfl, hlinked⟩ := eq_map_of_mapM (g := fun r => Link.ofResource r.1 r.2.1) h <| by
    intro r hr link hlink
    obtain ⟨r, -, rfl⟩ := List.mem_map.mp hr
    exact (eq_of_linkResource hlink).1
  refine ⟨by simp [Function.comp_def], ?_, ?_⟩
  · intro r hr
    have hok := forM_eq_ok hobjects r hr
    by_contra hobject
    simp [hobject] at hok
  · intro link hlink
    obtain ⟨r', hr', rfl⟩ := List.mem_map.mp hlink
    have hok := hlinked r' hr'
    obtain ⟨r, -, rfl⟩ := List.mem_map.mp hr'
    exact (eq_of_linkResource hok).2

/-! ### Links read off the documents -/

variable {documents : Documents} {links : Links} {id : ResourceId}

lemma find?_of_ofDocuments (hdocuments : documents.WellFormed)
    (h : ofDocuments documents = .ok links) (id : ResourceId) :
    links.find? id = (documents.resource? id).map (Link.ofResource id) := by
  obtain ⟨rfl, -, -⟩ := of_ofDocuments h
  cases hbody : documents.resource? id with
  | none =>
    rw [Option.map_none, find?, List.find?_eq_none]
    intro link hlink
    obtain ⟨⟨other, body⟩, hmem, rfl⟩ := List.mem_map.mp hlink
    rw [beq_iff_eq]
    rintro rfl
    simp [Link.ofResource, (Documents.resource?_eq_some_iff hdocuments).mpr hmem] at hbody
  | some body =>
    rw [Option.map_some, find?, List.find?_map]
    have hmem := (Documents.resource?_eq_some_iff hdocuments).mp hbody
    cases hfind : List.find? ((fun link => link.id == id) ∘ fun r => Link.ofResource r.1 r.2)
        documents.resources with
    | none =>
      have hne := List.find?_eq_none.mp hfind _ hmem
      simp [Link.ofResource] at hne
    | some r =>
      have hid : r.1 = id := by simpa [Link.ofResource] using List.find?_some hfind
      have hr := List.mem_of_find?_eq_some hfind
      obtain ⟨_, body'⟩ := r
      subst hid
      rw [← Documents.resource?_eq_some_iff hdocuments, hbody] at hr
      cases hr
      rfl

lemma target?_of_ofDocuments (hdocuments : documents.WellFormed)
    (h : ofDocuments documents = .ok links) (id : ResourceId) :
    links.target? id = documents.extended? id := by
  rw [target?, find?_of_ofDocuments hdocuments h, Documents.extended?, Documents.declaration?]
  cases documents.resource? id <;> rfl

lemma extenders_of_ofDocuments (hdocuments : documents.WellFormed)
    (h : ofDocuments documents = .ok links) (id : ResourceId) :
    (links.extenders id).map Link.id = documents.extenders id := by
  obtain ⟨rfl, -, -⟩ := of_ofDocuments h
  rw [extenders, List.filter_map, List.map_map, Documents.extenders, Documents.ids, List.filter_map]
  have hsame : documents.resources.filter
        ((fun link : Link => link.target == some id) ∘ fun r => Link.ofResource r.1 r.2) =
      documents.resources.filter
        ((fun extender => documents.extended? extender == some id) ∘ Prod.fst) := by
    apply List.filter_congr
    rintro ⟨other, body⟩ hmem
    have hbody := (Documents.resource?_eq_some_iff hdocuments).mpr hmem
    simp [Link.ofResource, Documents.extended?, Documents.declaration?, hbody]
  rw [hsame]
  rfl

end Links

end ModularTemplates
