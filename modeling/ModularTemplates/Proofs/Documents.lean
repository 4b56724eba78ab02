import Mathlib.Data.List.Nodup
import Mathlib.Tactic.Lemma
import ModularTemplates.Documents
import ModularTemplates.Proofs.Json

/-!
# Well-formed documents

In well-formed documents no module is listed twice and no object of a document lists a key twice.
Then a resource is found at an address exactly if it is listed under that address, and no address
is listed twice.
-/

namespace ModularTemplates

namespace Json

variable {document : Json}

lemma WellFormed.distinct_resources (h : document.WellFormed) : document.resources.Distinct := by
  unfold resources
  cases hr : (document.field? "Resources").bind asObject? with
  | none => exact Fields.distinct_nil
  | some fs =>
    obtain ⟨v, hv, hfs⟩ := Option.bind_eq_some_iff.mp hr
    cases v with
    | object gs =>
      cases hfs
      exact (h.field? hv).distinct
    | _ => simp [asObject?] at hfs

lemma WellFormed.of_mem_resources (h : document.WellFormed) {name : String} {body : Json}
    (hbody : (name, body) ∈ document.resources) : body.WellFormed := by
  unfold resources at hbody
  cases hr : (document.field? "Resources").bind asObject? with
  | none => simp [hr] at hbody
  | some fs =>
    obtain ⟨v, hv, hfs⟩ := Option.bind_eq_some_iff.mp hr
    cases v with
    | object gs =>
      cases hfs
      have hobject := h.field? hv
      rw [hr, Option.getD_some] at hbody
      exact hobject.get? (hobject.distinct.get?_of_mem hbody)
    | _ => simp [asObject?] at hfs

end Json

namespace Documents

variable {documents : Documents}

/-- No module is listed twice and no object of a document lists a key twice. -/
structure WellFormed (documents : Documents) : Prop where
  distinct : Fields.Distinct documents
  document : ∀ entry ∈ documents, entry.2.document.WellFormed

instance : DecidablePred WellFormed := fun documents =>
  decidable_of_iff
    (Fields.Distinct documents ∧ ∀ entry ∈ documents, entry.2.document.WellFormed)
    ⟨fun h => ⟨h.1, h.2⟩, fun h => ⟨h.distinct, h.document⟩⟩

/-- The addresses of all resources, in document order. -/
def ids (documents : Documents) : List ResourceId :=
  documents.resources.map Prod.fst

lemma mem_resources_iff {id : ResourceId} {body : Json} :
    (id, body) ∈ documents.resources ↔
      ∃ entry ∈ documents, entry.1 = id.module ∧
        (id.resource, body) ∈ entry.2.document.resources := by
  obtain ⟨module, resource⟩ := id
  simp only [resources, List.mem_flatMap, List.mem_map, Prod.mk.injEq, ResourceId.mk.injEq]
  constructor
  · rintro ⟨entry, hentry, ⟨name, v⟩, hmem, ⟨rfl, rfl⟩, rfl⟩
    exact ⟨entry, hentry, rfl, hmem⟩
  · rintro ⟨entry, hentry, rfl, hmem⟩
    exact ⟨entry, hentry, _, hmem, ⟨rfl, rfl⟩, rfl⟩

/-- A resource is looked for step by step. What is no object on the way has no fields. -/
lemma resource?_eq (documents : Documents) (id : ResourceId) :
    documents.resource? id = (documents.get? id.module).bind fun module =>
      (module.document.field? "Resources").bind (Json.field? · id.resource) := by
  unfold resource?
  apply Option.bind_congr
  intro module _
  unfold Json.resources
  cases module.document.field? "Resources" with
  | none => rfl
  | some v => cases v <;> rfl

theorem resource?_eq_some_iff (h : documents.WellFormed) {id : ResourceId} {body : Json} :
    documents.resource? id = some body ↔ (id, body) ∈ documents.resources := by
  rw [mem_resources_iff, resource?, Option.bind_eq_some_iff]
  constructor
  · rintro ⟨document, hdocument, hbody⟩
    exact ⟨_, Fields.mem_of_get? hdocument, rfl, Fields.mem_of_get? hbody⟩
  · rintro ⟨⟨name, document⟩, hentry, rfl, hbody⟩
    exact ⟨document, h.distinct.get?_of_mem hentry,
      (h.document _ hentry).distinct_resources.get?_of_mem hbody⟩

lemma ids_eq (documents : Documents) :
    documents.ids = documents.flatMap fun entry =>
      (Fields.keys entry.2.document.resources).map (ResourceId.mk entry.1) := by
  simp only [ids, resources, List.map_flatMap, List.map_map, Fields.keys, Function.comp_def]

theorem nodup_ids (h : documents.WellFormed) : documents.ids.Nodup := by
  rw [ids_eq, List.nodup_flatMap]
  constructor
  · intro entry hentry
    refine List.Nodup.map (fun _ _ heq => (ResourceId.mk.inj heq).2) ?_
    exact (h.document entry hentry).distinct_resources
  · have hnames : List.Pairwise (fun a b => a.1 ≠ b.1) documents :=
      List.pairwise_map.mp h.distinct
    refine hnames.imp fun {a b} hne => ?_
    intro id ha hb
    obtain ⟨r, -, rfl⟩ := List.mem_map.mp ha
    obtain ⟨r', -, heq⟩ := List.mem_map.mp hb
    exact hne (ResourceId.mk.inj heq).1.symm

lemma wellFormed_of_mem (h : documents.WellFormed) {id : ResourceId} {body : Json}
    (hmem : (id, body) ∈ documents.resources) : body.WellFormed := by
  obtain ⟨entry, hentry, -, hbody⟩ := mem_resources_iff.mp hmem
  exact (h.document entry hentry).of_mem_resources hbody

lemma mem_ids_iff (h : documents.WellFormed) {id : ResourceId} :
    id ∈ documents.ids ↔ ∃ body, documents.resource? id = some body := by
  simp [ids, resource?_eq_some_iff h]

end Documents

end ModularTemplates
