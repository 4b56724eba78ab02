import Mathlib.Data.Finset.Card
import ModularTemplates.Proofs.Documents

/-!
# Documents inserted one after the other

A module is inserted by setting its document, and `Fields.ofList` is a sequence of insertions.
However often a module is inserted and whatever its documents are, the resources that are listed are
those that are found. They come in the order in which their modules were first inserted, and the
resources of one module come in the order of the document that it was inserted with last.
-/

namespace ModularTemplates

namespace Documents

variable {insertions : List (String × ModuleDocument)}

/-- What documents list and what is found in them, when they were inserted one after the other. -/
structure Lists (documents : Documents) (insertions : List (String × ModuleDocument)) : Prop where
  nodup : (documents.resources.map Prod.fst).Nodup
  resource?_iff : ∀ id body, documents.resource? id = some body ↔
    (id, body) ∈ documents.resources
  /-- a resource is looked for step by step, whatever kind of value is met on the way -/
  resource?_eq : ∀ id, documents.resource? id = (documents.get? id.module).bind fun module =>
    (module.document.field? "Resources").bind (Json.field? · id.resource)
  /-- modules come in the order of their first insertions, and each lists the resources
  of its last one -/
  resources_eq : documents.resources = (insertions.map Prod.fst).eraseDups.flatMap fun module =>
    (insertions.reverse.lookup module).elim [] fun last =>
      last.document.resources.map fun (resource, body) => (⟨module, resource⟩, body)
  length_eq : documents.length = (insertions.map Prod.fst).toFinset.card

lemma wellFormed_ofList (h : ∀ insertion ∈ insertions, insertion.2.document.WellFormed) :
    WellFormed (Fields.ofList insertions) := by
  constructor
  · exact Fields.distinct_ofList insertions
  · intro entry hentry
    rcases Fields.mem_update hentry with hnil | hinsertion
    · cases hnil
    · exact h entry hinsertion

lemma resources_ofList (insertions : List (String × ModuleDocument)) :
    resources (Fields.ofList insertions) = (insertions.map Prod.fst).eraseDups.flatMap fun module =>
      (insertions.reverse.lookup module).elim [] fun last =>
        last.document.resources.map fun (resource, body) => (⟨module, resource⟩, body) := by
  simp only [← Fields.keys_ofList, ← Fields.get?_ofList]
  have hkeys :=
    (Fields.distinct_ofList insertions).flatMap_keys fun module (last : ModuleDocument) =>
    last.document.resources.map fun (resource, body) =>
      ((⟨module, resource⟩ : ResourceId), body)
  exact hkeys.symm

lemma length_ofList (insertions : List (String × ModuleDocument)) :
    (Fields.ofList insertions).length = (insertions.map Prod.fst).toFinset.card := by
  have hnodup : (insertions.map Prod.fst).eraseDups.Nodup := by
    rw [← Fields.keys_ofList]
    exact Fields.distinct_ofList insertions
  have hsame : (insertions.map Prod.fst).eraseDups.toFinset =
      (insertions.map Prod.fst).toFinset := by
    ext module
    simp only [List.mem_toFinset, List.mem_eraseDups]
  rw [← hsame, List.toFinset_card_of_nodup hnodup, ← Fields.keys_ofList, Fields.keys,
    List.length_map]

/-- Listing and looking up resources agree, whatever was inserted. -/
theorem listed_as_inserted (h : ∀ insertion ∈ insertions, insertion.2.document.WellFormed) :
    Lists (Fields.ofList insertions) insertions := by
  have hdocuments := wellFormed_ofList h
  constructor
  · exact nodup_ids hdocuments
  · intro id body
    exact resource?_eq_some_iff hdocuments
  · exact Documents.resource?_eq _
  · exact resources_ofList insertions
  · exact length_ofList insertions

/-- Two modules are inserted twice, the one with its resources in another order and one more, the
other with an array first; the document of a third one is a text. -/
theorem listed_as_inserted_again :
    let having (resources : Json) : ModuleDocument := ⟨.object [("Resources", resources)], none⟩
    let insertions : List (String × ModuleDocument) :=
      [("app", having (.object [("b", .null), ("a", .null)])), ("base", having (.array [.null])),
        ("text", ⟨.string "Resources", none⟩),
        ("app", having (.object [("a", .bool true), ("c", .null), ("b", .null)])),
        ("base", having (.object [("x", .null)]))]
    let documents : Documents := Fields.ofList insertions
    (∀ insertion ∈ insertions, insertion.2.document.WellFormed) ∧
      documents.Lists insertions ∧
      documents.ids = [⟨"app", "a"⟩, ⟨"app", "c"⟩, ⟨"app", "b"⟩, ⟨"base", "x"⟩] ∧
      documents.resource? ⟨"app", "a"⟩ = some (.bool true) ∧ documents.length = 3 := by
  intro having insertions documents
  have h : ∀ insertion ∈ insertions, insertion.2.document.WellFormed := by decide
  exact ⟨h, listed_as_inserted h, by decide, by decide, rfl⟩

end Documents

end ModularTemplates
