import Mathlib.Tactic.Lemma
import ModularTemplates.Proofs.Provenance.Authors
import ModularTemplates.Proofs.Qualification

/-!
# The module of a merged reference

A reference that names no module is qualified by the author of the object around it. That is the
member that wrote the reference if it put the whole object in place, but not if it only wrote
into an object of another member: the object stays with its author, and the reference gets the
module of that one.
-/

namespace ModularTemplates

namespace Families

variable {documents : Documents} {families : Families} {family : Family}

/-- A resource name that a member has written into a reference is still there after qualification.
It gets the module of that member exactly if the merged address names that module already, or names
no module and the author of the object around the reference is of that module. -/
theorem qualified_by_writer_iff (hdocuments : documents.WellFormed)
    (h : ofDocuments documents = .ok families) (hfamily : family ∈ families.families)
    (schema : Schema) {p : Path} {author writer : ResourceId} {r : String}
    (hr : (documents.markedProperties family).at? (schema.referencePath p "resource") =
      some (.scalar ⟨author, writer⟩ ⟨.string r, rfl⟩)) :
    (schema.referencePath p "resource").lookup
        (qualifyReferences schema family.provenance family.properties) = some (.string r) ∧
    ((schema.referencePath p "module").lookup
        (qualifyReferences schema family.provenance family.properties) =
          some (.string writer.module) ↔
      (schema.referencePath p "module").lookup family.properties = some (.string writer.module) ∨
      (schema.referencePath p "module").lookup family.properties = none ∧
        ∃ around, (documents.markedProperties family).at? p = some around ∧
          around.mark.author.module = writer.module) := by
  obtain ⟨herase, htracks⟩ := (resolves hdocuments h hfamily).tracks hdocuments
  have hpath := hr
  rw [Schema.referencePath, Marked.at?_append, Option.bind_eq_some_iff] at hpath
  obtain ⟨around, haround, -⟩ := hpath
  have hlookup : (schema.referencePath p "resource").lookup family.properties =
      some (.string r) := by
    rw [← herase, Marked.lookup_erase, hr]
    rfl
  obtain ⟨hresource, hmodule⟩ :=
    @lookup_referencePath_qualifyReferences schema family.provenance _ _ _ hlookup
  refine ⟨hresource, (hmodule writer.module).trans ?_⟩
  rw [htracks.owner p around haround, haround]
  simp

/-- A reference that is put into the resource of another module as a whole keeps its module. -/
theorem qualified_by_writer_iff_whole :
    let documents : Documents :=
      [("base", ⟨.object [("Resources", .object
          [("api", .object [("Properties", .object [("Layers", .array [.null])])])])], none⟩),
        ("app", ⟨.object [("Resources", .object
          [("api", .object
            [("Extend", .object [("module", .string "base"), ("resource", .string "api"),
              ("rules", .object [("Layers", .string "APPEND")])]),
            ("Properties", .object [("Layers", .array
              [.object [("Ref", .object [("resource", .string "custom")])]])])])])], none⟩)]
    let app : ResourceId := ⟨"app", "api"⟩
    let family : Family :=
      { root := ⟨"base", "api"⟩
        members := [⟨"base", "api"⟩, app]
        resource := .object [("Properties", .object [("Layers", .array
          [.null, .object [("Ref", .object [("resource", .string "custom")])]])])]
        provenance := .fields ⟨"base", "api"⟩
          [("Layers", .items ⟨"base", "api"⟩ [none, some (.leaf app)])] }
    let path : Path := [.key "Layers", .index 1]
    documents.WellFormed ∧ (∃ families, ofDocuments documents = .ok families ∧
        family ∈ families.families) ∧
      (documents.markedProperties family).at? (Schema.standard.referencePath path "resource") =
        some (.scalar ⟨app, app⟩ ⟨.string "custom", rfl⟩) ∧
      (Schema.standard.referencePath path "module").lookup
        (qualifyReferences .standard family.provenance family.properties) =
          some (.string "app") := by
  intro documents app family path
  have hdocuments : documents.WellFormed := by decide
  have hlinks : Links.ofDocuments documents = .ok
      [documents.linkTo ⟨"base", "api"⟩ none [],
        documents.linkTo app (some ⟨"base", "api"⟩) [([.key "Layers"], .append)]] := rfl
  have hresult : (ofDocuments documents).map Families.families = .ok [family] := by
    rw [ofDocuments_of_links hlinks]
    cbv
  obtain ⟨families, h, hfamily⟩ :=
    exists_mem_of_map_families hresult (List.mem_singleton_self family)
  have hr : (documents.markedProperties family).at?
      (Schema.standard.referencePath path "resource") =
        some (.scalar ⟨app, app⟩ ⟨.string "custom", rfl⟩) := rfl
  obtain ⟨-, hmodule⟩ := qualified_by_writer_iff hdocuments h hfamily .standard hr
  refine ⟨hdocuments, ⟨families, h, hfamily⟩, hr, hmodule.mpr (.inr ⟨rfl, ?_⟩)⟩
  exact ⟨.object ⟨app, app⟩ [("Ref", .object ⟨app, app⟩
    [("resource", .scalar ⟨app, app⟩ ⟨.string "custom", rfl⟩)])], rfl, rfl⟩

/-- A reference that is written into the reference of another module gets the module of that one,
although it names a resource of its own module. -/
theorem qualified_by_other_module :
    let documents : Documents :=
      [("base", ⟨.object [("Resources", .object
          [("api", .object [("Type", .string "T"), ("Properties", .object
            [("Layer", .object [("Ref", .object [("resource", .string "plain")])])])]),
          ("plain", .object [("Type", .string "T")]),
          ("custom", .object [("Type", .string "T")])])], none⟩),
        ("app", ⟨.object [("Resources", .object
          [("api", .object [("Type", .string "T"),
            ("Extend", .object [("module", .string "base"), ("resource", .string "api")]),
            ("Properties", .object
              [("Layer", .object [("Ref", .object [("resource", .string "custom")])])])]),
          ("custom", .object [("Type", .string "T")])])], none⟩)]
    let app : ResourceId := ⟨"app", "api"⟩
    let path : Path := [.key "Layer"]
    documents.WellFormed ∧
      (Schema.standard.referencePath path "resource").lookup (documents.ownProperties app) =
        some (.string "custom") ∧
      (Schema.standard.referencePath path "module").lookup (documents.ownProperties app) = none ∧
      ∃ families, ofDocuments documents = .ok families ∧
        ∃ family ∈ families.families,
          (documents.markedProperties family).at? (Schema.standard.referencePath path "resource") =
            some (.scalar ⟨app, app⟩ ⟨.string "custom", rfl⟩) ∧
          (Schema.standard.referencePath path "module").lookup
            (qualifyReferences .standard family.provenance family.properties) =
              some (.string "base") := by
  intro documents app path
  let family : Family :=
    { root := ⟨"base", "api"⟩
      members := [⟨"base", "api"⟩, app]
      resource := .object [("Type", .string "T"), ("Properties", .object
        [("Layer", .object [("Ref", .object [("resource", .string "custom")])])])]
      provenance := .fields ⟨"base", "api"⟩ [("Layer", .fields ⟨"base", "api"⟩
        [("Ref", .fields ⟨"base", "api"⟩ [("resource", .leaf app)])])] }
  let alone (id : ResourceId) : Family :=
    ⟨id, [id], .object [("Type", .string "T"), ("Properties", .object [])], .leaf id⟩
  have hresult : (ofDocuments documents).map Families.families =
      .ok [family, alone ⟨"base", "plain"⟩, alone ⟨"base", "custom"⟩,
          alone ⟨"app", "custom"⟩] := by
    cbv
  obtain ⟨families, h, hfamily⟩ := exists_mem_of_map_families hresult List.mem_cons_self
  exact ⟨by decide, rfl, rfl, families, h, family, hfamily, rfl, by decide +kernel⟩

end Families

end ModularTemplates
