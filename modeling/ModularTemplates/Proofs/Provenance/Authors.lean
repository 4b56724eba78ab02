import Mathlib.Tactic.Lemma
import ModularTemplates.Proofs.Family.MergeOrder
import ModularTemplates.Proofs.Provenance.Tracks

/-!
# The authors of merged properties

The members of a family contribute to the marked properties of the root in the order of merging. The
provenance of the family names the authors that come out.
-/

namespace ModularTemplates

lemma Json.WellFormed.ownProperties {body : Json} (h : body.WellFormed) :
    body.ownProperties.WellFormed := by
  unfold Json.ownProperties
  split
  · rename_i fs hfs
    exact h.field? hfs
  · simp [WellFormed, WellFormedFields]

namespace Documents

variable {documents : Documents} {family : Family}

lemma wellFormed_ownProperties (h : documents.WellFormed) (id : ResourceId) :
    (documents.ownProperties id).WellFormed := by
  unfold ownProperties
  cases hbody : documents.resource? id with
  | none => simp [Json.WellFormed, Json.WellFormedFields]
  | some body =>
    exact (wellFormed_of_mem h ((resource?_eq_some_iff h).mp hbody)).ownProperties

/-- Merge the properties of a resource under its rules into marked properties. -/
def contributeMarked (documents : Documents) (sofar : Marked) (id : ResourceId) : Marked :=
  sofar.merge (documents.rulesOf id) id (documents.ownProperties id)

/-- The properties of a family with a mark at every place. At first all is marked by the root. -/
def markedProperties (documents : Documents) (family : Family) : Marked :=
  family.members.tail.foldl documents.contributeMarked
    ((documents.ownProperties family.root).marked (.by family.root))

lemma contribute_tracks (h : documents.WellFormed) {sofar next : Json × Provenance} {M : Marked}
    {id : ResourceId} (herase : M.erase = sofar.1) (htracks : sofar.2.Tracks M)
    (hnext : documents.contribute sofar id = .ok next) :
    (documents.contributeMarked M id).erase = next.1 ∧
      next.2.Tracks (documents.contributeMarked M id) := by
  obtain ⟨⟨properties, changes⟩, hresult, hnext⟩ := bind_eq_ok_iff.mp hnext
  cases hnext
  have hmerges := Merges.of_merge (wellFormed_ownProperties h id) hresult
  exact ⟨Marked.erase_mergeAt hmerges herase, htracks.enterAll hmerges herase⟩

lemma foldlM_contribute_tracks (h : documents.WellFormed) {members : List ResourceId}
    {sofar last : Json × Provenance} {M : Marked} (herase : M.erase = sofar.1)
    (htracks : sofar.2.Tracks M) (hlast : members.foldlM documents.contribute sofar = .ok last) :
    (members.foldl documents.contributeMarked M).erase = last.1 ∧
      last.2.Tracks (members.foldl documents.contributeMarked M) := by
  induction members generalizing sofar M with
  | nil =>
    cases hlast
    exact ⟨herase, htracks⟩
  | cons id members ih =>
    rw [List.foldlM_cons] at hlast
    obtain ⟨next, hnext, hlast⟩ := bind_eq_ok_iff.mp hlast
    obtain ⟨herase, htracks⟩ := contribute_tracks h herase htracks hnext
    exact ih herase htracks hlast

/-- The marked properties of a family are its properties, and its provenance tracks
their authors. -/
theorem Resolves.tracks (hdocuments : documents.WellFormed) (h : documents.Resolves family) :
    (documents.markedProperties family).erase = family.properties ∧
      family.provenance.Tracks (documents.markedProperties family) :=
  foldlM_contribute_tracks hdocuments (Json.erase_marked _ _)
    (Provenance.Tracks.leaf_marked (.by family.root) _) h.merged

end Documents

namespace Families

variable {documents : Documents} {families : Families} {family : Family}

/-- For every scalar among the merged properties of a family the provenance names the author. -/
theorem source_scalar_eq_author (hdocuments : documents.WellFormed)
    (h : ofDocuments documents = .ok families) (hfamily : family ∈ families.families) :
    (documents.markedProperties family).erase = family.properties ∧
    ∀ (p : Path) (v : Scalar), p.lookup family.properties = some v.val →
      ∃ mark, (documents.markedProperties family).at? p = some (.scalar mark v) ∧
        (family.provenance.source p).owner = mark.author := by
  obtain ⟨herase, htracks⟩ := (resolves hdocuments h hfamily).tracks hdocuments
  refine ⟨herase, fun p v hv => ?_⟩
  rw [← herase, Marked.lookup_erase, Option.map_eq_some_iff] at hv
  obtain ⟨M, hM, hMv⟩ := hv
  have hscalar := Marked.eq_scalar_of_erase hMv v.property
  refine ⟨M.mark, ?_, htracks.owner p M hM⟩
  rw [hM, hscalar]
  rfl

/-- An old item moves behind a new one, and a combined object is attributed as a whole. -/
theorem source_scalar_eq_author_moved :
    let documents : Documents :=
      [("base", ⟨.object [("Resources", .object
          [("root", .object [("Properties", .object [("Tags", .array [.string "old"]),
            ("Env", .object [("A", .string "a"), ("B", .string "b")])])])])], none⟩),
        ("app", ⟨.object [("Resources", .object
          [("env", .object
            [("Extend", .object [("resource", .string "tags"),
              ("rules", .object [("Env", .string "COMBINE")])]),
            ("Properties", .object [("Env", .object [("A", .string "c")])])]),
          ("tags", .object
            [("Extend", .object [("module", .string "base"), ("resource", .string "root"),
              ("rules", .object [("Tags", .string "PREPEND")])]),
            ("Properties", .object [("Tags", .array [.string "new"])])])])], none⟩)]
    let family : Family :=
      { root := ⟨"base", "root"⟩
        members := [⟨"base", "root"⟩, ⟨"app", "tags"⟩, ⟨"app", "env"⟩]
        resource := .object [("Properties", .object
          [("Tags", .array [.string "new", .string "old"]),
          ("Env", .object [("A", .string "c"), ("B", .string "b")])])]
        provenance := .fields ⟨"base", "root"⟩
          [("Tags", .items ⟨"base", "root"⟩ [some (.leaf ⟨"app", "tags"⟩)]),
          ("Env", .leaf ⟨"app", "env"⟩)] }
    documents.WellFormed ∧ (∃ families, ofDocuments documents = .ok families ∧
        family ∈ families.families) ∧
      (∃ mark, (documents.markedProperties family).at? [.key "Tags", .index 1] =
          some (.scalar mark ⟨.string "old", rfl⟩) ∧
        (family.provenance.source [.key "Tags", .index 1]).owner = mark.author) ∧
      ∃ mark, (documents.markedProperties family).at? [.key "Env", .key "B"] =
          some (.scalar mark ⟨.string "b", rfl⟩) ∧
        (family.provenance.source [.key "Env", .key "B"]).owner = mark.author := by
  intro documents family
  have hdocuments : documents.WellFormed := by decide
  have hlinks : Links.ofDocuments documents = .ok
      [documents.linkTo ⟨"base", "root"⟩ none [],
        documents.linkTo ⟨"app", "env"⟩ (some ⟨"app", "tags"⟩) [([.key "Env"], .combine)],
        documents.linkTo ⟨"app", "tags"⟩ (some ⟨"base", "root"⟩)
          [([.key "Tags"], .prepend)]] := rfl
  have hresult : (ofDocuments documents).map Families.families = .ok [family] := by
    rw [ofDocuments_of_links hlinks]
    cbv
  obtain ⟨families, h, hfamily⟩ :=
    exists_mem_of_map_families hresult (List.mem_singleton_self family)
  obtain ⟨-, hsource⟩ := source_scalar_eq_author hdocuments h hfamily
  exact ⟨hdocuments, ⟨families, h, hfamily⟩, hsource _ ⟨.string "old", rfl⟩ rfl,
    hsource _ ⟨.string "b", rfl⟩ rfl⟩

end Families

end ModularTemplates
