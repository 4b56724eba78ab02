import Mathlib.Tactic.Lemma
import ModularTemplates.Proofs.Family.Partition
import ModularTemplates.Proofs.Function.Injection
import ModularTemplates.Proofs.Function.WellFormed
import ModularTemplates.Proofs.Provenance.Authors
import ModularTemplates.Proofs.Provenance.Fits

/-!
# Recorded places of merged properties

The provenance of a family fits its properties, after every member that is merged and after every
contribution of an extension to a function. No contribution drops records by turning those of
properties into those of items or the other way round.
-/

namespace ModularTemplates

/-- A source is merged into properties, and the changes are entered. The provenance fits before and
afterwards, and each change keeps the records that there are. -/
def Properties.Absorbs (rules : Rules) (p : Properties) (contributor : ResourceId) (source : Json)
    (next : Properties) : Prop :=
  ∃ changes, (merge rules p.value source).result = .ok (next.value, changes) ∧
    next.provenance = p.provenance.enterAll changes contributor next.value ∧
    p.provenance.Fits p.value ∧ Provenance.Gently contributor next.value changes p.provenance ∧
    next.provenance.Fits next.value

namespace Properties

variable {rules : Rules} {p next : Properties} {contributor : ResourceId} {source : Json}

lemma Absorbs.fits (h : p.Absorbs rules contributor source next) :
    next.provenance.Fits next.value := by
  obtain ⟨-, -, -, -, -, hfits⟩ := h
  exact hfits

/-- Whatever is merged into properties that their provenance fits is absorbed. -/
lemma absorbs_of_merge {changes : List Change} (hsource : source.WellFormed)
    (hp : p.provenance.Fits p.value)
    (hresult : (merge rules p.value source).result = .ok (next.value, changes))
    (hprovenance : next.provenance = p.provenance.enterAll changes contributor next.value) :
    p.Absorbs rules contributor source next := by
  obtain ⟨hfits, hgently⟩ := hp.enterAll contributor (Merges.of_merge hsource hresult)
  exact ⟨changes, hresult, hprovenance, hp, hgently, hprovenance ▸ hfits⟩

lemma absorbs_of_inject {schema : Schema} {function : ResourceId} {injection : Injection}
    (hinjection : injection.2.WellFormed) (hp : p.provenance.Fits p.value)
    (h : p.inject schema function injection = .ok next) :
    p.Absorbs schema.injectionRules injection.1 injection.2 next := by
  obtain ⟨changes, hresult, hprovenance⟩ := inject_eq_ok h
  exact absorbs_of_merge hinjection hp hresult hprovenance

/-- After any contributions of extensions the provenance fits the properties. -/
lemma fits_of_injections {schema : Schema} {function : ResourceId} {type : String}
    {extensions : List Extension} {injections : List Injection}
    (hinjections : injections ⊆ extensions.flatMap (schema.injections type))
    (hp : p.provenance.Fits p.value) (h : injections.foldlM (inject schema function) p = .ok next) :
    next.provenance.Fits next.value := by
  refine foldlM_invariant (fun p => p.provenance.Fits p.value) hp
    (fun p injection next hmem hp hnext => ?_) h
  obtain ⟨extension, -, hmem⟩ := List.mem_flatMap.mp (hinjections hmem)
  exact (absorbs_of_inject (Schema.wellFormed_injection hmem) hp hnext).fits

end Properties

namespace Documents

variable {documents : Documents} {family : Family}

lemma absorbs_of_contribute (hdocuments : documents.WellFormed) {p : Properties}
    {next : Json × Provenance} {id : ResourceId} (hp : p.provenance.Fits p.value)
    (h : documents.contribute (p.value, p.provenance) id = .ok next) :
    p.Absorbs (documents.rulesOf id) id (documents.ownProperties id) ⟨next.1, next.2⟩ := by
  obtain ⟨⟨properties, changes⟩, hresult, hnext⟩ := bind_eq_ok_iff.mp h
  cases hnext
  exact Properties.absorbs_of_merge (wellFormed_ownProperties hdocuments id) hp hresult rfl

/-- After any members of a family the provenance fits the properties. -/
lemma fits_of_contributions (hdocuments : documents.WellFormed) {members : List ResourceId}
    {root : ResourceId} {sofar : Json × Provenance}
    (h : members.foldlM documents.contribute (documents.ownProperties root, .leaf root) =
      .ok sofar) :
    sofar.2.Fits sofar.1 :=
  foldlM_invariant (fun sofar => sofar.2.Fits sofar.1) (Provenance.fits_leaf root _)
    (fun sofar _ _ _ hsofar hnext =>
      (absorbs_of_contribute (p := ⟨sofar.1, sofar.2⟩) hdocuments hsofar hnext).fits) h

end Documents

namespace Families

variable {documents : Documents} {families : Families} {family : Family}

/-- The provenance of a family fits its properties, after each member and after each contribution of
an extension, and entering the changes of a member or contribution only drops records of what it
replaces or combines. -/
theorem provenance_fits (hdocuments : documents.WellFormed)
    (h : ofDocuments documents = .ok families) (hfamily : family ∈ families.families) :
    family.provenance.Fits family.properties ∧
    (∀ before id after, family.members.tail = before ++ id :: after → ∃ p next : Properties,
      before.foldlM documents.contribute (documents.ownProperties family.root, .leaf family.root) =
        .ok (p.value, p.provenance) ∧
      documents.contribute (p.value, p.provenance) id = .ok (next.value, next.provenance) ∧
      p.Absorbs (documents.rulesOf id) id (documents.ownProperties id) next) ∧
    ∀ (schema : Schema) (extensions : List Extension) (type : String) (function : ResourceId)
      before injection after,
      extensions.flatMap (schema.injections type) = before ++ injection :: after →
      ∀ p next, before.foldlM (Properties.inject schema function)
        ⟨family.properties, family.provenance⟩ = .ok p →
        p.inject schema function injection = .ok next →
        p.Absorbs schema.injectionRules injection.1 injection.2 next := by
  have hmerged := (resolves hdocuments h hfamily).merged
  have hfits : family.provenance.Fits family.properties :=
    Documents.fits_of_contributions hdocuments hmerged
  refine ⟨hfits, ?_, ?_⟩
  · intro before id after hsplit
    rw [hsplit, List.foldlM_append] at hmerged
    obtain ⟨⟨properties, provenance⟩, hbefore, hmerged⟩ := bind_eq_ok_iff.mp hmerged
    rw [List.foldlM_cons] at hmerged
    obtain ⟨next, hnext, -⟩ := bind_eq_ok_iff.mp hmerged
    refine ⟨⟨properties, provenance⟩, ⟨next.1, next.2⟩, hbefore, hnext, ?_⟩
    exact Documents.absorbs_of_contribute hdocuments
      (Documents.fits_of_contributions hdocuments hbefore) hnext
  · intro schema extensions type function before injection after hsplit p next hbefore hnext
    have hmem : injection ∈ extensions.flatMap (schema.injections type) :=
      hsplit ▸ List.mem_append_right before List.mem_cons_self
    have hsubset : before ⊆ extensions.flatMap (schema.injections type) :=
      hsplit ▸ List.subset_append_left before _
    obtain ⟨extension, -, hmem⟩ := List.mem_flatMap.mp hmem
    exact Properties.absorbs_of_inject (Schema.wellFormed_injection hmem)
      (Properties.fits_of_injections hsubset hfits hbefore) hnext

/-- An item is put before one that is recorded, and a middleware is added where no list has been. -/
theorem provenance_fits_moved_item :
    let documents : Documents :=
      [("base", ⟨.single "Resources" (.object
          [("api", .object [("Properties", .object [("Tags", .array [.string "old"])])]),
          ("first", .object
            [("Extend", .object [("resource", .string "api"),
              ("rules", .single "Tags" (.string "APPEND"))]),
            ("Properties", .single "Tags" (.array [.string "next"]))])]), none⟩),
        ("app", ⟨.single "Resources" (.single "second" (.object
          [("Extend", .object [("module", .string "base"), ("resource", .string "api"),
            ("rules", .single "Tags" (.string "PREPEND"))]),
          ("Properties", .single "Tags" (.array [.string "new"]))])), none⟩)]
    let family : Family :=
      { root := ⟨"base", "api"⟩
        members := [⟨"base", "api"⟩, ⟨"base", "first"⟩, ⟨"app", "second"⟩]
        resource :=
          .single "Properties" (.single "Tags"
            (.array [.string "new", .string "old", .string "next"]))
        provenance := .fields ⟨"base", "api"⟩ [("Tags", .items ⟨"base", "api"⟩
          [some (.leaf ⟨"app", "second"⟩), none, some (.leaf ⟨"base", "first"⟩)])] }
    let injection := Schema.standard.middlewareInjection ⟨"auth", "check"⟩
    let next : Properties := ⟨.object
        [("Tags", .array [.string "new", .string "old", .string "next"]),
          ("CodeUri", .single "Function"
            (.single "middlewares" (.array [ResourceId.toJson ⟨"auth", "check"⟩])))],
      .fields ⟨"base", "api"⟩ [("Tags", .items ⟨"base", "api"⟩
          [some (.leaf ⟨"app", "second"⟩), none, some (.leaf ⟨"base", "first"⟩)]),
        ("CodeUri", .leaf ⟨"auth", "check"⟩)]⟩
    documents.WellFormed ∧
      (∃ families, ofDocuments documents = .ok families ∧ family ∈ families.families) ∧
      family.provenance.Fits family.properties ∧
      Properties.Absorbs Schema.standard.injectionRules ⟨family.properties, family.provenance⟩
        injection.1 injection.2 next := by
  intro documents family injection next
  have hdocuments : documents.WellFormed := by decide
  have hlinks : Links.ofDocuments documents = .ok
      [documents.linkTo ⟨"base", "api"⟩ none [],
        documents.linkTo ⟨"base", "first"⟩ (some ⟨"base", "api"⟩)
          [([.key "Tags"], .append)],
        documents.linkTo ⟨"app", "second"⟩ (some ⟨"base", "api"⟩)
          [([.key "Tags"], .prepend)]] := rfl
  have hresult : (ofDocuments documents).map Families.families = .ok [family] := by
    rw [ofDocuments_of_links hlinks]
    cbv
  obtain ⟨families, h, hfamily⟩ :=
    exists_mem_of_map_families hresult (List.mem_singleton_self family)
  obtain ⟨hfits, -, hinjections⟩ := provenance_fits hdocuments h hfamily
  refine ⟨hdocuments, ⟨families, h, hfamily⟩, hfits, ?_⟩
  exact hinjections .standard [⟨"auth", [⟨"check", none⟩], []⟩] "Function"
    ⟨"base", "api"⟩ [] injection [] rfl
    ⟨family.properties, family.provenance⟩ next rfl (by cbv)

end Families

end ModularTemplates
