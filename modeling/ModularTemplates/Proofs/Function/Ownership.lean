import Mathlib.Tactic.Lemma
import ModularTemplates.Keyword.Function
import ModularTemplates.Proofs.Function.Entries
import ModularTemplates.Proofs.Provenance.Suppliers

/-!
# Whose code it is

The code of a function has the name that the last member of its family gave it. It belongs to the
module of the last member that supplied the name, and that is the same member unless a later one
combined its own properties with code that others had named. The code of a middleware is named and
owned in the same way.
-/

namespace ModularTemplates

/-- If the last elements with two properties differ, the later one has the weaker property only. -/
lemma LastOf.eq_or_not {α : Type} {P Q : α → Prop} {l : List α} {a b : α} (ha : LastOf P l a)
    (hb : LastOf Q l b) (hPQ : ∀ x, P x → Q x) : b = a ∨ ¬ P b := by
  obtain ⟨hPa, before, after, rfl, hafter⟩ := ha
  obtain ⟨-, before', after', heq, hafter'⟩ := hb
  rcases List.append_eq_append_iff.mp heq
    with ⟨between, -, hbetween⟩ | ⟨between, -, hbetween⟩
  · cases between with
    | nil =>
      cases hbetween
      exact .inl rfl
    | cons x between =>
      cases hbetween
      exact .inr (hafter b (by simp))
  · cases between with
    | nil =>
      cases hbetween
      exact .inl rfl
    | cons x between =>
      cases hbetween
      exact absurd (hPQ a hPa) (hafter' a (by simp))

/-- The members of a family that code at a path goes back to: the last one that writes its name, and
the last one that supplies it. -/
structure CodeIdentity.SuppliedBy (code : CodeIdentity) (documents : Documents) (family : Family)
    (path : Path) (writer supplier : ResourceId) : Prop where
  written : LastOf (documents.Writes (path ++ [.key "name"])) family.members writer
  name : Path.lookup (path ++ [.key "name"]) (documents.ownProperties writer) =
    some (.string code.name)
  supplied : LastOf (documents.Supplies (path ++ [.key "name"])) family.members supplier
  module : code.module = supplier.module
  /-- who supplies a name without writing it combines its properties with the code -/
  taken : supplier = writer ∨ ¬ documents.Writes (path ++ [.key "name"]) supplier ∧
    (documents.rulesOf supplier).Combine [] (documents.ownProperties supplier)
      (path ++ [.key "name"])

namespace Documents

variable {documents : Documents} {family : Family} {code : CodeIdentity}

lemma Resolves.exists_suppliedBy (hdocuments : documents.WellFormed) (h : documents.Resolves family)
    {keys : List String} (hcode : family.code? (.ofKeys keys) = some code) :
    ∃ writer supplier, code.SuppliedBy documents family (.ofKeys keys) writer supplier := by
  have hkeys : Path.ofKeys keys ++ [.key "name"] = .ofKeys (keys ++ ["name"]) := by
    simp [Path.ofKeys]
  rw [Family.code?, Properties.code?] at hcode
  obtain ⟨value, hvalue, hcode⟩ := Option.bind_eq_some_iff.mp hcode
  obtain ⟨name, hname, hcode⟩ := Option.bind_eq_some_iff.mp hcode
  cases hcode
  cases value with
  | string s =>
    cases hname
    rw [hkeys] at hvalue
    obtain ⟨writer, supplier, hwriter, hwritten, hsupplier, howner⟩ :=
      h.exists_supplier hdocuments (x := ⟨.string name, rfl⟩) hvalue
    refine ⟨writer, supplier, ?_⟩
    rw [hkeys]
    constructor
    · rwa [hkeys]
    · rwa [hkeys]
    · rwa [hkeys]
    · exact congrArg ResourceId.module howner
    · rw [hkeys]
      refine (hwriter.eq_or_not hsupplier fun _ => Or.inl).imp_right fun hnot => ⟨hnot, ?_⟩
      exact hsupplier.1.resolve_left hnot
  | _ => cases hname

end Documents

namespace Composer

variable {c : Composer} {id : ResourceId}

/-- The code of a composed function and of each of its middlewares goes back to members of their
families, and the artifact of a function stands under the module that supplied its name. -/
theorem code_of_last_supplier {documents : Documents} (hdocuments : documents.WellFormed)
    (hfamilies : Families.ofDocuments documents = .ok c.families) {composed : ComposedFunction}
    (h : c.compose id = .ok composed) :
    (∃ family writer supplier, c.families.get? id = some family ∧
      composed.function.SuppliedBy documents family c.schema.functionCodePath writer supplier ∧
      ∀ moduleHash : String → String,
        composed.function.artifactKey (moduleHash composed.function.module) =
          "functions/" ++ moduleHash supplier.module ++ "/" ++ composed.function.name) ∧
    ∃ properties, composed.resource.field? "Properties" = some properties ∧
      List.Forall₂ (fun entry code => ∃ middleware family writer supplier,
          entry.resourceId? = some middleware ∧ c.families.get? middleware = some family ∧
            code.SuppliedBy documents family c.schema.middlewareCodePath writer supplier)
        (properties.itemsAt c.schema.middlewaresPath) composed.middlewares := by
  have hsupplied : ∀ {id family code key}, c.families.get? id = some family →
      family.code? [.key c.schema.codeProperty, .key key] = some code →
      ∃ writer supplier, code.SuppliedBy documents family
        [.key c.schema.codeProperty, .key key] writer
        supplier := by
    intro id family code key hget hcode
    have hresolves := Families.resolves_of_get? hdocuments hfamilies hget
    exact @Documents.Resolves.exists_suppliedBy _ _ _ hdocuments hresolves
      [c.schema.codeProperty, key] hcode
  obtain ⟨family, properties, xs, hget, hcode, hproperties, -, -, hentries⟩ :=
    compose_entries hdocuments hfamilies h
  obtain ⟨writer, supplier, hfunction⟩ := hsupplied hget hcode
  refine ⟨⟨family, writer, supplier, hget, hfunction, fun moduleHash => ?_⟩, properties,
    hproperties, ?_⟩
  · rw [CodeIdentity.artifactKey, hfunction.module]
  · refine hentries.imp ?_
    rintro entry code ⟨middleware, family, hid, hget, hcode⟩
    obtain ⟨writer, supplier, hmiddleware⟩ := hsupplied hget hcode
    exact ⟨middleware, family, writer, supplier, hid, hget, hmiddleware⟩

/-- The application renames the code of a function and adds a middleware of a library. -/
theorem code_of_last_supplier_renamed :
    let base : Json := .object [("Type", .string "AWS::Serverless::Function"),
      ("Properties", .single "CodeUri" (.single "Function" (.single "name" (.string "old"))))]
    let more : Json := .object [("Extend", ResourceId.toJson ⟨"base", "f"⟩),
      ("Properties", .single "CodeUri" (.single "Function" (.object [("name", .string "new"),
        ("middlewares", .array [ResourceId.toJson ⟨"lib", "auth"⟩])])))]
    let auth : Json := .object [("Type", .string "Middleware"),
      ("Properties", .single "CodeUri" (.single "Middleware" (.single "name" (.string "check"))))]
    let f : ResourceId := ⟨"base", "f"⟩
    let c : Composer :=
      { families :=
          { documents := [("base", ⟨.single "Resources" (.single "f" base), none⟩),
              ("app", ⟨.single "Resources" (.single "more" more), none⟩),
              ("lib", ⟨.single "Resources" (.single "auth" auth), none⟩)]
            links := [⟨f, base, none, []⟩, ⟨⟨"app", "more"⟩, more, some f, []⟩,
              ⟨⟨"lib", "auth"⟩, auth, none, []⟩]
            families := [⟨f, [f, ⟨"app", "more"⟩],
                .object [("Type", .string "AWS::Serverless::Function"),
                  ("Properties", .single "CodeUri"
                    (.single "Function" (.object [("name", .string "new"),
                    ("middlewares", .array [ResourceId.toJson ⟨"lib", "auth"⟩])])))],
                .fields f [("CodeUri", .fields f [("Function", .fields f
                  [("name", .leaf ⟨"app", "more"⟩),
                    ("middlewares", .leaf ⟨"app", "more"⟩)])])]⟩,
              ⟨⟨"lib", "auth"⟩, [⟨"lib", "auth"⟩], auth, .leaf ⟨"lib", "auth"⟩⟩] }
        schema := .standard
        extensions := [] }
    c.families.documents.WellFormed ∧
      Families.ofDocuments c.families.documents = .ok c.families ∧
      ∃ composed, c.compose f = .ok composed ∧
        (∃ family writer supplier, c.families.get? f = some family ∧
          composed.function.SuppliedBy c.families.documents family c.schema.functionCodePath writer
            supplier) ∧
        composed.function = ⟨"app", "new"⟩ ∧
        composed.middlewares = [⟨"lib", "check"⟩] := by
  intro base more auth f c
  have hdocuments : c.families.documents.WellFormed := by decide
  have hfamilies : Families.ofDocuments c.families.documents = .ok c.families := by cbv
  have hresult :
    (c.compose f).toOption.map (fun composed => (composed.function, composed.middlewares)) =
      some (⟨"app", "new"⟩, [⟨"lib", "check"⟩]) := by decide +kernel
  obtain ⟨composed, hcomposed, hcode⟩ := Option.map_eq_some_iff.mp hresult
  obtain ⟨hfunction, hmiddlewares⟩ := Prod.mk.inj hcode
  rw [toOption_eq_some_iff] at hcomposed
  obtain ⟨⟨family, writer, supplier, hget, hsupplied, -⟩, -⟩ :=
    code_of_last_supplier hdocuments hfamilies hcomposed
  exact ⟨hdocuments, hfamilies, composed, hcomposed,
    ⟨family, writer, supplier, hget, hsupplied⟩, hfunction, hmiddlewares⟩

/-- The application combines the code of a function with a list of middlewares. The code belongs to
the application now, which does not name it. -/
theorem combined_code_taken :
    let base : Json := .object [("Type", .string "AWS::Serverless::Function"),
      ("Properties", .single "CodeUri" (.single "Function" (.single "name" (.string "handler"))))]
    let more : Json := .object
      [("Extend", .object [("module", .string "base"), ("resource", .string "f"),
        ("rules", .single "CodeUri" (.string "COMBINE"))]),
      ("Properties", .single "CodeUri" (.single "Function" (.single "middlewares" (.array
        [.single "resource" (.string "auth")]))))]
    let auth : Json := .object [("Type", .string "Middleware"),
      ("Properties", .single "CodeUri" (.single "Middleware" (.single "name" (.string "check"))))]
    let f : ResourceId := ⟨"base", "f"⟩
    let family : Family := ⟨f, [f, ⟨"app", "more"⟩],
      .object [("Type", .string "AWS::Serverless::Function"),
        ("Properties", .single "CodeUri" (.single "Function" (.object [("name", .string "handler"),
          ("middlewares", .array [.single "resource" (.string "auth")])])))],
      .fields f [("CodeUri", .leaf ⟨"app", "more"⟩)]⟩
    let c : Composer :=
      { families :=
          { documents := [("base", ⟨.single "Resources" (.single "f" base), none⟩),
              ("app", ⟨.single "Resources" (.object [("more", more), ("auth", auth)]), none⟩)]
            links :=
              [⟨f, base, none, []⟩,
                ⟨⟨"app", "more"⟩, more, some f, [([.key "CodeUri"], .combine)]⟩,
                ⟨⟨"app", "auth"⟩, auth, none, []⟩]
            families :=
              [family,
                ⟨⟨"app", "auth"⟩, [⟨"app", "auth"⟩], auth, .leaf ⟨"app", "auth"⟩⟩] }
        schema := .standard
        extensions := [] }
    c.families.documents.WellFormed ∧
      Families.ofDocuments c.families.documents = .ok c.families ∧
      c.families.get? f = some family ∧
      LastOf (c.families.documents.Writes (c.schema.functionCodePath ++ [.key "name"]))
        family.members f ∧
      ∃ composed, c.compose f = .ok composed ∧ composed.function = ⟨"app", "handler"⟩ := by
  intro base more auth f family c
  have hresult : (c.compose f).toOption.map ComposedFunction.function =
      some ⟨"app", "handler"⟩ := by
    decide +kernel
  obtain ⟨composed, hcomposed, hfunction⟩ := Option.map_eq_some_iff.mp hresult
  have hwrites :
    ∀ id, c.families.documents.Writes (c.schema.functionCodePath ++ [.key "name"]) id ↔
      (Path.lookup (c.schema.functionCodePath ++ [.key "name"])
        (c.families.documents.ownProperties id)).isSome := by
    intro id
    rw [Documents.Writes, Option.isSome_iff_ne_none]
  have hlinks : Links.ofDocuments c.families.documents = .ok c.families.links := rfl
  have hfamilies : Families.ofDocuments c.families.documents = .ok c.families := by
    rw [Families.ofDocuments_of_links hlinks]
    cbv
  refine ⟨by decide, hfamilies, by cbv,
    ⟨(hwrites f).mpr (by decide +kernel), [], [⟨"app", "more"⟩],
    rfl, fun id hid => ?_⟩, composed, toOption_eq_some_iff.mp hcomposed, hfunction⟩
  rw [List.mem_singleton.mp hid, hwrites]
  decide +kernel

end Composer

end ModularTemplates
