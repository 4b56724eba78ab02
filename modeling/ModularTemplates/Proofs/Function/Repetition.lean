import Mathlib.Tactic.Lemma
import ModularTemplates.Proofs.Function.Entries
import ModularTemplates.Proofs.Same

/-!
# Middlewares that are listed more than once

Entries of a middleware list that are the same after qualification are one entry. So a middleware
that is listed by its address only is used once, whoever lists it and whether the module is spelled
out or not. It is used more than once if entries for it hold something besides the address, or if
they name different members of its family.
-/

namespace ModularTemplates

namespace Json

variable {x y : Json} {xs : List Json}

/-! ### Entries that are not the same -/

/-- Of the items that are kept no two are the same. -/
lemma pairwise_distinctItems (xs : List Json) :
    (distinctItems xs).Pairwise fun x y => x.same y = false := by
  have hloop : ∀ xs kept : List Json, kept.Pairwise (fun x y => x.same y = false) →
      (xs.foldl (fun kept x => if kept.any (same · x) then kept else kept ++ [x]) kept).Pairwise
        fun x y => x.same y = false := by
    intro xs
    induction xs with
    | nil => exact fun kept hkept => hkept
    | cons x xs ih =>
      intro kept hkept
      rw [List.foldl_cons]
      refine ih _ ?_
      split_ifs with hany
      · exact hkept
      · refine List.pairwise_append.mpr
          ⟨hkept, List.pairwise_singleton _ _, fun y hy z hz => ?_⟩
        rw [List.mem_singleton.mp hz]
        simpa using fun hsame => hany (List.any_eq_true.mpr ⟨y, hy, hsame⟩)
  exact hloop xs [] .nil

lemma field?_of_resourceId? {id : ResourceId} (h : x.resourceId? = some id) :
    x.field? "module" = some (.string id.module) ∧
    x.field? "resource" = some (.string id.resource) := by
  have htext : ∀ {v : Json} {s}, v.asString? = some s → v = .string s := by
    intro v s hs
    cases v <;> cases hs
    rfl
  obtain ⟨v, hv, h⟩ := Option.bind_eq_some_iff.mp h
  obtain ⟨module, hmodule, h⟩ := Option.bind_eq_some_iff.mp h
  obtain ⟨w, hw, h⟩ := Option.bind_eq_some_iff.mp h
  obtain ⟨resource, hresource, h⟩ := Option.bind_eq_some_iff.mp h
  cases h
  rw [hv, hw, htext hmodule, htext hresource]
  exact ⟨rfl, rfl⟩

/-- Entries for one resource that are not the same differ besides the address. -/
lemma exists_not_sameAt (hx : x.WellFormed) (hy : y.WellFormed) (h : x.same y = false)
    {id : ResourceId} (hidx : x.resourceId? = some id) (hidy : y.resourceId? = some id) :
    ∃ key, key ≠ "module" ∧ key ≠ "resource" ∧ ¬ SameAt key x y := by
  obtain ⟨hmodulex, hresourcex⟩ := field?_of_resourceId? hidx
  obtain ⟨hmoduley, hresourcey⟩ := field?_of_resourceId? hidy
  obtain ⟨fs, rfl⟩ := exists_object_of_child? ((child?_key x "module").trans hmodulex)
  obtain ⟨gs, rfl⟩ := exists_object_of_child? ((child?_key y "module").trans hmoduley)
  have htext :
      ∀ s, Option.Rel (fun v w => v.same w = true) (some (Json.string s))
      (some (Json.string s)) :=
    fun s => .some (by simp [same])
  by_contra hsame
  push Not at hsame
  have hall : ∀ key, SameAt key (object fs) (object gs) := by
    intro key
    by_cases hmodule : key = "module"
    · rw [hmodule, SameAt, hmodulex, hmoduley]
      exact htext _
    by_cases hresource : key = "resource"
    · rw [hresource, SameAt, hresourcex, hresourcey]
      exact htext _
    exact hsame key hmodule hresource
  rw [same_of_sameAt hx.distinct hy.distinct hall] at h
  cases h

end Json

namespace Composer

variable {c : Composer} {id : ResourceId}

/-- The middlewares of a composed function are those that its list names, one by one. Two entries of
the list name different resources, or they hold different things besides the address. -/
theorem middlewares_listed_once {documents : Documents} (hdocuments : documents.WellFormed)
    (hfamilies : Families.ofDocuments documents = .ok c.families) {composed : ComposedFunction}
    (h : c.compose id = .ok composed) :
    ∃ properties, composed.resource.field? "Properties" = some properties ∧
      List.Forall₂ c.NamesCode (properties.itemsAt c.schema.middlewaresPath)
        composed.middlewares ∧
      (properties.itemsAt c.schema.middlewaresPath).Pairwise fun x y =>
        x.resourceId? ≠ y.resourceId? ∨
          ∃ key, key ≠ "module" ∧ key ≠ "resource" ∧ ¬ Json.SameAt key x y := by
  obtain ⟨family, properties, xs, -, -, hproperties, hwell, hdistinct, hentries⟩ :=
    compose_entries hdocuments hfamilies h
  refine ⟨properties, hproperties, hentries, ?_⟩
  have hnamed : ∀ x ∈ properties.itemsAt c.schema.middlewaresPath, ∃ id,
      x.resourceId? = some id := by
    intro x hx
    obtain ⟨code, -, id, family, hid, -⟩ := exists_mem_of_forall₂ hentries x hx
    exact ⟨id, hid⟩
  have hitems : ∀ x ∈ properties.itemsAt c.schema.middlewaresPath, x.WellFormed := by
    intro x hx
    obtain ⟨i, hi⟩ := List.mem_iff_getElem?.mp hx
    exact hwell.lookup (Json.lookup_of_itemsAt hi)
  have hpairwise := Json.pairwise_distinctItems xs
  rw [← hdistinct] at hpairwise
  refine hpairwise.imp_of_mem fun {x y} hx hy hsame => ?_
  rw [or_iff_not_imp_left, not_not]
  intro heq
  obtain ⟨id, hid⟩ := hnamed x hx
  exact Json.exists_not_sameAt (hitems x hx) (hitems y hy) hsame hid (heq ▸ hid)

/-- A function and an extension list a middleware, once without the module. It is used once. -/
theorem middlewares_listed_once_three_times :
    let function : Json := .object [("Type", .string "AWS::Serverless::Function"),
      ("Properties", .single "CodeUri" (.single "Function" (.object [("name", .string "handler"),
        ("middlewares", .array [.single "resource" (.string "auth"),
          ResourceId.toJson ⟨"app", "auth"⟩])])))]
    let auth : Json := .object [("Type", .string "Middleware"),
      ("Properties", .single "CodeUri" (.single "Middleware" (.single "name" (.string "check"))))]
    let api : ResourceId := ⟨"app", "api"⟩
    let c : Composer :=
      { families :=
          { documents :=
              [("app",
                ⟨.single "Resources" (.object [("api", function), ("auth", auth)]), none⟩)]
            links := [⟨api, function, none, []⟩, ⟨⟨"app", "auth"⟩, auth, none, []⟩]
            families := [⟨api, [api], function, .leaf api⟩,
              ⟨⟨"app", "auth"⟩, [⟨"app", "auth"⟩], auth, .leaf ⟨"app", "auth"⟩⟩] }
        schema := .standard
        extensions := [⟨"app", [⟨"auth", none⟩], []⟩] }
    c.families.documents.WellFormed ∧
      Families.ofDocuments c.families.documents = .ok c.families ∧
      ∃ composed properties, c.compose api = .ok composed ∧
        composed.resource.field? "Properties" = some properties ∧
        List.Forall₂ c.NamesCode (properties.itemsAt c.schema.middlewaresPath)
          composed.middlewares ∧
        composed.middlewares = [⟨"app", "check"⟩] := by
  intro function auth api c
  have hdocuments : c.families.documents.WellFormed := by decide
  have hfamilies : Families.ofDocuments c.families.documents = .ok c.families := by cbv
  have hresult : (c.compose api).toOption.map ComposedFunction.middlewares =
      some [⟨"app", "check"⟩] := by
    decide +kernel
  obtain ⟨composed, hcomposed, hmiddlewares⟩ := Option.map_eq_some_iff.mp hresult
  rw [toOption_eq_some_iff] at hcomposed
  obtain ⟨properties, hproperties, hentries, -⟩ :=
    middlewares_listed_once hdocuments hfamilies hcomposed
  exact ⟨hdocuments, hfamilies, composed, properties, hcomposed, hproperties, hentries,
    hmiddlewares⟩

/-- Two entries for one middleware, one of them with a note, and an entry for an extender of the
middleware. The code is used three times. -/
theorem middleware_used_three_times :
    let function : Json := .object [("Type", .string "AWS::Serverless::Function"),
      ("Properties", .single "CodeUri" (.single "Function" (.object [("name", .string "handler"),
        ("middlewares", .array [.single "resource" (.string "auth"),
          .object [("resource", .string "auth"), ("note", .string "again")],
          .single "resource" (.string "more")])])))]
    let auth : Json := .object [("Type", .string "Middleware"),
      ("Properties", .single "CodeUri" (.single "Middleware" (.single "name" (.string "check"))))]
    let more : Json := .object [("Type", .string "Middleware"),
      ("Extend", .single "resource" (.string "auth")),
      ("Properties", .single "CodeUri" (.single "Middleware" (.single "name" (.string "check"))))]
    let api : ResourceId := ⟨"app", "api"⟩
    let family : Family := ⟨⟨"app", "auth"⟩, [⟨"app", "auth"⟩, ⟨"app", "more"⟩], auth,
      .fields ⟨"app", "auth"⟩
        [("CodeUri", .fields ⟨"app", "auth"⟩ [("Middleware", .fields ⟨"app", "auth"⟩
        [("name", .leaf ⟨"app", "more"⟩)])])]⟩
    let c : Composer :=
      { families :=
          { documents := [("app", ⟨.single "Resources" (.object
              [("api", function), ("auth", auth), ("more", more)]), none⟩)]
            links := [⟨api, function, none, []⟩, ⟨⟨"app", "auth"⟩, auth, none, []⟩,
              ⟨⟨"app", "more"⟩, more, some ⟨"app", "auth"⟩, []⟩]
            families := [⟨api, [api], function, .leaf api⟩, family] }
        schema := .standard
        extensions := [] }
    c.families.documents.WellFormed ∧
      Families.ofDocuments c.families.documents = .ok c.families ∧
      c.families.get? ⟨"app", "auth"⟩ = some family ∧
      c.families.get? ⟨"app", "more"⟩ = some family ∧
      ∃ composed properties, c.compose api = .ok composed ∧
        composed.resource.field? "Properties" = some properties ∧
        (properties.itemsAt c.schema.middlewaresPath).map Json.resourceId? =
          [some ⟨"app", "auth"⟩, some ⟨"app", "auth"⟩, some ⟨"app", "more"⟩] ∧
        composed.middlewares = [⟨"app", "check"⟩, ⟨"app", "check"⟩,
          ⟨"app", "check"⟩] := by
  intro function auth more api family c
  have hresult : (c.compose api).toOption.map (fun composed => (composed.middlewares,
      (composed.resource.field? "Properties").map fun properties =>
        (properties.itemsAt c.schema.middlewaresPath).map Json.resourceId?)) =
      some ([⟨"app", "check"⟩, ⟨"app", "check"⟩, ⟨"app", "check"⟩],
        some [some ⟨"app", "auth"⟩, some ⟨"app", "auth"⟩,
          some ⟨"app", "more"⟩]) := by decide +kernel
  obtain ⟨composed, hcomposed, heq⟩ := Option.map_eq_some_iff.mp hresult
  obtain ⟨hmiddlewares, hentries⟩ := Prod.mk.inj heq
  obtain ⟨properties, hproperties, hentries⟩ := Option.map_eq_some_iff.mp hentries
  exact ⟨by decide, by cbv, by cbv, by cbv, composed, properties,
    toOption_eq_some_iff.mp hcomposed, hproperties, hentries, hmiddlewares⟩

end Composer

end ModularTemplates
