import Mathlib.Tactic.Lemma
import ModularTemplates.Proofs.Family.SameButLists
import ModularTemplates.Proofs.Function.SameButLists

/-!
# Composers that use the same middlewares

Middleware lists do not count for what a middleware is, or whether it passes the checks. So two
composers whose resources are the same but for middleware lists use the same middlewares. Merging
them beside the code property goes alike, whatever the code property holds.
-/

namespace ModularTemplates

/-! ### Resources -/

namespace Json.SameButList

variable {keys : List String} {key : String} {v w body body' : Json} {schema : Schema}

lemma textField_eq (h : SameButList (key :: keys) v w) {other : String} (hother : other ≠ key) :
    w.textField other = v.textField other := by
  rw [textField, textField, h.field?_of_ne hother]

lemma hasCodeKeyword_eq (h : SameButList ("Properties" :: schema.middlewaresKeys) body body')
    (keyword : String) :
    body'.hasCodeKeyword schema keyword = body.hasCodeKeyword schema keyword := by
  have hfound := h.map_lookup (f := fun _ => ()) (fun _ _ => rfl) (fun _ _ => rfl)
    (p := [.key "Properties", .key schema.codeProperty, .key keyword])
    (Path.outside_of_length_le (by simp [Schema.middlewaresKeys]))
  rw [Json.hasCodeKeyword_eq, Json.hasCodeKeyword_eq,
    ← Option.isSome_map (f := fun _ => ()), hfound, Option.isSome_map]

end Json.SameButList

/-! ### Composers -/

namespace Composer

/-- A composer of well-formed documents whose extensions have been resolved. -/
structure Accepted (c : Composer) : Prop where
  wellFormed : c.families.documents.WellFormed
  families : Families.ofDocuments c.families.documents = .ok c.families

/-- The same resources and the same contributions, but for the lists of middlewares. -/
structure SameButLists (c c' : Composer) : Prop where
  schema : c'.schema = c.schema
  resources :
    Documents.SameButLists c.schema.middlewaresKeys c.families.documents c'.families.documents
  contributions : ∀ type, List.Forall₂ c.schema.SameContribution
    (c.extensions.flatMap (c.schema.injections type))
      (c'.extensions.flatMap (c.schema.injections type))

variable {c c' : Composer} {function id a b : ResourceId}

lemma Accepted.resolves (hc : c.Accepted) {family : Family} (h : c.families.get? id = some family) :
    c.families.documents.Resolves family :=
  Families.resolves_of_get? hc.wellFormed hc.families h

lemma Accepted.exists_qualified (hc : c.Accepted) {family : Family}
    (h : c.families.get? id = some family) :
    ∃ fs, family.qualified c.schema = .object fs ∧ (Json.object fs).WellFormed :=
  (hc.resolves h).exists_qualified hc.wellFormed c.schema

namespace SameButLists

variable (h : c.SameButLists c') (hc : c.Accepted) (hc' : c'.Accepted)

include h hc hc'

lemma resource? (id : ResourceId) :
    Option.Rel (Json.SameButList ("Properties" :: c.schema.middlewaresKeys))
    (c.families.documents.resource? id) (c'.families.documents.resource? id) :=
  h.resources.resource? hc.wellFormed hc'.wellFormed id

lemma get? (id : ResourceId) :
    Option.Rel (Family.SameButList c.schema.middlewaresKeys) (c.families.get? id)
      (c'.families.get? id) :=
  Families.get?_sameButList hc.wellFormed hc'.wellFormed hc.families hc'.families h.resources id

lemma admits_iff (id : ResourceId) : c'.Admits id ↔ c.Admits id := by
  have hbody := h.resource? hc hc' id
  rw [Admits, Admits, h.schema]
  generalize c.families.documents.resource? id = v, c'.families.documents.resource? id = w at hbody
  cases hbody with
  | none => simp
  | some hbody =>
    simp [hbody.textField_eq (show "Type" ≠ "Properties" by decide), hbody.hasCodeKeyword_eq]

omit h hc' in
lemma eraseField_qualified {family family' : Family} (hget : c.families.get? id = some family)
    (hfamily : family.SameButList c.schema.middlewaresKeys family') :
    (family'.qualified c.schema).eraseField c.schema.codeProperty =
      (family.qualified c.schema).eraseField c.schema.codeProperty := by
  have hqualified : Json.SameButList c.schema.middlewaresKeys (family.qualified c.schema)
      (family'.qualified c.schema) := hfamily.merged.qualifyReferences c.schema
  obtain ⟨fs, hfs, hwell⟩ := hc.exists_qualified hget
  rw [hfs] at hqualified
  rw [hfs]
  rcases hqualified with heq | ⟨_, gs, heq, heq', hfields⟩
  · rw [heq]
  · cases heq
    rw [heq', Json.eraseField, Json.eraseField, hfields.erase_eq hwell.distinct]

/-- A middleware is the same wherever its resources are the same but for lists of middlewares. -/
lemma middleware_eq_ok_iff (id : ResourceId) {r : CodeIdentity × Json} :
    c'.middleware function id = .ok r ↔ c.middleware function id = .ok r := by
  obtain ⟨code, added⟩ := r
  rw [Composer.middleware_eq_ok_iff, Composer.middleware_eq_ok_iff, h.admits_iff hc hc', h.schema]
  refine and_congr_right fun _ => ?_
  have hfamily := h.get? hc hc' id
  cases hget : c.families.get? id with
  | none =>
    rw [hget] at hfamily
    cases hget' : c'.families.get? id with
    | none => simp
    | some family' => simp [hget'] at hfamily
  | some family =>
    rw [hget] at hfamily
    cases hget' : c'.families.get? id with
    | none => simp [hget'] at hfamily
    | some family' =>
      rw [hget'] at hfamily
      cases hfamily with
      | some hfamily =>
        have hcode : family'.code? c.schema.middlewareCodePath =
            family.code? c.schema.middlewareCodePath :=
          hfamily.merged.code?_eq (by simp [Schema.middlewareCodePath, Schema.middlewaresKeys])
        simp [hcode, eraseField_qualified hc hget hfamily]

end SameButLists

/-- Members of one family that pass the same checks are the same middleware. -/
lemma middleware_eq_ok_iff_of_get?_eq (hfamily : c.families.get? a = c.families.get? b)
    (hadmits : c.Admits a ↔ c.Admits b) {r : CodeIdentity × Json} :
    c.middleware function a = .ok r ↔ c.middleware function b = .ok r := by
  obtain ⟨code, added⟩ := r
  rw [middleware_eq_ok_iff, middleware_eq_ok_iff, hfamily, hadmits]

end Composer

/-! ### Merging middlewares -/

section Merging

variable {R : Json → Json → Prop} {rules : Rules} {key : String} {ts us ss : Fields Json}

/-- What the source does not have is not looked at. -/
lemma mergeFields_sameBut (rules : Rules) (path : Path) (h : Fields.SameBut R key ts us)
    (hss : key ∉ Fields.keys ss) :
    (mergeFields rules path us ss).error = (mergeFields rules path ts ss).error ∧
      Fields.SameBut R key (mergeFields rules path ts ss).target
        (mergeFields rules path us ss).target := by
  induction ss generalizing ts us with
  | nil => exact ⟨rfl, h⟩
  | cons field ss ih =>
    obtain ⟨k, s⟩ := field
    rw [Fields.keys_cons, List.mem_cons, not_or] at hss
    have hk : k ≠ key := Ne.symm hss.1
    simp only [mergeFields, h.get?_of_ne hk]
    obtain ⟨herror, htarget⟩ := ih (h.set_other hk _) hss.2
    unfold Merged.next
    split
    · exact ⟨rfl, h.set_other hk _⟩
    · exact ⟨herror, htarget⟩

lemma merge_sameBut (hfind : rules.find? [] = none) (h : Fields.SameBut R key ts us)
    (hss : key ∉ Fields.keys ss) :
    Alike (fun r r' => ∃ fs gs, r.1 = .object fs ∧ r'.1 = .object gs ∧
      Fields.SameBut R key fs gs)
      (merge rules (.object ts) (.object ss)).result
        (merge rules (.object us) (.object ss)).result := by
  have hmerge : ∀ ts, merge rules (.object ts) (.object ss) =
      (mergeFields rules [] ts ss).map .object := by
    intro ts
    rw [merge, mergeAt, hfind]
  obtain ⟨herror, htarget⟩ := mergeFields_sameBut rules [] h hss
  rw [hmerge, hmerge, Merged.result, Merged.result, Merged.map, Merged.map, herror]
  cases (mergeFields rules [] ts ss).error with
  | none => exact .ok ⟨_, _, rfl, rfl, htarget⟩
  | some e => exact .error e e

end Merging

namespace Composer

variable {c c' : Composer} {function : ResourceId} {R : Json → Json → Prop}
  {ts us : Fields Json}

/-- Two entries name nothing, or they name resources that are the same middleware. -/
def SameMiddleware (c c' : Composer) (function : ResourceId) (x y : Json) : Prop :=
  x.resourceId? = none ∧ y.resourceId? = none ∨
    ∃ a b, x.resourceId? = some a ∧ y.resourceId? = some b ∧
      ∀ r, c.middleware function a = .ok r ↔ c'.middleware function b = .ok r

/-- The same middlewares are merged beside the code property, whatever the code property is. -/
lemma alike_addMiddlewares (hschema : c'.schema = c.schema) (hc : c.Accepted)
    {entries entries' : List Json}
    (hentries : List.Forall₂ (c.SameMiddleware c' function) entries entries')
    (h : Fields.SameBut R c.schema.codeProperty ts us) (index : Nat) :
    Alike (fun r r' => r'.2 = r.2 ∧
        ∃ fs gs, r.1 = .object fs ∧ r'.1 = .object gs ∧
          Fields.SameBut R c.schema.codeProperty fs gs)
      (c.addMiddlewares function index entries (.object ts))
      (c'.addMiddlewares function index entries' (.object us)) := by
  induction hentries generalizing index ts us with
  | nil => exact .ok ⟨rfl, ts, us, rfl, rfl, h⟩
  | cons hentry _ ih =>
    rw [addMiddlewares, addMiddlewares]
    rcases hentry with ⟨hx, hy⟩ | ⟨a, b, hx, hy, hmiddleware⟩
    · rw [hx, hy]
      exact .error _ _
    · rw [hx, hy]
      refine Alike.bind (R := fun x y => x = a ∧ y = b) (.ok ⟨rfl, rfl⟩) ?_
      rintro _ _ - - ⟨rfl, rfl⟩
      refine Alike.bind (Alike.of_eq_ok_iff hmiddleware) ?_
      rintro ⟨code, added⟩ _ hadded - rfl
      obtain ⟨-, family, hfamily, -, rfl⟩ := middleware_eq_ok_iff.mp hadded
      obtain ⟨ss, hss, hwell⟩ := hc.exists_qualified hfamily
      have hcode : c.schema.codeProperty ∉ (Fields.erase ss c.schema.codeProperty).keys := by
        rw [← Fields.get?_eq_none_iff]
        exact Fields.get?_erase_self hwell.distinct _
      have hnone : c.schema.middlewareRules.find? [] = none := rfl
      have hmerged := merge_sameBut hnone h hcode
      rw [hschema, hss, Json.eraseField]
      dsimp only
      generalize (merge _ (.object ts) _).result = r,
        (merge _ (.object us) _).result = r' at hmerged ⊢
      cases hmerged with
      | error e e' => exact .error _ _
      | @ok merged merged' hmerged =>
        obtain ⟨merged, changes⟩ := merged
        obtain ⟨merged', changes'⟩ := merged'
        obtain ⟨fs, gs, rfl, rfl, hmerged⟩ := hmerged
        refine Alike.bind (ih hmerged (index + 1)) ?_
        rintro ⟨_, codes⟩ ⟨_, _⟩ - - ⟨rfl, hrest⟩
        exact .ok ⟨rfl, hrest⟩

end Composer

end ModularTemplates
