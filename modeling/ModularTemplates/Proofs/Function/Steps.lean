import Mathlib.Tactic.Lemma
import ModularTemplates.Function.Composition
import ModularTemplates.Proofs.Except

/-!
# The steps of composing a function

What is known of a function that could be composed: which family it comes from, what its middlewares
are, and that every merge on the way succeeded.
-/

namespace ModularTemplates

/-- The merged properties of a family with all addresses qualified. -/
def Family.qualified (schema : Schema) (family : Family) : Json :=
  qualifyReferences schema family.provenance family.properties

/-- The code that a family names below a path of its properties. -/
def Family.code? (family : Family) (path : Path) : Option CodeIdentity :=
  Properties.code? ⟨family.properties, family.provenance⟩ path

/-- A value without one of its keys. -/
def Json.eraseField (v : Json) (key : String) : Json :=
  match v with
  | .object fs => .object (Fields.erase fs key)
  | other => other

lemma Properties.inject_eq_ok {schema : Schema} {function : ResourceId} {p next : Properties}
    {injection : Injection} (h : p.inject schema function injection = .ok next) :
    ∃ changes, (merge schema.injectionRules p.value injection.2).result =
      .ok (next.value, changes) ∧
      next.provenance = p.provenance.enterAll changes injection.1 next.value := by
  unfold Properties.inject at h
  split at h
  · cases h
  · cases h
    exact ⟨_, ‹_›, rfl⟩

namespace Composer

variable {c : Composer} {function id : ResourceId}

lemma orError_eq_ok_iff {α : Type} {x : Option α} {e : FunctionError} {a : α} :
    orError x e = .ok a ↔ x = some a := by
  cases x <;> simp [orError]

/-- A resource is admitted as a middleware: its own body has the type of middlewares and
describes their code. -/
def Admits (c : Composer) (id : ResourceId) : Prop :=
  ∃ body, c.families.documents.resource? id = some body ∧
    body.textField "Type" = c.schema.middlewareType ∧
    body.hasCodeKeyword c.schema c.schema.middlewareKeyword = true

lemma middleware_eq_ok_iff {code : CodeIdentity} {added : Json} :
    c.middleware function id = .ok (code, added) ↔
      c.Admits id ∧ ∃ family, c.families.get? id = some family ∧
        family.code? c.schema.middlewareCodePath = some code ∧
        added = (family.qualified c.schema).eraseField c.schema.codeProperty := by
  unfold middleware
  constructor
  · intro h
    obtain ⟨body, hbody, h⟩ := bind_eq_ok_iff.mp h
    dsimp only at h
    split at h
    · cases h
    split at h
    · cases h
    rename_i htype hkeyword
    obtain ⟨family, hfamily, h⟩ := bind_eq_ok_iff.mp h
    obtain ⟨code, hcode, h⟩ := bind_eq_ok_iff.mp h
    cases h
    exact ⟨⟨body, orError_eq_ok_iff.mp hbody, by simpa using htype, by simpa using hkeyword⟩,
      family, orError_eq_ok_iff.mp hfamily, orError_eq_ok_iff.mp hcode, rfl⟩
  · rintro ⟨⟨body, hbody, htype, hkeyword⟩, family, hfamily, hcode, rfl⟩
    refine bind_eq_ok_iff.mpr ⟨body, orError_eq_ok_iff.mpr hbody, ?_⟩
    rw [htype, hkeyword]
    simp only [ne_eq, not_true_eq_false, if_false, Bool.not_true, Bool.false_eq_true]
    exact bind_eq_ok_iff.mpr ⟨family, orError_eq_ok_iff.mpr hfamily,
      bind_eq_ok_iff.mpr ⟨code, orError_eq_ok_iff.mpr hcode, rfl⟩⟩

lemma addMiddlewares_cons_eq_ok {index : Nat} {entry : Json} {entries : List Json}
    {properties composed : Json} {codes : List CodeIdentity}
    (h : c.addMiddlewares function index (entry :: entries) properties = .ok (composed, codes)) :
    ∃ id family code codes' merged changes,
      entry.resourceId? = some id ∧ c.families.get? id = some family ∧
      family.code? c.schema.middlewareCodePath = some code ∧
      (merge c.schema.middlewareRules properties
        ((family.qualified c.schema).eraseField c.schema.codeProperty)).result =
          .ok (merged, changes) ∧
      c.addMiddlewares function (index + 1) entries merged = .ok (composed, codes') ∧
      codes = code :: codes' := by
  rw [addMiddlewares] at h
  obtain ⟨id, hid, h⟩ := bind_eq_ok_iff.mp h
  obtain ⟨⟨code, added⟩, hmiddleware, h⟩ := bind_eq_ok_iff.mp h
  obtain ⟨-, family, hfamily, hcode, rfl⟩ := middleware_eq_ok_iff.mp hmiddleware
  dsimp only at h
  cases hmerge : (merge c.schema.middlewareRules properties
      ((family.qualified c.schema).eraseField c.schema.codeProperty)).result with
  | error e =>
    rw [hmerge] at h
    cases h
  | ok merged =>
    obtain ⟨merged, changes⟩ := merged
    rw [hmerge] at h
    obtain ⟨⟨rest, codes'⟩, hrest, h⟩ := bind_eq_ok_iff.mp h
    cases h
    exact ⟨id, family, code, codes', merged, changes, orError_eq_ok_iff.mp hid, hfamily, hcode,
      hmerge, hrest, rfl⟩

lemma prepare_eq_ok {type : String} {family : Family} {prepared : Json}
    (h : c.prepare id type family = .ok prepared) :
    ∃ injected : Properties,
      (c.extensions.flatMap (c.schema.injections type)).foldlM (Properties.inject c.schema id)
        ⟨family.properties, family.provenance⟩ = .ok injected ∧
      prepared = (qualifyReferences c.schema injected.provenance injected.value).dropRepeatedAt
        c.schema.middlewaresPath := by
  obtain ⟨injected, hinjected, h⟩ := bind_eq_ok_iff.mp h
  cases h
  exact ⟨injected, hinjected, rfl⟩

theorem compose_eq_ok {composed : ComposedFunction} (h : c.compose id = .ok composed) :
    ∃ body family prepared properties,
      c.families.documents.resource? id = some body ∧ c.families.get? id = some family ∧
      family.code? c.schema.functionCodePath = some composed.function ∧
      c.prepare id (body.textField "Type") family = .ok prepared ∧
      c.addMiddlewares id 0 (c.middlewareEntries prepared) prepared =
        .ok (properties, composed.middlewares) ∧
      composed.resource =
        family.resource.setField "Properties" (properties.dropRepeatedAt c.schema.layersPath) := by
  unfold compose at h
  obtain ⟨body, hbody, h⟩ := bind_eq_ok_iff.mp h
  obtain ⟨_, -, h⟩ := bind_eq_ok_iff.mp h
  obtain ⟨family, hfamily, h⟩ := bind_eq_ok_iff.mp h
  obtain ⟨code, hcode, h⟩ := bind_eq_ok_iff.mp h
  obtain ⟨prepared, hprepared, h⟩ := bind_eq_ok_iff.mp h
  obtain ⟨⟨properties, codes⟩, hcodes, h⟩ := bind_eq_ok_iff.mp h
  cases h
  exact ⟨body, family, prepared, properties, orError_eq_ok_iff.mp hbody,
    orError_eq_ok_iff.mp hfamily, orError_eq_ok_iff.mp hcode, hprepared, hcodes, rfl⟩

end Composer

end ModularTemplates
