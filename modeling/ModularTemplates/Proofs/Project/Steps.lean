import Mathlib.Tactic.Lemma
import ModularTemplates.Project
import ModularTemplates.Proofs.Except
import ModularTemplates.Proofs.Fields

/-!
# The steps of compiling

Compiling a module expands its resources, processes the keywords of the expanded document and
renames the resources of the processed one. Each step works on what the one before it has made.
-/

namespace ModularTemplates

namespace Project

variable (p : Project)

/-- A document with its resources expanded. -/
def expandDocument (module : String) (document : Json) : ExceptT ProjectError Composing Json :=
  match document.field? "Resources" with
  | some (.object resources) => do
    return document.setField "Resources" (.object (← p.expand module resources))
  | _ => pure document

/-- A document with all keywords of the project processed. -/
def processDocument (module : String) (document : Json) : ExceptT ProjectError Composing Json := do
  let processors ← ExceptT.mk
    (pure (p.setUp fun definition => definition.processor (p.context module)))
  ExceptT.adapt .process (processKeywords processors document)

/-- A document with its resources renamed. -/
def renameDocument (module : String) (document : Json) : Json :=
  match document.field? "Resources" with
  | some (.object resources) => document.setField "Resources" (.object (p.rename module resources))
  | _ => document

theorem compile_eq (module : String) :
    p.compile module = (do
      let document ← ExceptT.mk (pure (p.document module))
      let expanded ← p.expandDocument module document
      let processed ← p.processDocument module expanded
      return p.renameDocument module processed) := by
  unfold compile
  congr 1
  funext document
  unfold expandDocument processDocument
  cases document.field? "Resources" with
  | none =>
    simp only [bind_assoc, pure_bind]
    rfl
  | some resources =>
    cases resources <;> simp only [bind_assoc, pure_bind] <;> rfl

variable {p}

/-- Only a module that there is can be compiled. -/
lemma exists_document_of_compile {module : String} {cache : FunctionCache} {compiled : Json}
    (h : ((p.compile module).run.run cache).1 = .ok compiled) :
    ∃ document, p.document module = .ok document := by
  cases hdocument : p.document module with
  | ok document => exact ⟨document, rfl⟩
  | error e =>
    rw [compile_eq, hdocument] at h
    cases h

/-- The documents of modules are those that the families were made from. -/
lemma exists_entry_of_document {module : String} {document : Json}
    (h : p.document module = .ok document) :
    ∃ entry, p.families.documents.get? module = some entry ∧ entry.document = document := by
  rw [Project.document] at h
  split at h
  · rename_i entry hentry
    cases h
    exact ⟨entry, hentry, rfl⟩
  · cases h

lemma resource?_of_document {module : String} {document : Json}
    (h : p.document module = .ok document) (name : String) :
    p.families.documents.resource? ⟨module, name⟩ = document.resources.get? name := by
  obtain ⟨entry, hentry, rfl⟩ := exists_entry_of_document h
  rw [Documents.resource?, hentry]
  rfl

/-- What is set up under a name comes from a keyword of that name. -/
lemma exists_of_setUp {α : Type} {make : KeywordDefinition Composing → Except String α}
    {made : Fields α} (h : p.setUp make = .ok made) {keyword : String} {a : α}
    (ha : made.get? keyword = some a) :
    ∃ definition ∈ p.keywords, definition.keyword = keyword ∧ make definition = .ok a := by
  refine foldlM_invariant
    (fun made => ∀ keyword a, made.get? keyword = some a →
      ∃ definition ∈ p.keywords, definition.keyword = keyword ∧ make definition = .ok a)
    (by simp) ?_ h keyword a ha
  intro before definition after hmem hbefore hstep keyword a ha
  split at hstep
  · rename_i b hb
    cases hstep
    rw [Fields.get?_set] at ha
    split_ifs at ha with hkeyword
    · cases ha
      exact ⟨definition, hmem, hkeyword.symm, hb⟩
    · exact hbefore keyword a ha
  · cases hstep

/-- A run that puts one new field behind the others for every element. -/
lemma foldlM_append {α β ε : Type} {f : Fields β → α → Except ε (Fields β)}
    {R : α → String × β → Prop}
    (hstep : ∀ before a entry, R a entry → entry.1 ∉ Fields.keys before →
      f before a = .ok (before ++ [entry]))
    {as : List α} {entries before : Fields β} (h : List.Forall₂ R as entries)
    (hdistinct : Fields.Distinct (before ++ entries)) :
    as.foldlM f before = .ok (before ++ entries) := by
  induction h generalizing before with
  | nil => simp [pure, Except.pure]
  | @cons a entry as entries hentry _ ih =>
    have hfresh : entry.1 ∉ before.keys := by
      rw [Fields.Distinct, Fields.keys_append, List.nodup_append'] at hdistinct
      exact fun hmem => hdistinct.2.2 hmem List.mem_cons_self
    rw [List.append_cons] at hdistinct ⊢
    rw [List.foldlM_cons, hstep before a entry hentry hfresh]
    exact ih hdistinct

/-- Keywords of distinct names are set up one after the other. -/
lemma setUp_eq_ok {α : Type} {make : KeywordDefinition Composing → Except String α}
    {made : Fields α}
    (h : List.Forall₂ (fun definition entry => definition.keyword = entry.1 ∧
      make definition = .ok entry.2)
      p.keywords made) (hdistinct : made.Distinct) : p.setUp make = .ok made := by
  refine foldlM_append (fun before definition entry hentry hfresh => ?_) h hdistinct
  simp only [hentry.1, hentry.2, Fields.set_of_not_mem hfresh]

/-! ### Expanding a resource -/

/-- Whether a resource is left out: it extends another one, or it is a middleware. -/
def skips (p : Project) (id : ResourceId) (body : Json) : Bool :=
  (p.families.target? id).isSome || body.textField "Type" == p.composer.schema.middlewareType

/-- The resource of a family as it is emitted. -/
def emitted (p : Project) (family : Family) : Json :=
  match family.resource.field? "Properties" with
  | some properties =>
    family.resource.setField "Properties"
      (qualifyReferences p.composer.schema family.provenance properties)
  | none => family.resource

section ExpandResource

variable {id : ResourceId} {body : Json}

lemma expandResource_of_skips (h : p.skips id body = true) :
    p.expandResource id body = pure none := by
  unfold expandResource
  simp only [skips, Bool.or_eq_true, beq_iff_eq] at h
  by_cases htarget : (p.families.target? id).isSome = true
  · rw [if_pos htarget]
  · rw [if_neg htarget]
    exact if_pos (h.resolve_left htarget)

lemma expandResource_of_function (h : p.skips id body = false)
    (htype : p.composer.schema.isFunctionType (body.textField "Type") = true) :
    p.expandResource id body = (do
      let composed ← ExceptT.adapt .function (p.composer.function id)
      return some composed.resource) := by
  unfold expandResource
  simp only [skips, Bool.or_eq_false_iff, beq_eq_false_iff_ne, ne_eq] at h
  rw [if_neg (by simp [h.1]), if_neg h.2, if_pos htype]

lemma expandResource_of_other (h : p.skips id body = false)
    (htype : p.composer.schema.isFunctionType (body.textField "Type") = false) :
    p.expandResource id body =
      match p.families.get? id with
      | none => throw (.unknownResource id)
      | some family => pure (some (p.emitted family)) := by
  unfold expandResource
  simp only [skips, Bool.or_eq_false_iff, beq_eq_false_iff_ne, ne_eq] at h
  rw [if_neg (by simp [h.1]), if_neg h.2, if_neg (by simp [htype])]
  rfl

end ExpandResource

end Project

end ModularTemplates
