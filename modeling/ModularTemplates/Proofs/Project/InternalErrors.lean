import Mathlib.Tactic.Lemma
import ModularTemplates.Proofs.Family.Refusals
import ModularTemplates.Proofs.Function.Steps
import ModularTemplates.Proofs.Project.Requests
import ModularTemplates.Proofs.Project.Steps

/-!
# Errors that do not come up

Some errors would mean that a project contradicts itself: a resource of a module that belongs to no
family, or a function that is composed although it is none, extends something or is not there.
Whether a resource is expanded and how is decided by the questions that linking and composing ask
about it, so none of these errors is ever the outcome of compiling. Resolving reports a malformed
resource only where one is listed.
-/

namespace ModularTemplates

/-- An error of composing what is no function with a body of its own. -/
def FunctionError.Internal : FunctionError → Prop
  | .notFound _ | .notAFunction _ _ | .extendedFunction _ => True
  | _ => False

/-- An error by which a project contradicts what it has resolved. -/
def ProjectError.Internal : ProjectError → Prop
  | .unknownResource _ => True
  | .function cause => cause.Internal
  | _ => False

/-! ### Computations and the errors they avoid -/

section Errors

variable {ε ε' α β : Type} {bad : ε → Prop}

/-- The computation does not fail with certain errors. -/
def Avoids (bad : ε → Prop) (x : Except ε α) : Prop :=
  ∀ e, x = .error e → ¬ bad e

lemma avoids_ok (a : α) : Avoids bad (.ok a) := by
  rintro e ⟨⟩

lemma avoids_error {e : ε} (h : ¬ bad e) : Avoids bad (.error e : Except ε α) := by
  rintro _ ⟨⟩
  exact h

lemma Avoids.bind {x : Except ε α} {f : α → Except ε β} (hx : Avoids bad x)
    (hf : ∀ a, x = .ok a → Avoids bad (f a)) : Avoids bad (x >>= f) := by
  intro e h
  rcases bind_eq_error_iff.mp h with h | ⟨a, ha, h⟩
  · exact hx e h
  · exact hf a ha e h

/-- From every cache, each error of the computation is good. -/
def FailsOnly (x : ExceptT ε Composing α) (good : ε → Prop) : Prop :=
  ∀ cache e, (x.run.run cache).1 = .error e → good e

variable {x : ExceptT ε Composing α} {good good' : ε → Prop}

lemma FailsOnly.mono (h : FailsOnly x good) (hgood : ∀ e, good e → good' e) :
    FailsOnly x good' :=
  fun cache e he => hgood e (h cache e he)

lemma failsOnly_pure (a : α) : FailsOnly (pure a : ExceptT ε Composing α) good := by
  rintro cache e ⟨⟩

lemma failsOnly_mk_pure {r : Except ε α} (h : ∀ e, r = .error e → good e) :
    FailsOnly (ExceptT.mk (pure r) : ExceptT ε Composing α) good :=
  fun _ e he => h e he

lemma FailsOnly.bind {f : α → ExceptT ε Composing β} (hx : FailsOnly x good)
    (hf : ∀ cache a, (x.run.run cache).1 = .ok a → FailsOnly (f a) good) :
    FailsOnly (x >>= f) good := by
  intro cache e h
  rw [ExceptT.run_bind, StateT.run_bind] at h
  have hfirst := hx cache
  have hnext := hf cache
  generalize x.run.run cache = outcome at h hfirst hnext
  obtain ⟨r, after⟩ := outcome
  cases r with
  | ok a => exact hnext a rfl after e h
  | error e' =>
    cases h
    exact hfirst e rfl

lemma FailsOnly.adapt {g : ε → ε'} {good : ε' → Prop} (h : FailsOnly x fun e => good (g e)) :
    FailsOnly (ExceptT.adapt g x) good := by
  intro cache e he
  have hrun : (ExceptT.adapt g x).run = Except.mapError g <$> x.run := rfl
  rw [hrun, StateT.run_map] at he
  have hfirst := h cache
  generalize x.run.run cache = outcome at he hfirst
  obtain ⟨r, after⟩ := outcome
  cases r with
  | ok a => cases he
  | error e' =>
    cases he
    exact hfirst e' rfl

end Errors

/-! ### Composing a function -/

namespace Composer

variable {c : Composer} {function id : ResourceId}

/-- A cached function is never an error, and any other one is composed. -/
lemma failsOnly_function (c : Composer) (id : ResourceId) :
    FailsOnly (c.function id) fun e => c.compose id = .error e := by
  intro cache e he
  cases hlookup : cache.lookup id with
  | some f =>
    rw [run_function_of_some hlookup] at he
    cases he
  | none => rwa [run_function_of_none hlookup] at he

lemma avoids_orError {α : Type} {x : Option α} {e : FunctionError}
    (h : x = none → ¬ e.Internal) :
    Avoids FunctionError.Internal (orError x e) := by
  cases x with
  | some a => exact avoids_ok a
  | none => exact avoids_error (h rfl)

lemma avoids_middleware : Avoids FunctionError.Internal (c.middleware function id) := by
  unfold middleware
  refine Avoids.bind (avoids_orError fun _ => not_false) fun body _ => ?_
  dsimp only
  split
  · exact avoids_error not_false
  split
  · exact avoids_error not_false
  refine Avoids.bind (avoids_orError fun _ => not_false) fun family _ => ?_
  exact Avoids.bind (avoids_orError fun _ => not_false) fun code _ => avoids_ok _

lemma avoids_addMiddlewares (index : Nat) (entries : List Json) (properties : Json) :
    Avoids FunctionError.Internal (c.addMiddlewares function index entries properties) := by
  induction entries generalizing index properties with
  | nil => exact avoids_ok _
  | cons entry entries ih =>
    rw [addMiddlewares]
    refine Avoids.bind (avoids_orError fun _ => not_false) fun id _ => ?_
    refine avoids_middleware.bind fun applied _ => ?_
    obtain ⟨code, added⟩ := applied
    dsimp only
    split
    · exact avoids_error not_false
    · exact (ih _ _).bind fun _ _ => avoids_ok _

lemma avoids_prepare (type : String) (family : Family) :
    Avoids FunctionError.Internal (c.prepare id type family) := by
  have hinject : ∀ (p : Properties) injection,
      Avoids FunctionError.Internal (p.inject c.schema id injection) := by
    intro p injection
    unfold Properties.inject
    split
    · exact avoids_error not_false
    · exact avoids_ok _
  refine Avoids.bind (fun e he => ?_) fun injected _ => avoids_ok _
  obtain ⟨_, injection, _, p, _, _, h⟩ := exists_of_foldlM_eq_error he
  exact hinject p injection e h

/-- A function that is there and extends nothing passes the checks that come before its code
is looked for. -/
theorem avoids_compose {body : Json} {family : Family}
    (hbody : c.families.documents.resource? id = some body)
    (htype : c.schema.isFunctionType (body.textField "Type") = true)
    (hextend : body.field? "Extend" = none) (hfamily : c.families.get? id = some family) :
    Avoids FunctionError.Internal (c.compose id) := by
  have hcheck : Avoids FunctionError.Internal (c.checkFunction id body) := by
    unfold checkFunction
    simp only [htype, hextend, Bool.not_true, Bool.false_eq_true, if_false, Option.isSome_none]
    split
    · exact avoids_error not_false
    · exact avoids_ok _
  unfold compose
  rw [hbody]
  refine hcheck.bind fun _ _ => ?_
  rw [hfamily]
  refine Avoids.bind (avoids_ok family) fun family _ => ?_
  refine Avoids.bind (avoids_orError fun _ => not_false) fun code _ => ?_
  refine (avoids_prepare _ _).bind fun prepared _ => ?_
  exact (avoids_addMiddlewares _ _ _).bind fun _ _ => avoids_ok _

end Composer

/-! ### Compiling a module -/

namespace Project

variable {p : Project} {documents : Documents} {module : String} {document : Json}

/-- The resources of a module that compiling composes: functions that extend nothing. -/
structure ComposedIn (p : Project) (module : String) (id : ResourceId) (body : Json) : Prop where
  module_eq : id.module = module
  resource : p.families.documents.resource? id = some body
  root : p.families.target? id = none
  function : p.composer.schema.isFunctionType (body.textField "Type") = true

/-- The errors that compiling a module comes to. -/
inductive CompileError (p : Project) (module : String) : ProjectError → Prop
  | unknownModule (h : p.families.documents.get? module = none) :
      CompileError p module (.unknownModule module)
  | function {id : ResourceId} {body : Json} {cause : FunctionError}
      (hid : p.ComposedIn module id body) (hcause : p.composer.compose id = .error cause) :
      CompileError p module (.function cause)
  | process (cause : ProcessError KeywordFailure) : CompileError p module (.process cause)
  | keywordSetup (keyword cause : String) : CompileError p module (.keywordSetup keyword cause)

/-- A resource of a module is left out, composed, or in a family. -/
lemma failsOnly_expandResource (hdocuments : documents.WellFormed)
    (hfamilies : Families.ofDocuments documents = .ok p.families) {id : ResourceId} {body : Json}
    (hid : id.module = module) (hbody : documents.resource? id = some body) :
    FailsOnly (p.expandResource id body) (p.CompileError module) := by
  cases hskips : p.skips id body with
  | true =>
    rw [expandResource_of_skips hskips]
    exact failsOnly_pure none
  | false =>
    cases htype : p.composer.schema.isFunctionType (body.textField "Type") with
    | true =>
      have hroot : p.families.target? id = none := by
        simp only [skips, Bool.or_eq_false_iff] at hskips
        exact Option.not_isSome_iff_eq_none.mp (by simp [hskips.1])
      have hcomposed : p.ComposedIn module id body :=
        ⟨hid, (Families.of_ofDocuments hfamilies).1 ▸ hbody, hroot, htype⟩
      rw [expandResource_of_function hskips htype]
      refine FailsOnly.bind (FailsOnly.adapt ?_) fun _ composed _ => failsOnly_pure _
      exact (Composer.failsOnly_function _ id).mono fun cause hcause => .function hcomposed hcause
    | false =>
      have hmem : id ∈ documents.ids := (Documents.mem_ids_iff hdocuments).mpr ⟨body, hbody⟩
      obtain ⟨family, hfamily, -⟩ := Families.exists_get? hdocuments hfamilies hmem
      rw [expandResource_of_other hskips htype, hfamily]
      exact failsOnly_pure _

lemma failsOnly_expand {good : ProjectError → Prop} {resources : Fields Json}
    (h : ∀ name body, (name, body) ∈ resources →
      FailsOnly (p.expandResource ⟨module, name⟩ body) good) :
    FailsOnly (p.expand module resources) good := by
  induction resources with
  | nil => exact failsOnly_pure []
  | cons entry resources ih =>
    obtain ⟨name, body⟩ := entry
    rw [expand]
    refine (h name body List.mem_cons_self).bind fun _ expanded _ => ?_
    exact (ih fun name body hmem => h name body (List.mem_cons_of_mem _ hmem)).bind
      fun _ rest _ => failsOnly_pure _

lemma failsOnly_expandDocument (hdocuments : documents.WellFormed)
    (hfamilies : Families.ofDocuments documents = .ok p.families)
    (hdocument : p.document module = .ok document) :
    FailsOnly (p.expandDocument module document) (p.CompileError module) := by
  have hsame : p.families.documents = documents := (Families.of_ofDocuments hfamilies).1
  unfold expandDocument
  split
  · rename_i resources hresources
    refine FailsOnly.bind (failsOnly_expand fun name body hmem => ?_) fun _ expanded _ =>
      failsOnly_pure _
    refine failsOnly_expandResource hdocuments hfamilies rfl ?_
    have hentry : (⟨module, name⟩, body) ∈ documents.resources := by
      obtain ⟨entry, hentry, rfl⟩ := exists_entry_of_document hdocument
      refine Documents.mem_resources_iff.mpr
        ⟨(module, entry), hsame ▸ Fields.mem_of_get? hentry, rfl, ?_⟩
      rwa [Json.resources, hresources]
    exact (Documents.resource?_eq_some_iff hdocuments).mpr hentry
  · exact failsOnly_pure document

/-- Keywords may do anything with the functions composed so far, so nothing is assumed of these. -/
lemma failsOnly_processDocument :
    FailsOnly (p.processDocument module document) (p.CompileError module) := by
  refine FailsOnly.bind (failsOnly_mk_pure fun e he => ?_) fun _ processors _ => ?_
  · obtain ⟨_, definition, _, made, -, -, hstep⟩ := exists_of_foldlM_eq_error he
    split at hstep <;> cases hstep
    exact .keywordSetup _ _
  · exact FailsOnly.adapt fun cache cause _ => .process cause

theorem failsOnly_compile (hdocuments : documents.WellFormed)
    (hfamilies : Families.ofDocuments documents = .ok p.families) :
    FailsOnly (p.compile module) (p.CompileError module) := by
  have hread : ∀ e, p.document module = .error e → p.CompileError module e := by
    intro e he
    rw [Project.document] at he
    split at he
    · cases he
    · rename_i hnone
      cases he
      exact .unknownModule hnone
  rw [compile_eq]
  refine (failsOnly_mk_pure hread).bind fun _ document hdocument => ?_
  refine (failsOnly_expandDocument hdocuments hfamilies hdocument).bind fun _ expanded _ => ?_
  exact failsOnly_processDocument.bind fun _ processed _ => failsOnly_pure _

end Project

/-! ### Resources that are no objects -/

namespace Links

variable {documents : Documents} {links : Links} {passed : List ResourceId} {id root : ResourceId}

/-- All resources are looked at before anything else, so one that is no object is never passed
over. -/
lemma malformedResource_iff : (∃ id, ofDocuments documents = .error (.malformedResource id)) ↔
    ∃ r ∈ documents.resources, r.2.isObject = false := by
  constructor
  · rintro ⟨id, h⟩
    unfold ofDocuments at h
    rcases bind_eq_error_iff.mp h with hobjects | ⟨⟨⟩, -, h⟩
    · obtain ⟨r, hr, hcheck⟩ := exists_of_forM_eq_error hobjects
      refine ⟨r, hr, Bool.eq_false_iff.mpr fun hobject => ?_⟩
      simp [hobject] at hcheck
    rcases bind_eq_error_iff.mp h with hdeclared | ⟨declared, -, hlinked⟩
    · obtain ⟨⟨id, body⟩, -, h⟩ := exists_of_mapM_eq_error hdeclared
      rcases bind_eq_error_iff.mp h with h | ⟨declaration, -, h⟩
      · unfold Declaration.of at h
        split at h
        · cases h
        · split at h <;> cases h
      · cases h
    · obtain ⟨⟨id, body, declaration⟩, -, h⟩ := exists_of_mapM_eq_error hlinked
      cases declaration with
      | none => cases h
      | some declaration =>
        simp only [linkResource] at h
        split at h <;> cases h
  · rintro ⟨r, hr, hobject⟩
    cases hobjects : documents.resources.forM (m := Except FamilyError) fun r =>
        if r.2.isObject then .ok () else .error (.malformedResource r.1) with
    | ok =>
      have hcheck := forM_eq_ok hobjects r hr
      simp [hobject] at hcheck
    | error e =>
      obtain ⟨⟨id, body⟩, -, hcheck⟩ := exists_of_forM_eq_error hobjects
      dsimp only at hcheck
      split at hcheck <;> cases hcheck
      exact ⟨id, bind_eq_error_iff.mpr (.inl hobjects)⟩

/-- Links lead from resources to resources. -/
lemma mem_ids_of_rootFrom (hlinks : ofDocuments documents = .ok links) (hid : id ∈ documents.ids)
    (h : links.rootFrom passed id = .ok root) : root ∈ documents.ids := by
  induction passed, id using rootFrom.induct links with
  | case1 passed id hmem =>
    rw [rootFrom_of_mem hmem] at h
    cases h
  | case2 passed id hfresh htarget =>
    rw [rootFrom_of_none hfresh htarget] at h
    cases h
    exact hid
  | case3 passed id hfresh target htarget ih =>
    rw [rootFrom_of_some hfresh htarget] at h
    obtain ⟨link, hlink, hextended⟩ := Option.bind_eq_some_iff.mp htarget
    exact ih ((of_ofDocuments hlinks).2.2 link (List.mem_of_find?_eq_some hlink) target hextended) h

end Links

/-- A root that is linked is not malformed. -/
lemma Family.find?_of_ofRoot {links : Links} {id malformed : ResourceId}
    (h : ofRoot links id = .error (.malformedResource malformed)) : links.find? id = none := by
  rw [ofRoot_eq] at h
  split at h
  · assumption
  rcases bind_eq_error_iff.mp h with h | ⟨merged, -, h⟩
  · obtain ⟨_, member, _, sofar, -, -, h⟩ := exists_of_foldlM_eq_error h
    rcases bind_eq_error_iff.mp h with h | ⟨⟨⟩, -, h⟩
    · obtain ⟨_, _, -, -, -, h⟩ := error_of_checkType h
      cases h
    · split at h <;> cases h
  · cases h

/-- The root of a family and all that the walk back from it comes to are found among the links, so
only what is listed is reported as malformed. -/
theorem Families.malformedResource_iff {documents : Documents} (hdocuments : documents.WellFormed) :
    (∃ id, ofDocuments documents = .error (.malformedResource id)) ↔
      ∃ r ∈ documents.resources, r.2.isObject = false := by
  rw [← Links.malformedResource_iff]
  constructor
  · rintro ⟨id, h⟩
    rcases error_of_ofDocuments h
      with hlinks | ⟨links, before, start, after, hlinks, hids, -, h⟩
    · exact ⟨id, hlinks⟩
    exfalso
    rcases h with hcycle | ⟨root, hroot, hfamily⟩
    · obtain ⟨walk, hwalk⟩ := Links.error_of_rootFrom hcycle
      cases hwalk
    · have hstart : start ∈ documents.ids :=
        hids ▸ List.mem_append_right before List.mem_cons_self
      obtain ⟨body, hbody⟩ := (Documents.mem_ids_iff hdocuments).mp
        (Links.mem_ids_of_rootFrom hlinks hstart hroot)
      have hfind := Links.find?_of_ofDocuments hdocuments hlinks root
      rw [Family.find?_of_ofRoot hfamily, hbody] at hfind
      cases hfind
  · rintro ⟨id, h⟩
    exact ⟨id, bind_eq_error_iff.mpr (.inl h)⟩

/-! ### No internal errors -/

lemma Project.CompileError.not_internal {p : Project} {documents : Documents} {module : String}
    {e : ProjectError} (hdocuments : documents.WellFormed)
    (hfamilies : Families.ofDocuments documents = .ok p.families) (h : p.CompileError module e) :
    ¬ e.Internal := by
  cases h with
  | @function id body cause hid hcause =>
    obtain ⟨hsame, hlinks, -⟩ := Families.of_ofDocuments hfamilies
    have hbody : documents.resource? id = some body := hsame ▸ hid.resource
    have hextended : documents.extended? id = none := by
      rw [← Families.target?_eq hdocuments hfamilies]
      exact hid.root
    have hextend := Links.extend_eq_none_of_extended? hdocuments hlinks hbody hextended
    obtain ⟨family, hfamily, -⟩ := Families.exists_get? hdocuments hfamilies
      ((Documents.mem_ids_iff hdocuments).mpr ⟨body, hbody⟩)
    exact Composer.avoids_compose hid.resource hid.function hextend hfamily cause hcause
  | unknownModule | process | keywordSetup => exact not_false

/-- Compiling never contradicts what resolving has found out, whatever keywords do, and an error in
composing is that of a function which extends nothing. Resolving calls a resource malformed only
where one is no object. -/
theorem compile_not_internal {documents : Documents} (hdocuments : documents.WellFormed) :
    (∀ schema extensions project,
      Project.ofDocuments documents schema extensions = .ok project →
      ∀ p : Project, p.composer = project.composer → ∀ module cache e,
        ((p.compile module).run.run cache).1 = .error e →
          ¬ e.Internal ∧ p.CompileError module e) ∧
    ((∃ id, Families.ofDocuments documents = .error (.malformedResource id)) ↔
      ∃ r ∈ documents.resources, r.2.isObject = false) := by
  refine ⟨fun schema extensions project hproject p hcomposer module cache e he => ?_,
    Families.malformedResource_iff hdocuments⟩
  have hfamilies : Families.ofDocuments documents = .ok p.families := by
    rw [Project.families, hcomposer]
    unfold Project.ofDocuments at hproject
    split at hproject
    · cases hproject
    · cases hproject
      assumption
  have hcompile := Project.failsOnly_compile hdocuments hfamilies cache e he
  exact ⟨hcompile.not_internal hdocuments hfamilies, hcompile⟩

/-- A function whose code is only named by a resource that extends it. It can not be composed. -/
theorem compile_not_internal_missing_keyword :
    let function : Json := .object [("Type", .string "AWS::Serverless::Function"),
      ("Properties", .single "CodeUri" (.string "src"))]
    let patch : Json := .object [("Extend", .single "resource" (.string "api")),
      ("Properties", .single "CodeUri" (.single "Function" (.single "name" (.string "handler"))))]
    let documents : Documents :=
      [("app", ⟨.single "Resources" (.object [("patch", patch), ("api", function)]), none⟩)]
    let e : ProjectError := .function (.missingCodeKeyword ⟨"app", "api"⟩ "Function")
    documents.WellFormed ∧ ∃ project,
      Project.ofDocuments documents .standard [] = .ok project ∧
      ((project.compile "app").run.run []).1 = .error e ∧ ¬ e.Internal ∧
      project.CompileError "app" e ∧
      ¬ ∃ id, Families.ofDocuments documents = .error (.malformedResource id) := by
  intro function patch documents e
  have hdocuments : documents.WellFormed := by decide
  let families : Families :=
    { documents
      links :=
        [⟨⟨"app", "patch"⟩, patch, some ⟨"app", "api"⟩, []⟩,
          ⟨⟨"app", "api"⟩, function, none, []⟩]
      families := [⟨⟨"app", "api"⟩, [⟨"app", "api"⟩, ⟨"app", "patch"⟩],
        .object [("Type", .string "AWS::Serverless::Function"),
          ("Properties", .single "CodeUri"
            (.single "Function" (.single "name" (.string "handler"))))],
        .fields ⟨"app", "api"⟩ [("CodeUri", .leaf ⟨"app", "patch"⟩)]⟩] }
  have hfamilies : Families.ofDocuments documents = .ok families := by cbv
  let project : Project :=
    { composer := ⟨families, .standard, []⟩
      keywords := builtinKeywords .standard
      parameters := []
      rootDir := "."
      moduleHash := standardModuleHash }
  have hproject : Project.ofDocuments documents .standard [] = .ok project := by
    rw [Project.ofDocuments, hfamilies]
  have he : ((project.compile "app").run.run []).1 = .error e := by rfl
  obtain ⟨hcompile, hmalformed⟩ := compile_not_internal hdocuments
  obtain ⟨hinternal, herror⟩ := hcompile _ _ project hproject project rfl "app" [] e he
  refine ⟨hdocuments, project, hproject, he, hinternal, herror, ?_⟩
  rw [hmalformed]
  decide

end ModularTemplates
