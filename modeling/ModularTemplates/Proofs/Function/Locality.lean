import Mathlib.Tactic.Lemma
import ModularTemplates.Proofs.Family.Locality
import ModularTemplates.Proofs.Function.Steps
import ModularTemplates.Proofs.Project.Requests

/-!
# What a function depends on

A composed function depends on its family and on the families of the middlewares that it uses. A
composition that fails depends on no more than that either.
-/

namespace ModularTemplates

namespace Composer

variable {c c' : Composer} {function id : ResourceId}

/-- A middleware is used by a function: it is named by the list that the function has after the
contributions of the extensions. -/
def Uses (c : Composer) (function middleware : ResourceId) : Prop :=
  ∃ body family prepared, c.families.documents.resource? function = some body ∧
    c.families.get? function = some family ∧
    c.prepare function (body.textField "Type") family = .ok prepared ∧
    ∃ entry ∈ c.middlewareEntries prepared, entry.resourceId? = some middleware

/-- Two composers have the same resource at an address, as it is written and as it is merged. -/
structure SameResource (c c' : Composer) (id : ResourceId) : Prop where
  body : c.families.documents.resource? id = c'.families.documents.resource? id
  family : c.families.get? id = c'.families.get? id

lemma SameResource.of_listed?_eq {documents documents' : Documents}
    (hdocuments : documents.WellFormed) (hdocuments' : documents'.WellFormed)
    (h : Families.ofDocuments documents = .ok c.families)
    (h' : Families.ofDocuments documents' = .ok c'.families)
    (hlisted : c.families.listed? id = c'.families.listed? id) : SameResource c c' id := by
  obtain ⟨hfamily, hbody⟩ := Families.get?_eq_of_listed?_eq hdocuments hdocuments' h h' hlisted
  refine ⟨?_, hfamily⟩
  rw [(Families.of_ofDocuments h).1, (Families.of_ofDocuments h').1, hbody]

section SameSettings

variable (hschema : c.schema = c'.schema)

include hschema

lemma middleware_congr (h : SameResource c c' id) :
    c.middleware function id = c'.middleware function id := by
  rw [middleware, middleware, h.body, h.family, hschema]

lemma addMiddlewares_congr {entries : List Json}
    (h : ∀ entry ∈ entries, ∀ id, entry.resourceId? = some id → SameResource c c' id)
    (index : Nat) (properties : Json) :
    c.addMiddlewares function index entries properties =
      c'.addMiddlewares function index entries properties := by
  induction entries generalizing index properties with
  | nil => rfl
  | cons entry entries ih =>
    obtain ⟨hentry, hentries⟩ := List.forall_mem_cons.mp h
    rw [addMiddlewares, addMiddlewares, ← hschema]
    refine bind_congr_of_ok fun id hid => ?_
    rw [← middleware_congr hschema (hentry id (orError_eq_ok_iff.mp hid))]
    refine bind_congr_of_ok fun added _ => ?_
    simp only [ih hentries]

lemma prepare_congr (hextensions : c.extensions = c'.extensions) (type : String) (family : Family) :
    c.prepare id type family = c'.prepare id type family := by
  rw [prepare, prepare, hschema, hextensions]

/-- A function is composed alike wherever it has the same resource and all its middlewares have. -/
theorem compose_congr (hextensions : c.extensions = c'.extensions)
    (hfunction : SameResource c c' function)
    (hmiddlewares : ∀ id, c.Uses function id → SameResource c c' id) :
    c.compose function = c'.compose function := by
  have hcheck : ∀ body, c.checkFunction function body = c'.checkFunction function body := by
    intro body
    rw [checkFunction, checkFunction, hschema]
  rw [compose, compose, ← hfunction.body, ← hfunction.family, ← hschema]
  refine bind_congr_of_ok fun body hbody => ?_
  rw [hcheck]
  refine bind_congr_of_ok fun _ _ => bind_congr_of_ok fun family hfamily => ?_
  rw [← prepare_congr hschema hextensions]
  refine bind_congr_of_ok fun code _ => bind_congr_of_ok fun prepared hprepared => ?_
  have hentries : c'.middlewareEntries prepared = c.middlewareEntries prepared := by
    rw [middlewareEntries, middlewareEntries, hschema]
  -- the list that the function has by now names the middlewares that it uses
  rw [hentries, ← addMiddlewares_congr hschema fun entry hentry id hid => hmiddlewares id
    ⟨body, family, prepared, orError_eq_ok_iff.mp hbody, orError_eq_ok_iff.mp hfamily,
      hprepared, entry, hentry, hid⟩]

end SameSettings

/-! ### Modules that have nothing to do with each other -/

/-- What is the same in two sets of documents is resolved and composed in the same way in both of
them, whatever else they contain. A family is the same if it has the same members, with the same
bodies and in the same order, or if it is missing in both. -/
theorem unrelated_modules {documents documents' : Documents} (hdocuments : documents.WellFormed)
    (hdocuments' : documents'.WellFormed) (h : Families.ofDocuments documents = .ok c.families)
    (h' : Families.ofDocuments documents' = .ok c'.families) (hschema : c.schema = c'.schema)
    (hextensions : c.extensions = c'.extensions) :
    (∀ id, c.families.listed? id = c'.families.listed? id →
      c.families.get? id = c'.families.get? id) ∧
      ∀ function, c.families.listed? function = c'.families.listed? function →
        (∀ middleware, c.Uses function middleware →
          c.families.listed? middleware = c'.families.listed? middleware) →
        c.compose function = c'.compose function ∧
          ∀ cache cache', c.Sound cache → c'.Sound cache' →
            ((c.function function).run.run cache).1 =
              ((c'.function function).run.run cache').1 := by
  refine ⟨fun id hid => (Families.get?_eq_of_listed?_eq hdocuments hdocuments' h h' hid).1,
    fun function hfunction hmiddlewares => ?_⟩
  have hcompose : c.compose function = c'.compose function :=
    compose_congr hschema hextensions (.of_listed?_eq hdocuments hdocuments' h h' hfunction)
      fun id hid => .of_listed?_eq hdocuments hdocuments' h h' (hmiddlewares id hid)
  refine ⟨hcompose, fun cache cache' hcache hcache' => ?_⟩
  rw [hcache.run_function, hcache'.run_function, hcompose]

/-- Other modules around a function and a contributed middleware, and another resource in the module
of the middleware. -/
theorem unrelated_modules_interleaved :
    let functionBody : Json := .object [("Type", .string "AWS::Serverless::Function"),
      ("Properties", .single "CodeUri" (.single "Function" (.single "name" (.string "handler"))))]
    let middlewareBody : Json := .object [("Type", .string "Middleware"),
      ("Properties", .single "CodeUri" (.single "Middleware" (.single "name" (.string "check"))))]
    let plain : Json := .single "Properties" (.object [("A", .null)])
    let extender : Json := .object [("Extend", (ResourceId.toJson ⟨"last", "target"⟩)),
      ("Properties", .object [("A", .bool true)])]
    let alone : ResourceId → Json → Family := fun id body => ⟨id, [id], body, .leaf id⟩
    let api : ResourceId := ⟨"app", "api"⟩
    let auth : ResourceId := ⟨"lib", "auth"⟩
    let c : Composer :=
      { families :=
          { documents := [("app", ⟨.single "Resources" (.single "api" functionBody), none⟩),
              ("lib", ⟨.single "Resources" (.single "auth" middlewareBody), none⟩)]
            links := [⟨api, functionBody, none, []⟩, ⟨auth, middlewareBody, none, []⟩]
            families := [alone api functionBody, alone auth middlewareBody] }
        schema := .standard
        extensions := [⟨"lib", [⟨"auth", none⟩], []⟩] }
    let c' : Composer :=
      { families :=
          { documents := [("first", ⟨.single "Resources" (.single "extender" extender), none⟩),
              ("app", ⟨.single "Resources" (.single "api" functionBody), none⟩),
              ("lib", ⟨.single "Resources" (.object [("other", plain), ("auth", middlewareBody)]),
                none⟩),
              ("last", ⟨.single "Resources" (.single "target" plain), none⟩)]
            links := [⟨⟨"first", "extender"⟩, extender, some ⟨"last", "target"⟩, []⟩,
              ⟨api, functionBody, none, []⟩, ⟨⟨"lib", "other"⟩, plain, none, []⟩,
              ⟨auth, middlewareBody, none, []⟩, ⟨⟨"last", "target"⟩, plain, none, []⟩]
            families :=
              [⟨⟨"last", "target"⟩, [⟨"last", "target"⟩, ⟨"first", "extender"⟩],
                .single "Properties" (.object [("A", .bool true)]),
                .fields ⟨"last", "target"⟩ [("A", .leaf ⟨"first", "extender"⟩)]⟩,
              alone api functionBody, alone ⟨"lib", "other"⟩ plain, alone auth middlewareBody] }
        schema := .standard
        extensions := [⟨"lib", [⟨"auth", none⟩], []⟩] }
    Families.ofDocuments c.families.documents = .ok c.families ∧
      Families.ofDocuments c'.families.documents = .ok c'.families ∧
      c.families.get? api = c'.families.get? api ∧
      (c.compose api).isOk ∧ c.compose api = c'.compose api := by
  intro functionBody middlewareBody plain extender alone api auth c c'
  have h : Families.ofDocuments c.families.documents = .ok c.families := by cbv
  have h' : Families.ofDocuments c'.families.documents = .ok c'.families := by cbv
  have hschema : c.schema = c'.schema := rfl
  obtain ⟨hfamilies, hcompositions⟩ :=
    unrelated_modules (by decide) (by decide) h h' hschema rfl
  have hfunction : c.families.listed? api = c'.families.listed? api := by cbv
  obtain ⟨hcompose, -⟩ := hcompositions api hfunction <| by
    rintro middleware ⟨body, family, prepared, hbody, hget, hprepared, entry, hentry, hid⟩
    cases hbody
    cases hget
    have hentries : (c.prepare api (functionBody.textField "Type") (alone api functionBody)).map
        c.middlewareEntries = .ok [auth.toJson] := by cbv
    obtain ⟨_, hprepared', hentries⟩ := map_eq_ok_iff.mp hentries
    rw [hprepared] at hprepared'
    cases hprepared'
    rw [hentries, List.mem_singleton] at hentry
    subst hentry
    cases hid
    cbv
  exact ⟨h, h', hfamilies api hfunction, by decide +kernel, hcompose⟩

end Composer

end ModularTemplates
