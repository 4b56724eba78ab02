import Mathlib.Tactic.Lemma
import ModularTemplates.Proofs.Project.CompiledNames

/-!
# Compiled references

A reference becomes the compiled name of the root of a family. Whether the module of the root has a
resource of that name is decided elsewhere: middlewares are left out, and keywords may replace the
document of the module or the object of its resources. Nothing else is in the way.
-/

namespace ModularTemplates

namespace Project

variable {documents : Documents} {p : Project}

lemma logicalId_injective {module r s : String}
    (h : p.services.logicalId ⟨module, r⟩ = p.services.logicalId ⟨module, s⟩) : r = s :=
  (String.append_right_inj _).mp h

lemma field?_resources_of_get? {document body : Json} {name : String}
    (h : document.resources.get? name = some body) :
    document.field? "Resources" = some (.object document.resources) := by
  unfold Json.resources at h ⊢
  cases hfield : document.field? "Resources" with
  | none => simp [hfield] at h
  | some w =>
    cases w with
    | object resources => rfl
    | _ => simp [hfield, Json.asObject?] at h

/-- The root of a family is found in the document of its module, and it is left out only if it is
a middleware. -/
lemma exists_root_resource (hdocuments : documents.WellFormed)
    (hfamilies : Families.ofDocuments documents = .ok p.families) {family : Family}
    (hfamily : family ∈ p.families.families) {document : Json}
    (hdocument : p.document family.root.module = .ok document) :
    document.resources.Distinct ∧
    ∃ body, document.resources.get? family.root.resource = some body ∧
      p.skips family.root body =
        (family.resource.textField "Type" == p.composer.schema.middlewareType) := by
  have hresolves := Families.resolves hdocuments hfamilies hfamily
  obtain ⟨fs, hbody, hresource⟩ := hresolves.resource
  obtain ⟨module, hmodule, hbody⟩ := Option.bind_eq_some_iff.mp hbody
  rw [Project.document, (Families.of_ofDocuments hfamilies).1, hmodule] at hdocument
  cases hdocument
  have hwell := hdocuments.document _ (Fields.mem_of_get? hmodule)
  refine ⟨hwell.distinct_resources, .object fs, hbody, ?_⟩
  have htype : family.resource.textField "Type" = Json.textField (.object fs) "Type" := by
    rw [hresource]
    simp [Json.textField, Json.field?, Json.asObject?, Fields.get?_set]
  rw [skips, Families.target?_eq hdocuments hfamilies, hresolves.root_extends, htype]
  rfl

/-- The root of a family is emitted under its compiled name unless it is a middleware. -/
lemma logicalId_mem_compiled_iff (hdocuments : documents.WellFormed)
    (hfamilies : Families.ofDocuments documents = .ok p.families)
    (hkeywords : p.keywords = builtinKeywords p.composer.schema) {family : Family}
    (hfamily : family ∈ p.families.families) {document : Json}
    (hdocument : p.document family.root.module = .ok document)
    (hkeeps : p.KeepsResources family.root.module document) {cache : FunctionCache}
    {compiled : Json} (hcache : p.composer.Sound cache)
    (hcompiled : ((p.compile family.root.module).run.run cache).1 = .ok compiled) :
    p.services.logicalId family.root ∈ compiled.resources.keys ↔
      family.resource.textField "Type" ≠ p.composer.schema.middlewareType := by
  obtain ⟨hdistinct, body, hbody, hskips⟩ :=
    exists_root_resource hdocuments hfamilies hfamily hdocument
  have hobjects : ∀ family ∈ p.families.families, ∃ fs, family.resource = .object fs := by
    intro other hother
    obtain ⟨fs, -, hresource⟩ := (Families.resolves hdocuments hfamilies hother).resource
    exact ⟨_, hresource⟩
  have hnames := (ensures_compile hkeywords hobjects hdocument (field?_resources_of_get? hbody)
    hdistinct hkeeps).of_run hcache hcompiled
  have hemitted : family.root.resource ∈
      (p.emittedAmong family.root.module document.resources).keys ↔
          p.skips family.root body = false := by
    rw [mem_keys_emittedAmong_iff hdistinct, hbody]
    simp
  have htype : p.skips family.root body = false ↔
      family.resource.textField "Type" ≠ p.composer.schema.middlewareType := by
    rw [hskips, beq_eq_false_iff_ne]
  rw [hnames, ← htype, ← hemitted]
  constructor
  · rintro ⟨r, hr, hname⟩
    rwa [← logicalId_injective hname]
  · exact fun hroot => ⟨_, hroot, rfl⟩

/-- A reference that is resolved is written as the compiled name of the root of a family. If the
module of the root is compiled and keeps its resources, it has a resource of that name unless the
root is a middleware. -/
theorem compiled_reference_names_resource (hdocuments : documents.WellFormed)
    (hfamilies : Families.ofDocuments documents = .ok p.families)
    (hkeywords : p.keywords = builtinKeywords p.composer.schema)
    {module keyword : String} {node : Node} {v written : Json} {level : Nat} {cache : FunctionCache}
    (hcache : p.composer.Sound cache)
    (hanswer : ((referenceProcessor (p.context module) keyword node v).run.run cache).1 =
      .ok (.object written level)) :
    ∃ address family, Address.ofJson v = .ok address ∧
      p.families.get? (address.id module) = some family ∧
      written = .single keyword (.string (p.services.logicalId family.root)) ∧
      ∀ document, p.document family.root.module = .ok document →
        p.KeepsResources family.root.module document →
        ∀ cache compiled, p.composer.Sound cache →
          ((p.compile family.root.module).run.run cache).1 = .ok compiled →
          (p.services.logicalId family.root ∈ compiled.resources.keys ↔
            family.resource.textField "Type" ≠ p.composer.schema.middlewareType) := by
  obtain heq | ⟨name, heq, hresolve⟩ := ensures_reference.of_run hcache hanswer
  · cases heq
  cases heq
  obtain ⟨address, haddress, hname⟩ := bind_eq_ok_iff.mp hresolve
  dsimp only at hname
  split at hname
  · rename_i family hget
    cases hname
    refine ⟨address, family, haddress, hget, rfl, ?_⟩
    intro document hdocument hkeeps before compiled hbefore hcompiled
    exact logicalId_mem_compiled_iff hdocuments hfamilies hkeywords (List.mem_of_find?_eq_some hget)
      hdocument hkeeps hbefore hcompiled
  · cases hname

/-- A reference to a member of a family of another module. -/
theorem compiled_reference_names_resource_member :
    let apiBody : Json := .object [("Type", .string "T"), ("Properties", .object [])]
    let partBody : Json := .object [("Type", .string "T"),
      ("Extend", .object [("module", .string "base"), ("resource", .string "api")]),
      ("Properties", .object [])]
    let document : Json := .object [("Resources", .object [("api", apiBody)])]
    let api : ResourceId := ⟨"base", "api"⟩
    let part : ResourceId := ⟨"app", "part"⟩
    let address : Json := .object [("resource", .string "part")]
    let p : Project :=
      { composer :=
          { families :=
              { documents := [("base", ⟨document, none⟩),
                  ("app", ⟨.object [("Resources", .object [("part", partBody)])], none⟩)]
                links := [⟨api, apiBody, none, []⟩, ⟨part, partBody, some api, []⟩]
                families := [⟨api, [api, part], apiBody, .leaf api⟩] }
            schema := .standard
            extensions := [] }
        keywords := builtinKeywords .standard
        parameters := []
        rootDir := "."
        moduleHash := fun module => module ++ "-" }
    p.families.documents.WellFormed ∧
      Families.ofDocuments p.families.documents = .ok p.families ∧
      ((referenceProcessor (p.context "app") "Ref" (.root .null) address).run.run []).1 =
        .ok (.object (.single "Ref" (.string "base-api")) 0) ∧
      p.KeepsResources "base" document ∧
      ∃ compiled, ((p.compile "base").run.run []).1 = .ok compiled ∧
        "base-api" ∈ compiled.resources.keys := by
  intro apiBody partBody document api part address p
  have hdocuments : p.families.documents.WellFormed := by decide
  have hfamilies : Families.ofDocuments p.families.documents = .ok p.families := by cbv
  have hanswer : ((referenceProcessor (p.context "app") "Ref" (.root .null) address).run.run []).1 =
      .ok (.object (.single "Ref" (.string "base-api")) 0) := by rfl
  have hkeeps : p.KeepsResources "base" document :=
    ⟨rfl, by rintro v ⟨⟩, by rintro body ⟨⟩⟩
  have hok : ((p.compile "base").run.run []).1.isOk = true := by decide +kernel
  refine ⟨hdocuments, hfamilies, hanswer, hkeeps, ?_⟩
  cases hcompiled : ((p.compile "base").run.run []).1 with
  | error e =>
    rw [hcompiled] at hok
    cases hok
  | ok compiled =>
    obtain ⟨_, family, haddress, hget, -, hnames⟩ :=
      compiled_reference_names_resource hdocuments hfamilies rfl Composer.sound_nil hanswer
    cases haddress
    cases hget
    refine ⟨compiled, rfl, ?_⟩
    exact (hnames document rfl hkeeps [] compiled Composer.sound_nil hcompiled).mpr (by decide)

/-- References to a middleware, and to resources of modules in which a keyword replaces the document
or the object of the resources. All modules compile, and no compiled module has the resource that
the reference names. -/
theorem compiled_reference_dangles :
    let reference (module name : String) : Json :=
      .object [("Ref", .object [("module", .string module), ("resource", .string name)])]
    let plain : Json := .object [("Type", .string "T"), ("Properties", .object [])]
    let middleware : Json := .object [("Type", .string "Middleware"), ("Properties", .object [])]
    let user : Json := .object [("Type", .string "T"), ("Properties", .object [("Uses", .array
      [reference "lib" "mw", reference "stage" "api", reference "alias" "api",
        reference "named" "api"])])]
    let address : Json := .object [("resource", .string "api"), ("Properties", .object [])]
    let resources : List (ResourceId × Json) :=
      [(⟨"app", "user"⟩, user), (⟨"lib", "mw"⟩, middleware), (⟨"stage", "api"⟩, plain),
        (⟨"alias", "api"⟩, plain), (⟨"named", "api"⟩, plain),
          (⟨"named", "Ref"⟩, address)]
    let p : Project :=
      { composer :=
          { families :=
              { documents :=
                  [("app", ⟨.object [("Resources", .object [("user", user)])], none⟩),
                    ("lib", ⟨.object [("Resources", .object [("mw", middleware)])], none⟩),
                    ("stage", ⟨.object [("Parameter", .string "Stage"),
                      ("Resources", .object [("api", plain)])], none⟩),
                    ("alias", ⟨.object [("Ref", .object [("resource", .string "api")]),
                      ("Resources", .object [("api", plain)])], none⟩),
                    ("named",
                      ⟨.object [("Resources", .object [("api", plain), ("Ref", address)])],
                        none⟩)]
                links := resources.map fun r => ⟨r.1, r.2, none, []⟩
                families := resources.map fun r => ⟨r.1, [r.1], r.2, .leaf r.1⟩ }
            schema := .standard
            extensions := [] }
        keywords := builtinKeywords .standard
        parameters := ["Stage"]
        rootDir := "."
        moduleHash := fun module => module ++ "-" }
    let compiled (module : String) : Option Json := ((p.compile module).run.run []).1.toOption
    p.families.documents.WellFormed ∧
      Families.ofDocuments p.families.documents = .ok p.families ∧
      compiled "app" = some (.object [("Resources", .object [("app-user", .object
        [("Type", .string "T"), ("Properties", .object [("Uses", .array
          [.single "Ref" (.string "lib-mw"), .single "Ref" (.string "stage-api"),
            .single "Ref" (.string "alias-api"), .single "Ref" (.string "named-api")])])])])]) ∧
      compiled "lib" = some (.object [("Resources", .object [])]) ∧
      compiled "stage" = some (.single "Ref" (.string "Stage")) ∧
      compiled "alias" = some (.single "Ref" (.string "alias-api")) ∧
      compiled "named" =
        some (.object [("Resources", .object [("named-Ref", .string "named-api")])]) ∧
      ∀ name ∈ [("lib", "lib-mw"), ("stage", "stage-api"), ("alias", "alias-api"),
          ("named", "named-api")],
        ∃ document, compiled name.1 = some document ∧ name.2 ∉ document.resources.keys := by
  intro reference plain middleware user address resources p compiled
  have hlib : compiled "lib" = some (.object [("Resources", .object [])]) := by decide +kernel
  have hstage : compiled "stage" = some (.single "Ref" (.string "Stage")) := by decide +kernel
  have halias : compiled "alias" = some (.single "Ref" (.string "alias-api")) := by decide +kernel
  have hnamed : compiled "named" =
      some (.object [("Resources", .object [("named-Ref", .string "named-api")])]) := by
    decide +kernel
  refine ⟨by decide, by cbv, by decide +kernel, hlib, hstage, halias, hnamed, ?_⟩
  intro name hname
  simp only [List.mem_cons, List.not_mem_nil, or_false] at hname
  rcases hname with rfl | rfl | rfl | rfl
  · exact ⟨_, hlib, by decide⟩
  · exact ⟨_, hstage, by decide⟩
  · exact ⟨_, halias, by decide⟩
  · exact ⟨_, hnamed, by decide⟩

end Project

end ModularTemplates
