import Mathlib.Data.List.Infix
import Mathlib.Tactic.Lemma
import ModularTemplates.Proofs.Function.Stable
import ModularTemplates.Proofs.Project.Keywords

/-!
# What validation tells about a document

Validators look at the objects of a module's own document. What they accept can be told of every
place and the value there, without looking around, and in this form it survives all that happens to
the document before its keywords are processed: merging, qualifying and composing.
-/

namespace ModularTemplates

/-! ### Accepted objects -/

namespace Validators

variable {vs : Validators}

/-- No keyword of an object at a path gives cause for complaint. -/
def Accept (vs : Validators) (path : Path) (fs : Fields Json) : Prop :=
  ∀ field ∈ fs, ∀ validator, vs.get? field.1 = some validator →
    ∃ node : Node, node.path = path ∧ validator field.1 node field.2 = []

lemma accept_of_own {node : Node} {fs : Fields Json} (h : vs.own node fs = []) :
    vs.Accept node.path fs := by
  intro field hfield validator hvalidator
  have hcomplaints := List.flatMap_eq_nil_iff.mp h field hfield
  rw [hvalidator] at hcomplaints
  exact ⟨node, rfl, List.map_eq_nil_iff.mp hcomplaints⟩

mutual
/-- If there are no complaints about a value, all its objects are accepted. -/
lemma accept_of_value (vs : Validators) (above : List Crumb) (v : Json)
    (h : vs.value above v = []) :
    v.EachObject vs.Accept (Node.path ⟨v, above⟩) := by
  match v with
  | .object fs =>
    rw [value, List.append_eq_nil_iff] at h
    exact Json.eachObject_object_iff.mpr
      ⟨accept_of_own h.2, accept_of_fields vs (.object fs) above fs h.1⟩
  | .array xs =>
    rw [value] at h
    refine Json.eachObject_array_iff.mpr fun i x hx => ?_
    simpa using accept_of_items vs (.array xs) above 0 xs h i x hx
  | .null | .bool _ | .number _ | .string _ => simp [Json.EachObject, Json.Each]

lemma accept_of_fields (vs : Validators) (parent : Json) (above : List Crumb)
    (fs : List (String × Json)) (h : vs.fields parent above fs = []) :
    ∀ field ∈ fs, field.2.EachObject vs.Accept
      (Node.path ⟨parent, above⟩ ++ [.key field.1]) := by
  match fs with
  | [] => simp
  | (k, v) :: fs =>
    rw [fields, List.append_eq_nil_iff] at h
    refine List.forall_mem_cons.mpr ⟨?_, accept_of_fields vs parent above fs h.2⟩
    simpa using accept_of_value vs (⟨.key k, parent⟩ :: above) v h.1

lemma accept_of_items (vs : Validators) (parent : Json) (above : List Crumb) (i : Nat)
    (xs : List Json) (h : vs.items parent above i xs = []) :
    ∀ j (x : Json), xs[j]? = some x →
      x.EachObject vs.Accept (Node.path ⟨parent, above⟩ ++ [.index (i + j)]) := by
  match xs with
  | [] => simp
  | x :: xs =>
    rw [items, List.append_eq_nil_iff] at h
    refine (Json.forall_items_cons_iff
      (P := fun i x => x.EachObject vs.Accept (Node.path ⟨parent, above⟩ ++ [.index i]))).mpr
        ⟨?_, ?_⟩
    · simpa using accept_of_value vs (⟨.index i, parent⟩ :: above) x h.1
    · exact accept_of_items vs parent above (i + 1) xs h.2
end

end Validators

/-- Where the properties of a resource stand in the document of its module. -/
def propertiesPlace (resource : String) : Path :=
  [.key "Resources", .key resource, .key "Properties"]

namespace Schema

variable {schema : Schema}

/-- Where the code of a resource is described in the document of its module. -/
def codePlace (schema : Schema) (resource : String) : Path :=
  propertiesPlace resource ++ [.key schema.codeProperty]

lemma resourceWithCode_eq_ok_iff {path : Path} {resource : String} :
    schema.resourceWithCode path = .ok resource ↔ path = schema.codePlace resource := by
  unfold resourceWithCode codePlace propertiesPlace
  constructor
  · intro h
    split at h
    · split_ifs at h with hproperty
      cases h
      rw [hproperty]
      rfl
    · cases h
  · rintro rfl
    simp

end Schema

namespace Project

variable {p : Project}

/-- What validation makes sure of in the objects of a module's own document. -/
structure Accepted (p : Project) (module : String) (path : Path) (fs : Fields Json) : Prop where
  parameter : ∀ v, ("Parameter", v) ∈ fs → ∃ s, v = .string s
  code : p.composer.schema.functionKeyword ∈ fs.keys →
    ∃ r, path = p.composer.schema.codePlace r
  reference : ∀ v, (p.composer.schema.referenceKeyword, v) ∈ fs → (∃ s, v = .string s) ∨
    ∃ a, Address.ofJson v = .ok a ∧ ∃ family, p.families.get? (a.id module) = some family

/-- The validators of the keywords in a module. -/
def builtinValidators (p : Project) (module : String) : Validators :=
  [(p.composer.schema.referenceKeyword, referenceValidator (p.context module)),
    ("Parameter", parameterValidator (p.context module)),
    (p.composer.schema.functionKeyword, p.composer.schema.functionValidator)]

lemma setUp_builtinValidators (hp : p.keywords = builtinKeywords p.composer.schema)
    (hnames : p.composer.schema.keywordNames.Nodup) (module : String) :
    p.setUp (fun definition => definition.validator (p.context module)) =
      .ok (p.builtinValidators module) := by
  refine setUp_eq_ok ?_ hnames
  rw [hp]
  exact .cons ⟨rfl, rfl⟩ (.cons ⟨rfl, rfl⟩ (.cons ⟨rfl, rfl⟩ .nil))

/-- An address that can be resolved names a resource. -/
lemma resolve_eq_ok_iff {module name : String} {v : Json} :
    (p.context module).resolve v = .ok name ↔ ∃ a family, Address.ofJson v = .ok a ∧
      p.families.get? (a.id module) = some family ∧ name = p.services.logicalId family.root := by
  unfold KeywordContext.resolve
  rw [bind_eq_ok_iff]
  constructor
  · rintro ⟨a, ha, h⟩
    dsimp only at h
    split at h
    · rename_i family hfamily
      cases h
      exact ⟨a, family, ha, hfamily, rfl⟩
    · cases h
  · rintro ⟨a, family, ha, hfamily, rfl⟩
    refine ⟨a, ha, ?_⟩
    have hget : (p.context module).services.family (a.id (p.context module).module) = some family :=
      hfamily
    simp only [hget]
    rfl

lemma accepted_of_accept (hnames : p.composer.schema.keywordNames.Nodup) {module : String}
    {path : Path} {fs : Fields Json} (h : (p.builtinValidators module).Accept path fs) :
    p.Accepted module path fs := by
  obtain ⟨h1, h2, h3⟩ := Schema.nodup_keywordNames_iff.mp hnames
  refine ⟨fun v hv => ?_, fun hcode => ?_, fun v hv => ?_⟩
  · obtain ⟨node, -, hcomplaints⟩ := h _ hv (parameterValidator (p.context module))
      (by simp [builtinValidators, Fields.get?, h1])
    cases v with
    | string s => exact ⟨s, rfl⟩
    | _ => cases hcomplaints
  · obtain ⟨⟨_, v⟩, hfield, rfl⟩ := List.mem_map.mp hcode
    obtain ⟨node, rfl, hcomplaints⟩ := h _ hfield p.composer.schema.functionValidator
      (by simp [builtinValidators, Fields.get?, h2, h3])
    unfold Schema.functionValidator at hcomplaints
    simp only [List.append_eq_nil_iff] at hcomplaints
    cases hplace : p.composer.schema.resourceWithCode node.path with
    | ok r => exact ⟨r, Schema.resourceWithCode_eq_ok_iff.mp hplace⟩
    | error e => simp [hplace] at hcomplaints
  · obtain ⟨node, -, hcomplaints⟩ := h _ hv (referenceValidator (p.context module))
      (by simp [builtinValidators])
    unfold referenceValidator at hcomplaints
    split at hcomplaints
    · exact .inl ⟨_, ‹_›⟩
    · split at hcomplaints
      · rename_i name hname
        obtain ⟨a, family, ha, hfamily, -⟩ := resolve_eq_ok_iff.mp hname
        exact .inr ⟨a, ha, family, hfamily⟩
      · cases hcomplaints

/-- If there are no complaints about a project, the documents of all its modules are accepted. -/
theorem accepted_of_validateAll (hp : p.keywords = builtinKeywords p.composer.schema)
    (hnames : p.composer.schema.keywordNames.Nodup) (hvalid : p.validateAll = .ok [])
    {module : String} (hmodule : module ∈ p.moduleNames) {document : Json}
    (hdocument : p.document module = .ok document) :
    document.EachObject (p.Accepted module) [] := by
  obtain ⟨reports, hreports, hflat⟩ := bind_eq_ok_iff.mp hvalid
  have hnil : ∀ report ∈ reports, report = [] :=
    List.flatten_eq_nil_iff.mp (Except.ok.inj hflat)
  obtain ⟨report, hmem, hreport⟩ := exists_of_mapM hreports module hmodule
  obtain ⟨complaints, hcomplaints, hmap⟩ := bind_eq_ok_iff.mp hreport
  cases hnil _ hmem
  cases List.map_eq_nil_iff.mp (Except.ok.inj hmap)
  unfold validate at hcomplaints
  rw [hdocument, setUp_builtinValidators hp hnames] at hcomplaints
  have haccept :=
    (p.builtinValidators module).accept_of_value [] document (Except.ok.inj hcomplaints)
  exact haccept.mono fun path v hgood fs hfs => accepted_of_accept hnames (hgood fs hfs)

end Project

end ModularTemplates
