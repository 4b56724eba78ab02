import ModularTemplates.Proofs.Project.EmittedResources
import ModularTemplates.Proofs.Project.Validation

/-!
# The proper use of keywords

Keywords are used properly in a document if every value under a keyword is of the kind that the
keyword expects, and code stands where code may stand. This is a statement about places and values,
and neither merging nor composing can do harm to it. So it holds of the documents that are handed to
the processors if it holds of those that were validated.
-/

namespace ModularTemplates

namespace Schema

variable {schema : Schema} {path : Path} {v : Json}

/-- The names of the keywords are told apart from each other, and from the names under which
merging, qualifying and composing write. -/
structure Apart (schema : Schema) : Prop where
  names : schema.keywordNames.Nodup
  written : ∀ keyword ∈ schema.keywordNames,
    keyword ∉ ["Properties", schema.codeProperty, schema.layersProperty, schema.middlewaresField]
  address : schema.functionKeyword ∉ ["module", "resource"]

instance (schema : Schema) : Decidable schema.Apart :=
  decidable_of_iff
    (schema.keywordNames.Nodup ∧
      (∀ keyword ∈ schema.keywordNames,
        keyword ∉ ["Properties", schema.codeProperty, schema.layersProperty,
          schema.middlewaresField]) ∧
      schema.functionKeyword ∉ ["module", "resource"])
    ⟨fun h => ⟨h.1, h.2.1, h.2.2⟩, fun h => ⟨h.names, h.written, h.address⟩⟩

/-- A value may stand at a path: a text where the name of a parameter is expected, and a
text or an object that names a resource where a reference is. Code stands in the code
property of a resource. -/
structure Proper (schema : Schema) (path : Path) (v : Json) : Prop where
  parameter : [.key "Parameter"] <:+ path → ∃ s, v = .string s
  code : [.key schema.functionKeyword] <:+ path →
    ∃ r, path = schema.codePlace r ++ [.key schema.functionKeyword]
  reference : [.key schema.referenceKeyword] <:+ path →
    (∃ s, v = .string s) ∨ ∃ fs, v = .object fs ∧ "resource" ∈ Fields.keys fs
  resource : [.key schema.referenceKeyword, .key "resource"] <:+ path → ∃ s, v = .string s
  module : [.key schema.referenceKeyword, .key "module"] <:+ path → ∃ s, v = .string s

/-! ### Ends of paths -/

lemma suffix_one_iff {p : Path} {a b : Segment} : [a] <:+ p ++ [b] ↔ a = b := by
  rw [← List.reverse_prefix]
  simp

lemma suffix_two_iff {p : Path} {a b c : Segment} :
    [a, b] <:+ p ++ [c] ↔ [a] <:+ p ∧ b = c := by
  rw [← List.reverse_prefix, ← List.reverse_prefix]
  simp [List.cons_prefix_cons, and_comm]

/-- What a step is not part of ends behind it. -/
lemma suffix_of_not_mem {l p q : Path} {x : Segment} (hx : x ∉ l)
    (h : l <:+ p ++ x :: q) : l <:+ q := by
  rcases List.suffix_or_suffix_of_suffix h (List.suffix_append p (x :: q)) with hl | hl
  · rcases List.suffix_cons_iff.mp hl with rfl | hl
    · exact absurd List.mem_cons_self hx
    · exact hl
  · exact absurd (hl.subset List.mem_cons_self) hx

/-! ### Merging and composing -/

lemma stable_proper (schema : Schema) : Json.Stable schema.Proper where
  arrays path xs ys h := by
    have hno : ¬∃ s, Json.array xs = .string s := by simp
    exact ⟨fun hp => absurd (h.parameter hp) hno, h.code, fun hp => by simpa using h.reference hp,
      fun hp => absurd (h.resource hp) hno, fun hp => absurd (h.module hp) hno⟩
  objects path fs gs h hkeys := by
    have hno : ¬∃ s, Json.object fs = .string s := by simp
    refine ⟨fun hp => absurd (h.parameter hp) hno, h.code, fun hp => ?_,
      fun hp => absurd (h.resource hp) hno, fun hp => absurd (h.module hp) hno⟩
    obtain ⟨fs', hfs, hresource⟩ := (h.reference hp).resolve_left hno
    cases hfs
    exact .inr ⟨gs, rfl, hkeys hresource⟩
  positions p i j q v h := by
    have hmove : ∀ l : Path, .index j ∉ l → l <:+ p ++ .index j :: q →
        l <:+ p ++ .index i :: q :=
      fun l hl hsuffix => ((suffix_of_not_mem hl hsuffix).trans (List.suffix_cons _ q)).trans
        (List.suffix_append p _)
    refine ⟨fun hp => h.parameter (hmove _ (by simp) hp), fun hp => ?_,
      fun hp => h.reference (hmove _ (by simp) hp), fun hp => h.resource (hmove _ (by simp) hp),
      fun hp => h.module (hmove _ (by simp) hp)⟩
    -- no item of an array is in the place of code
    obtain ⟨r, hr⟩ := h.code (hmove _ (by simp) hp)
    have hmem : Segment.index i ∈ schema.codePlace r ++ [.key schema.functionKeyword] := by
      rw [← hr]
      simp
    simp [codePlace, propertiesPlace] at hmem

lemma proper_key_iff {p : Path} {k : String} : schema.Proper (p ++ [.key k]) v ↔
    (k = "Parameter" → ∃ s, v = .string s) ∧
    (k = schema.functionKeyword → ∃ r, p = schema.codePlace r) ∧
    (k = schema.referenceKeyword →
      (∃ s, v = .string s) ∨ ∃ fs, v = .object fs ∧ "resource" ∈ Fields.keys fs) ∧
    ([.key schema.referenceKeyword] <:+ p → k = "resource" ∨ k = "module" →
      ∃ s, v = .string s) := by
  have hone : ∀ key, [.key key] <:+ p ++ [Segment.key k] ↔ k = key := by
    intro key
    rw [suffix_one_iff, Segment.key.injEq, eq_comm]
  have htwo : ∀ key, [.key schema.referenceKeyword, .key key] <:+ p ++ [Segment.key k] ↔
      [.key schema.referenceKeyword] <:+ p ∧ k = key := by
    intro key
    rw [suffix_two_iff, Segment.key.injEq, eq_comm (a := key)]
  constructor
  · rintro ⟨h1, h2, h3, h4, h5⟩
    rw [hone] at h1 h2 h3
    rw [htwo] at h4 h5
    refine ⟨h1, fun hk => ?_, h3, fun hp hk => ?_⟩
    · obtain ⟨r, hr⟩ := h2 hk
      exact ⟨r, (List.append_inj' hr rfl).1⟩
    · exact hk.elim (fun hk => h4 ⟨hp, hk⟩) fun hk => h5 ⟨hp, hk⟩
  · rintro ⟨h1, h2, h3, h4⟩
    refine ⟨?_, ?_, ?_, ?_, ?_⟩
    · rwa [hone]
    · rw [hone]
      rintro rfl
      obtain ⟨r, rfl⟩ := h2 rfl
      exact ⟨r, rfl⟩
    · rwa [hone]
    · rw [htwo]
      exact fun h => h4 h.1 (.inl h.2)
    · rw [htwo]
      exact fun h => h4 h.1 (.inr h.2)

lemma proper_of_not_mem {p : Path} {k : String} (h : k ∉ schema.keywordNames)
    (hp : k = "resource" ∨ k = "module" → ¬[.key schema.referenceKeyword] <:+ p) :
    schema.Proper (p ++ [.key k]) v := by
  simp only [keywordNames, List.mem_cons, List.not_mem_nil, or_false, not_or] at h
  exact proper_key_iff.mpr ⟨fun hk => absurd hk h.2.1, fun hk => absurd hk h.2.2,
    fun hk => absurd hk h.1, fun hreference hk => absurd hreference (hp hk)⟩

lemma proper_text {p : Path} {k s : String} (h : schema.functionKeyword ≠ k) :
    schema.Proper (p ++ [.key k]) (.string s) :=
  proper_key_iff.mpr ⟨fun _ => ⟨s, rfl⟩, fun hk => absurd hk.symm h,
    fun _ => .inl ⟨s, rfl⟩, fun _ _ => ⟨s, rfl⟩⟩

lemma proper_item {p : Path} {i : Nat} : schema.Proper (p ++ [.index i]) v := by
  refine ⟨fun hp => ?_, fun hp => ?_, fun hp => ?_, fun hp => ?_, fun hp => ?_⟩
  · cases suffix_one_iff.mp hp
  · cases suffix_one_iff.mp hp
  · cases suffix_one_iff.mp hp
  · cases (suffix_two_iff.mp hp).2
  · cases (suffix_two_iff.mp hp).2

lemma proper_nil : schema.Proper [] v := by
  constructor <;> simp

/-- The end of a path below the properties of a resource does not depend on the name of
the resource. -/
lemma suffix_propertiesPlace {l q : Path} {name other : String} (hlength : l.length ≤ 2)
    (hl : l ≠ [.key name, .key "Properties"]) (h : l <:+ propertiesPlace name ++ q) :
    l <:+ propertiesPlace other ++ q := by
  simp only [propertiesPlace, List.cons_append, List.nil_append, List.suffix_cons_iff] at h ⊢
  rcases h with rfl | rfl | h
  · simp at hlength
  · cases q with
    | nil => exact absurd rfl hl
    | cons => simp at hlength
  · exact .inr (.inr h)

lemma Proper.move_properties {q : Path} {name : String}
    (h : schema.Proper (propertiesPlace name ++ q) v) (other : String) :
    schema.Proper (propertiesPlace other ++ q) v := by
  have hmove : ∀ l : Path, l.length ≤ 2 → l ≠ [.key other, .key "Properties"] →
      l <:+ propertiesPlace other ++ q → l <:+ propertiesPlace name ++ q :=
    fun l hlength hl hsuffix => suffix_propertiesPlace hlength hl hsuffix
  refine ⟨fun hp => h.parameter (hmove _ (by simp) (by simp) hp), fun hp => ?_,
    fun hp => h.reference (hmove _ (by simp) (by simp) hp),
    fun hp => h.resource (hmove _ (by simp) (by simp) hp),
    fun hp => h.module (hmove _ (by simp) (by simp) hp)⟩
  obtain ⟨r, hr⟩ := h.code (hmove _ (by simp) (by simp) hp)
  simp only [codePlace, propertiesPlace, List.cons_append, List.nil_append,
    List.cons.injEq, true_and]
    at hr
  exact ⟨other, by simp [codePlace, propertiesPlace, hr.2]⟩

/-- What holds throughout the properties of one resource would hold of them in any other
resource. -/
lemma each_properties (name other : String) (h : v.Each schema.Proper (propertiesPlace name)) :
    v.Each schema.Proper (propertiesPlace other) :=
  h.move fun _ _ hproper => hproper.move_properties other

lemma Apart.not_mem (h : schema.Apart) {name : String}
    (hname : name ∈ ["Properties", schema.codeProperty, schema.layersProperty,
      schema.middlewaresField]) :
    name ∉ schema.keywordNames :=
  fun hkeyword => h.written name hkeyword hname

section Composing

variable {p : Path}

lemma each_single_iff {good : Path → Json → Prop} {k : String} :
    (Json.single k v).Each good p ↔
    good p (.single k v) ∧ v.Each good (p ++ [.key k]) := by
  rw [Json.single, Json.each_object_iff, List.forall_mem_singleton]

lemma each_singleton_iff : (Json.array [v]).Each schema.Proper p ↔
    schema.Proper p (.array [v]) ∧ v.Each schema.Proper (p ++ [.index 0]) := by
  rw [(stable_proper schema).each_array_iff, List.forall_mem_singleton]

lemma Apart.each_toJson (h : schema.Apart) (id : ResourceId)
    (hp : ∀ fs, "resource" ∈ Fields.keys fs → schema.Proper p (.object fs)) :
    id.toJson.Each schema.Proper p := by
  obtain ⟨hmodule, hresource⟩ : schema.functionKeyword ≠ "module" ∧
      schema.functionKeyword ≠ "resource" := by
    simpa using h.address
  refine Json.each_object_iff.mpr ⟨hp _ (by simp), List.forall_mem_cons.mpr ⟨?_, ?_⟩⟩
  · simpa [Json.Each] using proper_text hmodule
  · simpa [Json.Each] using proper_text hresource

lemma Apart.proper_property (h : schema.Apart) {k : String}
    (hk : k ∈ [schema.codeProperty, schema.layersProperty]) (name : String) :
    schema.Proper (propertiesPlace name ++ [.key k]) v := by
  refine proper_of_not_mem (h.not_mem ?_) fun _ hsuffix => ?_
  · simp only [List.mem_cons, List.not_mem_nil, or_false] at hk ⊢
    exact .inr (hk.imp id .inl)
  · have heq : schema.referenceKeyword = "Properties" := by
      simpa using suffix_one_iff (p := [.key "Resources", .key name]).mp hsuffix
    exact h.written schema.referenceKeyword (by simp [keywordNames]) (by simp [heq])

lemma Apart.proper_properties (h : schema.Apart) (name : String) :
    schema.Proper (propertiesPlace name) v :=
  proper_of_not_mem (p := [.key "Resources", .key name]) (h.not_mem (by simp)) (by simp)

lemma Apart.each_middleware (h : schema.Apart) (id : ResourceId) (name : String) :
    (schema.middlewareInjection id).2.Each schema.Proper (propertiesPlace name) := by
  obtain ⟨-, hreference, hparameter⟩ := nodup_keywordNames_iff.mp h.names
  have hresource : schema.functionKeyword ≠ "module" ∧
      schema.functionKeyword ≠ "resource" := by
    simpa using h.address
  refine each_single_iff.mpr ⟨h.proper_properties name, each_single_iff.mpr
    ⟨h.proper_property (by simp) name,
      each_single_iff.mpr ⟨?_, each_singleton_iff.mpr ⟨?_, ?_⟩⟩⟩⟩
  · refine proper_key_iff.mpr ⟨fun hk => absurd hk.symm hparameter, fun _ => ⟨name, rfl⟩,
      fun hk => absurd hk.symm hreference, fun _ hk => ?_⟩
    exact absurd hk (by simp [hresource])
  · refine proper_of_not_mem (h.not_mem (by simp)) fun _ hp => hreference ?_
    simpa using suffix_one_iff.mp hp
  · exact h.each_toJson id fun _ _ => proper_item

lemma Apart.each_layer (h : schema.Apart) (id : ResourceId) (name : String) :
    (schema.layerInjection id).2.Each schema.Proper (propertiesPlace name) := by
  obtain ⟨hparameter, hfunction, -⟩ := nodup_keywordNames_iff.mp h.names
  refine each_single_iff.mpr ⟨h.proper_properties name, each_singleton_iff.mpr
    ⟨h.proper_property (by simp) name, each_single_iff.mpr ⟨proper_item, ?_⟩⟩⟩
  refine h.each_toJson id fun fs hfs => ?_
  refine proper_key_iff.mpr ⟨fun hk => absurd hk hparameter, fun hk => absurd hk hfunction,
    fun _ => .inr ⟨fs, rfl, hfs⟩, fun hp _ => ?_⟩
  cases suffix_one_iff.mp hp

/-- Composing functions writes nothing that is improper. -/
lemma Apart.composable (h : schema.Apart) (name : String) :
    schema.Composable schema.Proper (propertiesPlace name) where
  toStable := stable_proper schema
  module p m := proper_text fun heq => h.address (by simp [heq])
  properties _ := h.proper_properties name
  middleware id := h.each_middleware id name
  layer id := h.each_layer id name

end Composing

end Schema

/-! ### Validated documents -/

lemma Address.ofJson_eq_ok {v : Json} {a : Address} (h : Address.ofJson v = .ok a) :
    ∃ fs, v = .object fs ∧ Fields.get? fs "resource" = some (.string a.resource) ∧
      Fields.get? fs "module" = a.module.map .string := by
  unfold ofJson at h
  split at h
  · rename_i fs
    refine ⟨fs, rfl, ?_⟩
    split at h
    · cases h
    · rename_i resource hresource
      obtain ⟨w, hw, htext⟩ := Option.bind_eq_some_iff.mp hresource
      cases w with
      | string s =>
        cases htext
        split at h
        · cases h
          exact ⟨hw, ‹_›⟩
        · cases h
          exact ⟨hw, ‹_›⟩
        · cases h
      | _ => cases htext
  · cases h

lemma Address.exists_ofJson {fs : Fields Json} {s : String}
    (hresource : fs.get? "resource" = some (.string s))
    (hmodule : ∀ v, fs.get? "module" = some v → ∃ m, v = .string m) :
    ∃ a, Address.ofJson (.object fs) = .ok a := by
  unfold Address.ofJson
  simp only [hresource, Option.bind_some, Json.asString?]
  cases hget : fs.get? "module" with
  | none => exact ⟨_, rfl⟩
  | some v =>
    obtain ⟨m, rfl⟩ := hmodule v hget
    exact ⟨_, rfl⟩

namespace Project

open Composer

variable {documents : Documents} {p : Project} {module : String}

/-- The values under the keywords and in the addresses of an accepted object are as they should
be. -/
lemma Accepted.proper {path : Path} {fs : Fields Json} (h : p.Accepted module path fs)
    (hdistinct : fs.Distinct)
    (haddress : [.key p.composer.schema.referenceKeyword] <:+ path →
      ∃ a, Address.ofJson (.object fs) = .ok a) {k : String} {w : Json} (hw : (k, w) ∈ fs) :
    p.composer.schema.Proper (path ++ [.key k]) w := by
  refine Schema.proper_key_iff.mpr ⟨?_, ?_, ?_, ?_⟩
  · rintro rfl
    exact h.parameter w hw
  · rintro rfl
    exact h.code (List.mem_map_of_mem hw)
  · rintro rfl
    refine (h.reference w hw).imp id ?_
    rintro ⟨a, ha, -⟩
    obtain ⟨as, rfl, hresource, -⟩ := Address.ofJson_eq_ok ha
    exact ⟨as, rfl, Fields.mem_keys_of_get? hresource⟩
  · intro hreference hk
    obtain ⟨a, ha⟩ := haddress hreference
    obtain ⟨as, heq, hresource, hmodule⟩ := Address.ofJson_eq_ok ha
    cases heq
    have hget := hdistinct.get?_of_mem hw
    rcases hk with rfl | rfl
    · cases hget.symm.trans hresource
      exact ⟨_, rfl⟩
    · obtain ⟨m, -, rfl⟩ := Option.map_eq_some_iff.mp (hmodule.symm.trans hget)
      exact ⟨m, rfl⟩

/-- Keywords are used properly throughout a document whose objects are accepted. -/
lemma each_proper_of_accepted {document : Json} (hwell : document.WellFormed)
    (h : document.EachObject (p.Accepted module) []) :
    document.Each p.composer.schema.Proper [] := by
  -- with every value goes what is known of it as the value of a reference
  let good (path : Path) (v : Json) : Prop := v.WellFormed ∧ p.composer.schema.Proper path v ∧
    ([.key p.composer.schema.referenceKeyword] <:+ path →
      (∃ s, v = .string s) ∨ ∃ a, Address.ofJson v = .ok a)
  have hgood : document.Each good [] := by
    refine h.inherit ⟨?_, ?_⟩ ⟨hwell, Schema.proper_nil, by simp⟩
    · rintro path fs hobject ⟨hwell, -, haddress⟩ ⟨k, w⟩ hfield
      have haccepted := hobject fs rfl
      rw [Json.WellFormed, Json.wellFormedFields_iff] at hwell
      refine ⟨hwell.2 _ hfield, haccepted.proper hwell.1 (fun hp => ?_) hfield, fun hp => ?_⟩
      · exact (haddress hp).resolve_left (by simp)
      · cases Schema.suffix_one_iff.mp hp
        exact (haccepted.reference w hfield).imp id fun ⟨a, ha, _⟩ => ⟨a, ha⟩
    · rintro path xs - ⟨hwell, -, -⟩ i x hx
      rw [Json.WellFormed, Json.wellFormedItems_iff] at hwell
      refine ⟨hwell x (List.mem_of_getElem? hx), Schema.proper_item, fun hp => ?_⟩
      cases Schema.suffix_one_iff.mp hp
  exact hgood.mono fun path v hv => hv.2.1

/-! ### Families -/

/-- Keywords are used properly in all documents. -/
def ProperDocuments (schema : Schema) (documents : Documents) : Prop :=
  ∀ entry ∈ documents, entry.2.document.Each schema.Proper []

lemma ProperDocuments.each_resource {schema : Schema} (h : ProperDocuments schema documents)
    {id : ResourceId} {body : Json} (hbody : documents.resource? id = some body) :
    body.Each schema.Proper [.key "Resources", .key id.resource] := by
  obtain ⟨entry, hentry, hbody⟩ := Option.bind_eq_some_iff.mp hbody
  have hdocument := h _ (Fields.mem_of_get? hentry)
  have hresources := field?_resources_of_get? hbody
  exact (hdocument.field? hresources).field? hbody

lemma ProperDocuments.each_ownProperties {schema : Schema} (happart : schema.Apart)
    (h : ProperDocuments schema documents) (id : ResourceId) (name : String) :
    (documents.ownProperties id).Each schema.Proper (propertiesPlace name) := by
  have hnothing : (Json.object []).Each schema.Proper (propertiesPlace name) :=
    Json.each_object_iff.mpr ⟨happart.proper_properties name, by simp⟩
  unfold Documents.ownProperties
  cases hbody : documents.resource? id with
  | none => exact hnothing
  | some body =>
    rw [Option.map_some, Option.getD_some, Json.ownProperties]
    split
    · rename_i fs hfs
      exact Schema.each_properties id.resource name ((h.each_resource hbody).field? hfs)
    · exact hnothing

lemma ProperDocuments.each_properties {schema : Schema} (happart : schema.Apart)
    (h : ProperDocuments schema documents) {family : Family} (hfamily : documents.Resolves family)
    (name : String) : family.properties.Each schema.Proper (propertiesPlace name) := by
  refine foldlM_invariant (fun sofar => sofar.1.Each schema.Proper (propertiesPlace name))
    (h.each_ownProperties happart _ name) ?_ hfamily.merged
  rintro ⟨before, provenance⟩ id next - hbefore hnext
  obtain ⟨⟨properties, changes⟩, hresult, hnext⟩ := bind_eq_ok_iff.mp hnext
  cases hnext
  exact (Schema.stable_proper schema).each_merge hbefore
    (h.each_ownProperties happart id name) hresult

/-! ### Expanded documents -/

/-- A resource that extends nothing is the root of its family. -/
lemma exists_family_of_not_skips (hdocuments : p.families.documents.WellFormed)
    (hfamilies : Families.ofDocuments p.families.documents = .ok p.families) {id : ResourceId}
    {body : Json} (hbody : p.families.documents.resource? id = some body)
    (hskips : p.skips id body = false) :
    ∃ family fs, p.families.get? id = some family ∧ family ∈ p.families.families ∧
      body = .object fs ∧
      family.resource = .object (Fields.set fs "Properties" family.properties) := by
  have hid := (Documents.mem_ids_iff hdocuments).mpr ⟨body, hbody⟩
  obtain ⟨family, hget, hleads⟩ := Families.exists_get? hdocuments hfamilies hid
  have hmem := List.mem_of_find?_eq_some hget
  have htarget : p.families.target? id = none := by
    rw [skips, Bool.or_eq_false_iff] at hskips
    simpa using hskips.1
  have hself : p.families.LeadsTo id id := ⟨⟨0, rfl⟩, htarget⟩
  obtain ⟨fs, hroot, hresource⟩ := (Families.resolves hdocuments hfamilies hmem).resource
  rw [← hself.unique hdocuments hfamilies hleads, hbody] at hroot
  exact ⟨family, fs, hget, hmem, Option.some.inj hroot, hresource⟩

/-- What is emitted for a resource is the resource itself with other properties. -/
lemma each_emits (happart : p.composer.schema.Apart) (hdocuments : p.families.documents.WellFormed)
    (hfamilies : Families.ofDocuments p.families.documents = .ok p.families)
    (hproper : ProperDocuments p.composer.schema p.families.documents) {id : ResourceId}
    {body made : Json} (hbody : p.families.documents.resource? id = some body)
    (hskips : p.skips id body = false) (hmade : p.Emits id body made) :
    made.Each p.composer.schema.Proper [.key "Resources", .key id.resource] := by
  have hstable := Schema.stable_proper p.composer.schema
  have hcomposable := happart.composable id.resource
  have hfamilyProper : ∀ family ∈ p.families.families,
      family.properties.Each p.composer.schema.Proper (propertiesPlace id.resource) :=
    fun family hfamily =>
      hproper.each_properties happart (Families.resolves hdocuments hfamilies hfamily) id.resource
  obtain ⟨family, fs, hget, hmem, rfl, hresource⟩ :=
    exists_family_of_not_skips hdocuments hfamilies hbody hskips
  obtain ⟨properties, hproperties, rfl⟩ : ∃ properties : Json,
      properties.Each p.composer.schema.Proper (propertiesPlace id.resource) ∧
      made = family.resource.setField "Properties" properties := by
    unfold Emits at hmade
    split_ifs at hmade
    · obtain ⟨composed, hcomposed, rfl⟩ := hmade
      obtain ⟨other, properties, hother, hproperties, hcomposedResource⟩ :=
        each_composed hcomposable hfamilyProper hcomposed
      cases hget.symm.trans hother
      exact ⟨properties, hproperties, hcomposedResource⟩
    · obtain ⟨other, hother, rfl⟩ := hmade
      cases hget.symm.trans hother
      refine ⟨_, each_qualified hcomposable (hfamilyProper family hmem), ?_⟩
      rw [emitted, hresource]
      simp [Json.field?, Json.asObject?, Family.qualified]
  rw [hresource]
  have hroot :=
    hstable.each_set (hproper.each_resource hbody) "Properties" (hfamilyProper family hmem)
  exact hstable.each_set hroot "Properties" hproperties

lemma mem_of_mem_emittedAmong {resources : Fields Json} {r : String × Json}
    (h : r ∈ p.emittedAmong module resources) :
    r ∈ resources ∧ p.skips ⟨module, r.1⟩ r.2 = false := by
  rw [emittedAmong, List.mem_filter] at h
  simpa using h

section Expanding

variable (happart : p.composer.schema.Apart) (hdocuments : p.families.documents.WellFormed)
  (hfamilies : Families.ofDocuments p.families.documents = .ok p.families)
  (hproper : ProperDocuments p.composer.schema p.families.documents) {document : Json}
  (hdocument : p.document module = .ok document)

include hdocuments hdocument in
lemma resource?_of_mem {resources : Fields Json}
    (hresources : document.field? "Resources" = some (.object resources)) {r : String × Json}
    (hr : r ∈ resources) : p.families.documents.resource? ⟨module, r.1⟩ = some r.2 := by
  obtain ⟨entry, hentry, rfl⟩ := exists_entry_of_document hdocument
  have hdistinct := (hdocuments.document _ (Fields.mem_of_get? hentry)).distinct_resources
  rw [resources_of_object hresources] at hdistinct
  rw [Documents.resource?, hentry, Option.bind_some, resources_of_object hresources]
  exact hdistinct.get?_of_mem hr

include hdocuments hfamilies hproper hdocument in
/-- The object of the emitted resources is used as properly as that of all resources. -/
lemma proper_resources {resources : Fields Json}
    (hresources : document.field? "Resources" = some (.object resources)) (kept : Fields Json) :
    p.composer.schema.Proper [.key "Resources"] (.object kept) := by
  have hraw : (Json.object resources).Each p.composer.schema.Proper ([] ++ [.key "Resources"]) := by
    obtain ⟨entry, hentry, rfl⟩ := exists_entry_of_document hdocument
    exact (hproper _ (Fields.mem_of_get? hentry)).field? hresources
  obtain ⟨-, hcode, hreference, -⟩ := Schema.proper_key_iff.mp hraw.here
  refine (Schema.proper_key_iff (p := [])).mpr ⟨by simp, hcode, fun heq => ?_, by simp⟩
  -- the reference keyword would refer to a resource whose body is a text
  obtain ⟨fs, hfs, hmem⟩ := (hreference heq).resolve_left (by simp)
  cases hfs
  obtain ⟨body, hbody⟩ := Fields.mem_keys_iff.mp hmem
  have hname := (hraw.field? (v := .object resources) hbody).here
  obtain ⟨s, rfl⟩ := (Schema.proper_key_iff.mp hname).2.2.2 (by simp [heq]) (.inl rfl)
  obtain ⟨-, hlinks, -⟩ := Families.of_ofDocuments hfamilies
  have hresource := resource?_of_mem hdocuments hdocument hresources (Fields.mem_of_get? hbody)
  have hobject := (Links.of_ofDocuments hlinks).2.1 _
    ((Documents.resource?_eq_some_iff hdocuments).mp hresource)
  cases hobject

include happart hdocuments hfamilies hproper hdocument in
/-- Keywords are used properly throughout an expanded document. -/
lemma ensures_proper_expandDocument :
    p.composer.Ensures (p.expandDocument module document)
      (fun expanded => expanded.Each p.composer.schema.Proper [])
      fun e => ∃ cause, e = .function cause := by
  have hraw : document.Each p.composer.schema.Proper [] := by
    obtain ⟨entry, hentry, rfl⟩ := exists_entry_of_document hdocument
    exact hproper _ (Fields.mem_of_get? hentry)
  refine ensures_expandDocument (fun resources hresources => ?_) fun _ => hraw
  refine (ensures_expand_kept module resources).mono (fun kept hkept => ?_) ?_
  · have hkeptProper : (Json.object kept).Each p.composer.schema.Proper [.key "Resources"] := by
      refine Json.each_object_iff.mpr
        ⟨proper_resources hdocuments hfamilies hproper hdocument hresources kept,
          fun made hmade => ?_⟩
      obtain ⟨r, hr, hname, hemits⟩ := hkept.exists_of_mem hmade
      obtain ⟨hmem, hskips⟩ := mem_of_mem_emittedAmong hr
      have hbody := resource?_of_mem hdocuments hdocument hresources hmem
      rw [hname]
      exact each_emits happart hdocuments hfamilies hproper hbody hskips hemits
    cases document with
    | object fs => exact (Schema.stable_proper _).each_set hraw "Resources" hkeptProper
    | _ => cases hresources
  · rintro e (hcause | ⟨name, hname, hnone⟩)
    · exact hcause
    · obtain ⟨r, hr, rfl⟩ := List.mem_map.mp hname
      have hbody := resource?_of_mem hdocuments hdocument hresources hr
      obtain ⟨family, hget, -⟩ := Families.exists_get? hdocuments hfamilies
        ((Documents.mem_ids_iff hdocuments).mpr ⟨_, hbody⟩)
      rw [hnone] at hget
      cases hget

end Expanding

end Project

end ModularTemplates
