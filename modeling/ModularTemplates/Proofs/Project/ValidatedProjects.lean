import ModularTemplates.Proofs.Project.Proper

/-!
# Compiling validated projects

Validators look at the keywords of a module's own document one by one, and processors at those of
the expanded document. So even in a validated project some objects can not be processed. If
keywords are used properly there are four reasons: two keywords of one object both replace it; an
address carries a keyword itself; after merging, qualifying and composing an address leads
nowhere; and code stands in a resource that is no function or can not be composed. Compiling a
module of a validated project fails for these reasons and because of functions that can not be
composed, and never otherwise.
-/

namespace ModularTemplates

namespace Project

open Composer

variable {p : Project} {module : String} {path : Path}

/-- Nothing that validators do not see keeps the keywords of an object from being processed. -/
structure Clear (p : Project) (module : String) (path : Path) (fs : Fields Json) : Prop where
  /-- at most one keyword replaces the object -/
  single : (p.composer.schema.effective fs).length ≤ 1
  /-- the address of a reference is not replaced -/
  address : ∀ as, fs.get? p.composer.schema.referenceKeyword = some (.object as) →
    p.composer.schema.effective as = []
  /-- the address of a reference leads to a family -/
  target : ∀ as a, fs.get? p.composer.schema.referenceKeyword = some (.object as) →
    Address.ofJson (.object as) = .ok a → ∃ family, p.families.get? (a.id module) = some family
  /-- code belongs to a function that can be composed -/
  code : ∀ r, path = p.composer.schema.codePlace r →
    p.composer.schema.functionKeyword ∈ fs.keys →
    ∃ composed, p.composer.compose ⟨module, r⟩ = .ok composed

/-! ### What an object is rebuilt from -/

/-- Texts stay under their keys, and no key is added. -/
def KeepsTexts (fs gs : Fields Json) : Prop :=
  (∀ key s, fs.get? key = some (.string s) → gs.get? key = some (.string s)) ∧
    ∀ key, fs.get? key = none → gs.get? key = none

/-- `p.Rebuilt module path v w`: how much the processed value `w` tells of the value `v` at a
path. -/
inductive Rebuilt (p : Project) (module : String) (path : Path) : Json → Json → Prop
  | text (s : String) : Rebuilt p module path (.string s) (.string s)
  | kept {fs gs : Fields Json} (heffective : p.composer.schema.effective fs = [])
      (htexts : KeepsTexts fs gs) : Rebuilt p module path (.object fs) (.object gs)
  | replaced {fs : Fields Json} {keyword : String} {v w : Json}
      (heffective : keyword ∈ p.composer.schema.effective fs)
      (hw : p.Replaces module path keyword v w) : Rebuilt p module path (.object fs) w
  | other {v w : Json} (hstring : v.asString? = none) (hobject : v.asObject? = none) :
      Rebuilt p module path v w

/-- The fields of an object are rebuilt one by one. -/
def RebuiltFields (p : Project) (module : String) (path : Path) (fs gs : Fields Json) : Prop :=
  Fields.Kept (fun field w => p.Rebuilt module (path ++ [.key field.1]) field.2 w) fs gs

lemma RebuiltFields.keepsTexts {fs gs : Fields Json} (h : p.RebuiltFields module path fs gs) :
    KeepsTexts fs gs := by
  refine ⟨fun key s hs => ?_, fun key hnone => ?_⟩
  · obtain ⟨w, hw, hrebuilt⟩ := h.exists_of_get? hs
    cases hrebuilt with
    | text => exact hw
    | other hstring => cases hstring
  · rwa [Fields.get?_eq_none_iff, h.keys_eq, ← Fields.get?_eq_none_iff]

/-- An address whose texts are kept is still the same address. -/
lemma KeepsTexts.ofJson {fs gs : Fields Json} (h : KeepsTexts fs gs) {a : Address}
    (ha : Address.ofJson (.object fs) = .ok a) : Address.ofJson (.object gs) = .ok a := by
  obtain ⟨_, heq, hresource, hmodule⟩ := Address.ofJson_eq_ok ha
  cases heq
  obtain ⟨module, resource⟩ := a
  have hresource' := h.1 _ _ hresource
  unfold Address.ofJson
  simp only [hresource', Option.bind_some, Json.asString?]
  cases module with
  | none => rw [h.2 _ hmodule]
  | some m => rw [h.1 _ _ hmodule]

/-! ### References -/

section Reference

variable {as fs gs : Fields Json} {v w : Json}

/-- Under the reference keyword there is a text or an address. -/
lemma reference_of_proper (hproper : (Json.object fs).Each p.composer.schema.Proper path)
    (hv : fs.get? p.composer.schema.referenceKeyword = some v) :
    (∃ s, v = .string s) ∨ ∃ as a, v = .object as ∧ Address.ofJson v = .ok a := by
  have hvalue :
      v.Each p.composer.schema.Proper (path ++ [.key p.composer.schema.referenceKeyword]) :=
    hproper.field? hv
  refine ((Schema.proper_key_iff.mp hvalue.here).2.2.1 rfl).imp id ?_
  rintro ⟨as, rfl, hmem⟩
  have htext : ∀ key u, key = "resource" ∨ key = "module" → Fields.get? as key = some u →
      ∃ s, u = .string s := by
    intro key u hkey hu
    have hpart := (hvalue.field? (v := .object as) hu).here
    exact (Schema.proper_key_iff.mp hpart).2.2.2 (Schema.suffix_one_iff.mpr rfl) hkey
  obtain ⟨u, hu⟩ := Fields.mem_keys_iff.mp hmem
  obtain ⟨s, rfl⟩ := htext "resource" u (.inl rfl) hu
  obtain ⟨a, ha⟩ := Address.exists_ofJson hu fun m hm => htext "module" m (.inr rfl) hm
  exact ⟨as, a, rfl, ha⟩

lemma mem_effective_iff {keyword : String} : keyword ∈ p.composer.schema.effective fs ↔
    keyword ∈ fs.keys ∧ p.composer.schema.takesEffect fs keyword = true :=
  List.mem_filter

/-- The name of the resource does not replace an address. -/
lemma resource_not_effective (happart : p.composer.schema.Apart) {s : String}
    (hresource : as.get? "resource" = some (.string s)) :
    "resource" ∉ p.composer.schema.effective as := by
  rw [mem_effective_iff, Schema.takesEffect_iff, hresource]
  rintro ⟨-, hparameter | hfunction | ⟨-, htext⟩⟩
  · simp at hparameter
  · exact happart.address (by simp [← hfunction])
  · cases htext

/-- An address is not replaced by a text, nor by another address. -/
lemma Replaces.of_address (happart : p.composer.schema.Apart) {keyword : String}
    (hw : p.Replaces module (path ++ [.key p.composer.schema.referenceKeyword]) keyword v w) :
    ∃ key s, w = .single key (.string s) ∧ (key = "resource" → keyword = "resource") := by
  rcases replaces_iff.mp hw
    with ⟨rfl, -, name, -, rfl⟩ | ⟨rfl, name, -, rfl⟩ | ⟨rfl, r, _, hplace, -, -⟩
  · exact ⟨_, _, rfl, id⟩
  · exact ⟨_, _, rfl, by simp⟩
  · -- code does not stand under the reference keyword
    obtain ⟨-, hlast⟩ := List.append_inj' (Schema.resourceWithCode_eq_ok_iff.mp hplace) rfl
    simp only [List.cons.injEq, Segment.key.injEq, and_true] at hlast
    refine absurd ?_ (happart.written p.composer.schema.referenceKeyword
      (by simp [Schema.keywordNames]))
    simp [hlast]

/-- What an address is rebuilt to can be resolved exactly if it is the address itself and
leads to a family. -/
lemma exists_resolve_iff (happart : p.composer.schema.Apart) {a : Address}
    (ha : Address.ofJson (.object as) = .ok a)
    (hw : p.Rebuilt module (path ++ [.key p.composer.schema.referenceKeyword]) (.object as) w) :
    w.asString? = none ∧ ((∃ name, (p.context module).resolve w = .ok name) ↔
      p.composer.schema.effective as = [] ∧
      ∃ family, p.families.get? (a.id module) = some family) := by
  cases hw with
  | kept heffective htexts =>
    refine ⟨rfl, ?_⟩
    have hkept := htexts.ofJson ha
    constructor
    · rintro ⟨name, hname⟩
      obtain ⟨b, family, hb, hfamily, -⟩ := resolve_eq_ok_iff.mp hname
      cases hkept.symm.trans hb
      exact ⟨heffective, family, hfamily⟩
    · rintro ⟨-, family, hfamily⟩
      exact ⟨_, resolve_eq_ok_iff.mpr ⟨a, family, hkept, hfamily, rfl⟩⟩
  | replaced heffective hw =>
    obtain ⟨key, s, rfl, hkey⟩ := hw.of_address happart
    refine ⟨rfl, ?_⟩
    constructor
    · rintro ⟨name, hname⟩
      obtain ⟨b, family, hb, -, -⟩ := resolve_eq_ok_iff.mp hname
      obtain ⟨_, heq, hresource, -⟩ := Address.ofJson_eq_ok hb
      cases heq
      obtain ⟨_, heq, hresource', -⟩ := Address.ofJson_eq_ok ha
      cases heq
      have hsame : "resource" = key := by simpa using Fields.mem_keys_of_get? hresource
      rw [hkey hsame.symm] at heffective
      exact absurd heffective (resource_not_effective happart hresource')
    · rintro ⟨hnil, -⟩
      rw [hnil] at heffective
      cases heffective
  | other _ hobject => cases hobject

end Reference

/-! ### One object -/

section Object

variable {fs gs : Fields Json} (happart : p.composer.schema.Apart)
  (hproper : (Json.object fs).Each p.composer.schema.Proper path)
  (h : p.RebuiltFields module path fs gs)

include happart hproper h in
/-- The same keywords take effect before and after the fields of an object are processed. -/
lemma effective_rebuilt : p.composer.schema.effective gs = p.composer.schema.effective fs := by
  have hreference : ((gs.get? p.composer.schema.referenceKeyword).getD .null).asString? = none ↔
      ((fs.get? p.composer.schema.referenceKeyword).getD .null).asString? = none := by
    cases hv : fs.get? p.composer.schema.referenceKeyword with
    | none => rw [h.keepsTexts.2 _ hv]
    | some v =>
      obtain ⟨w, hw, hrebuilt⟩ := h.exists_of_get? hv
      rcases reference_of_proper hproper hv with ⟨s, rfl⟩ | ⟨as, a, rfl, ha⟩
      · rw [h.keepsTexts.1 _ s hv]
      · rw [hw]
        exact iff_of_true (exists_resolve_iff happart ha hrebuilt).1 rfl
  unfold Schema.effective
  rw [h.keys_eq]
  refine List.filter_congr fun key _ => ?_
  rw [Bool.eq_iff_iff, Schema.takesEffect_iff, Schema.takesEffect_iff]
  refine or_congr_right (or_congr_right (and_congr_right ?_))
  rintro rfl
  exact hreference

lemma reference_mem_effective {as : Fields Json}
    (has : fs.get? p.composer.schema.referenceKeyword = some (.object as)) :
    p.composer.schema.referenceKeyword ∈ p.composer.schema.effective fs := by
  refine mem_effective_iff.mpr ⟨Fields.mem_keys_of_get? has, ?_⟩
  exact Schema.takesEffect_iff.mpr (.inr (.inr ⟨rfl, by rw [has]; rfl⟩))

lemma code_mem_effective (hcode : p.composer.schema.functionKeyword ∈ fs.keys) :
    p.composer.schema.functionKeyword ∈ p.composer.schema.effective fs :=
  mem_effective_iff.mpr ⟨hcode, Schema.takesEffect_iff.mpr (.inr (.inl rfl))⟩

include happart hproper h in
lemma Becomes.clear {w : Json} (hw : p.Becomes module path gs w) : p.Clear module path fs := by
  obtain ⟨hparameter, hfunction, hfunction'⟩ := Schema.nodup_keywordNames_iff.mp happart.names
  have heffective := effective_rebuilt happart hproper h
  cases hw with
  | kept hkept =>
    have hnil := heffective.symm.trans hkept
    have hnone : ∀ keyword, keyword ∉ p.composer.schema.effective fs := by simp [hnil]
    exact ⟨by simp [hnil], fun as has => absurd (reference_mem_effective has) (hnone _),
      fun as _ has => absurd (reference_mem_effective has) (hnone _),
      fun r _ hcode => absurd (code_mem_effective hcode) (hnone _)⟩
  | @replaced keyword _ hone hw =>
    rw [heffective] at hone
    have hresolved : ∀ as a, fs.get? p.composer.schema.referenceKeyword = some (.object as) →
        Address.ofJson (.object as) = .ok a →
        p.composer.schema.effective as = [] ∧
            ∃ family, p.families.get? (a.id module) = some family := by
      intro as a has ha
      have hkeyword : p.composer.schema.referenceKeyword = keyword := by
        simpa [hone] using reference_mem_effective has
      subst hkeyword
      obtain ⟨u, hu, hrebuilt⟩ := h.exists_of_get? has
      refine (exists_resolve_iff happart ha hrebuilt).2.mp ?_
      rw [hu] at hw
      rcases replaces_iff.mp hw with ⟨-, -, name, hname, -⟩ | ⟨heq, -⟩ | ⟨heq, -⟩
      · exact ⟨name, hname⟩
      · exact absurd heq hparameter
      · exact absurd heq hfunction
    refine ⟨by simp [hone], fun as has => ?_, fun as a has ha => (hresolved as a has ha).2,
      fun r hpath hcode => ?_⟩
    · obtain ⟨_, a, -, ha⟩ := (reference_of_proper hproper has).resolve_left (by simp)
      exact (hresolved as a has ha).1
    · have hkeyword : p.composer.schema.functionKeyword = keyword := by
        simpa [hone] using code_mem_effective hcode
      subst hkeyword
      rcases replaces_iff.mp hw
        with ⟨heq, -⟩ | ⟨heq, -⟩ | ⟨-, r', composed, hplace, hcomposed, -⟩
      · exact absurd heq.symm hfunction
      · exact absurd heq.symm hfunction'
      · have hr := Schema.resourceWithCode_eq_ok_iff.mpr hpath
        cases hplace.symm.trans hr
        exact ⟨composed, hcomposed⟩

include happart hproper h in
lemma Clear.exists_becomes (hclear : p.Clear module path fs) :
    ∃ w, p.Becomes module path gs w := by
  have heffective := effective_rebuilt happart hproper h
  cases heff : p.composer.schema.effective fs with
  | nil => exact ⟨_, .kept (heffective.trans heff)⟩
  | cons keyword rest =>
    have hrest : rest = [] := by
      have hlength := hclear.single
      rw [heff] at hlength
      simpa using hlength
    subst hrest
    have hone := heffective.trans heff
    obtain ⟨hmem, heffect⟩ := mem_effective_iff.mp (heff ▸ List.mem_cons_self (a := keyword))
    obtain ⟨v, hv⟩ := Fields.mem_keys_iff.mp hmem
    rcases Schema.takesEffect_iff.mp heffect with rfl | rfl | ⟨rfl, htext⟩
    · obtain ⟨s, rfl⟩ := (Schema.proper_key_iff.mp (hproper.field? hv).here).1 rfl
      have hw : p.Replaces module path "Parameter" ((gs.get? "Parameter").getD .null)
          (.single "Ref" (.string s)) := by
        rw [h.keepsTexts.1 _ s hv]
        exact .parameter s
      exact ⟨_, .replaced hone hw⟩
    · obtain ⟨r, hpath⟩ := (Schema.proper_key_iff.mp (hproper.field? hv).here).2.1 rfl
      obtain ⟨composed, hcomposed⟩ := hclear.code r hpath hmem
      exact ⟨_, .replaced hone (.code (Schema.resourceWithCode_eq_ok_iff.mpr hpath) hcomposed)⟩
    · rcases reference_of_proper hproper hv with ⟨s, rfl⟩ | ⟨as, a, rfl, ha⟩
      · rw [hv] at htext
        cases htext
      · obtain ⟨w, hw, hrebuilt⟩ := h.exists_of_get? hv
        obtain ⟨hnoText, hresolve⟩ := exists_resolve_iff happart ha hrebuilt
        obtain ⟨name, hname⟩ :=
          hresolve.mpr ⟨hclear.address as hv, hclear.target as a hv ha⟩
        have hreplaces : p.Replaces module path p.composer.schema.referenceKeyword
            ((gs.get? p.composer.schema.referenceKeyword).getD .null)
            (.single p.composer.schema.referenceKeyword (.string name)) := by
          rw [hw]
          exact .reference hnoText hname
        exact ⟨_, .replaced hone hreplaces⟩

end Object

/-! ### All objects -/

lemma ensures_settle_refused {c : Composer} {ε : Type} {x : Rebuild ε Composing Json}
    {good : Json → Prop} {P : Prop} (h : c.Ensures x good fun e => e.Refused ∧ P) :
    c.Ensures (settle x) good fun e => e.Refused ∧ P := by
  refine h.tryCatch fun e he => ?_
  obtain ⟨hrefused, hP⟩ := he
  cases hrefused with
  | failed path keyword cause => exact ensures_throw ⟨.failed path keyword cause, hP⟩
  | conflict path keywords => exact ensures_throw ⟨.conflict path keywords, hP⟩

mutual
/-- A value in which keywords are used properly can be processed exactly if all its
objects are clear. -/
lemma ensures_rebuilt (hp : p.keywords = builtinKeywords p.composer.schema)
    (happart : p.composer.schema.Apart) (above : List Crumb) (v : Json)
    (hproper : v.Each p.composer.schema.Proper (Node.path ⟨v, above⟩)) :
    p.composer.Ensures ((p.builtinProcessors module).value above v)
      (fun w => v.EachObject (p.Clear module) (Node.path ⟨v, above⟩) ∧
        p.Rebuilt module (Node.path ⟨v, above⟩) v w)
      fun e => e.Refused ∧ ¬v.EachObject (p.Clear module) (Node.path ⟨v, above⟩) := by
  match v with
  | .object fs =>
    have hfields :=
      ensures_rebuilt_fields hp happart (.object fs) above fs (Json.each_object_iff.mp hproper).2
    refine (ensures_object_exact hp happart.names hfields fun gs hgs => hgs.2.keys_eq).mono ?_ ?_
    · rintro w ⟨gs, ⟨hclear, hrebuilt⟩, hw⟩
      refine ⟨Json.eachObject_object_iff.mpr
        ⟨hw.clear happart hproper hrebuilt, hclear⟩, ?_⟩
      cases hw with
      | kept hkept =>
        exact .kept ((effective_rebuilt happart hproper hrebuilt).symm.trans hkept)
          hrebuilt.keepsTexts
      | replaced hone hw =>
        refine .replaced ?_ hw
        rw [← effective_rebuilt happart hproper hrebuilt, hone]
        exact List.mem_singleton_self _
    · rintro e (⟨hrefused, hnot⟩ | ⟨hrefused, gs, ⟨hclear, hrebuilt⟩, hno⟩)
      · exact ⟨hrefused, fun hall => hnot (Json.eachObject_object_iff.mp hall).2⟩
      · refine ⟨hrefused, fun hall => ?_⟩
        obtain ⟨w, hw⟩ :=
          (Json.eachObject_object_iff.mp hall).1.exists_becomes happart hproper hrebuilt
        exact hno w hw
  | .array xs =>
    have hitems := ensures_rebuilt_items hp happart (.array xs) above 0 xs (by
      simpa using (Json.each_array_iff.mp hproper).2)
    rw [Processors.value]
    refine (hitems.mono (fun _ h => h) ?_).bind fun ys hys => ensures_pure ⟨?_, .other rfl rfl⟩
    · rintro e ⟨hrefused, hnot⟩
      refine ⟨hrefused, fun hall => hnot ?_⟩
      simpa using Json.eachObject_array_iff.mp hall
    · refine Json.eachObject_array_iff.mpr ?_
      simpa using hys
  | .string s =>
    rw [Processors.value]
    · exact ensures_pure ⟨Json.eachObject_of_string s, .text s⟩
    all_goals simp
  | .null | .bool _ | .number _ =>
    rw [Processors.value]
    · exact ensures_pure ⟨by simp [Json.EachObject, Json.Each], .other rfl rfl⟩
    all_goals simp

lemma ensures_rebuilt_fields (hp : p.keywords = builtinKeywords p.composer.schema)
    (happart : p.composer.schema.Apart) (parent : Json) (above : List Crumb)
    (fs : List (String × Json))
    (hproper : ∀ field ∈ fs,
      field.2.Each p.composer.schema.Proper (Node.path ⟨parent, above⟩ ++ [.key field.1])) :
    p.composer.Ensures ((p.builtinProcessors module).fields parent above fs)
      (fun gs => (∀ field ∈ fs,
          field.2.EachObject (p.Clear module) (Node.path ⟨parent, above⟩ ++ [.key field.1])) ∧
        p.RebuiltFields module (Node.path ⟨parent, above⟩) fs gs)
      fun e => e.Refused ∧ ¬∀ field ∈ fs,
        field.2.EachObject (p.Clear module) (Node.path ⟨parent, above⟩ ++ [.key field.1]) := by
  match fs with
  | [] =>
    rw [Processors.fields]
    exact ensures_pure ⟨by simp, .nil⟩
  | (k, v) :: fs =>
    rw [List.forall_mem_cons] at hproper
    have hvalue := ensures_settle_refused
      (ensures_rebuilt hp happart (⟨.key k, parent⟩ :: above) v (by simpa using hproper.1))
    have hrest := ensures_rebuilt_fields hp happart parent above fs hproper.2
    rw [Node.path_cons] at hvalue
    simp only [List.forall_mem_cons]
    rw [Processors.fields]
    refine (hvalue.mono (fun _ h => h) ?_).bind fun w hw => ?_
    · exact fun e he => ⟨he.1, fun hall => he.2 hall.1⟩
    refine (hrest.mono (fun _ h => h) ?_).bind fun gs hgs => ensures_pure ?_
    · exact fun e he => ⟨he.1, fun hall => he.2 hall.2⟩
    · exact ⟨⟨hw.1, hgs.1⟩, .cons ⟨rfl, hw.2⟩ hgs.2⟩

lemma ensures_rebuilt_items (hp : p.keywords = builtinKeywords p.composer.schema)
    (happart : p.composer.schema.Apart) (parent : Json) (above : List Crumb) (i : Nat)
    (xs : List Json)
    (hproper : ∀ j (x : Json), xs[j]? = some x →
      x.Each p.composer.schema.Proper (Node.path ⟨parent, above⟩ ++ [.index (i + j)])) :
    p.composer.Ensures ((p.builtinProcessors module).items parent above i xs)
      (fun _ => ∀ j (x : Json), xs[j]? = some x →
        x.EachObject (p.Clear module) (Node.path ⟨parent, above⟩ ++ [.index (i + j)]))
      fun e => e.Refused ∧ ¬∀ j (x : Json), xs[j]? = some x →
        x.EachObject (p.Clear module) (Node.path ⟨parent, above⟩ ++ [.index (i + j)]) := by
  match xs with
  | [] =>
    rw [Processors.items]
    exact ensures_pure (by simp)
  | x :: xs =>
    obtain ⟨hx, hxs⟩ := (Json.forall_items_cons_iff (P := fun i x =>
      x.Each p.composer.schema.Proper (Node.path ⟨parent, above⟩ ++ [.index i]))).mp hproper
    have hvalue := ensures_settle_refused
      (ensures_rebuilt hp happart (⟨.index i, parent⟩ :: above) x (by simpa using hx))
    have hrest := ensures_rebuilt_items hp happart parent above (i + 1) xs hxs
    rw [Node.path_cons] at hvalue
    simp only [Json.forall_items_cons_iff (P := fun i x =>
      x.EachObject (p.Clear module) (Node.path ⟨parent, above⟩ ++ [.index i]))]
    rw [Processors.items]
    refine (hvalue.mono (fun _ h => h) ?_).bind fun y hy => ?_
    · exact fun e he => ⟨he.1, fun hall => he.2 hall.1⟩
    refine (hrest.mono (fun _ h => h) ?_).bind fun ys hys => ensures_pure ⟨hy.1, hys⟩
    exact fun e he => ⟨he.1, fun hall => he.2 hall.2⟩
end

/-! ### Compiling -/

lemma ensures_processDocument_clear (hp : p.keywords = builtinKeywords p.composer.schema)
    (happart : p.composer.schema.Apart) {expanded : Json}
    (hproper : expanded.Each p.composer.schema.Proper []) :
    p.composer.Ensures (p.processDocument module expanded)
      (fun _ => expanded.EachObject (p.Clear module) [])
      fun e => (∃ cause, e = .process cause ∧
        ∀ path level, cause ≠ .levelNotPossible path level) ∧
        ¬expanded.EachObject (p.Clear module) [] := by
  unfold processDocument
  rw [setUp_builtinProcessors hp happart.names]
  refine Ensures.adapt (Ensures.adapt ?_)
  refine (ensures_settle_refused (ensures_rebuilt hp happart [] expanded hproper)).mono
    (fun _ h => h.1) ?_
  rintro e ⟨hrefused, hnot⟩
  refine ⟨?_, hnot⟩
  cases hrefused with
  | failed path keyword cause => exact ⟨_, rfl, by simp⟩
  | conflict path keywords => exact ⟨_, rfl, by simp⟩

/-- What comes of compiling a module with a document: its functions can not be composed, the
expanded document is clear throughout and is compiled, or it is not and its keywords can not
be processed. -/
inductive Answers (p : Project) (module : String) (document : Json) :
    Except ProjectError Json → Prop
  | function {cause : FunctionError}
      (hexpand : outcome (p.expandDocument module document) = .error (.function cause)) :
      Answers p module document (.error (.function cause))
  | compiled {expanded compiled : Json}
      (hexpand : outcome (p.expandDocument module document) = .ok expanded)
      (hclear : expanded.EachObject (p.Clear module) []) : Answers p module document (.ok compiled)
  | refused {expanded : Json} {cause : ProcessError KeywordFailure}
      (hexpand : outcome (p.expandDocument module document) = .ok expanded)
      (hnot : ¬expanded.EachObject (p.Clear module) [])
      (hcause : ∀ path level, cause ≠ .levelNotPossible path level) :
      Answers p module document (.error (.process cause))

lemma ensures_answers_compile (hp : p.keywords = builtinKeywords p.composer.schema)
    (happart : p.composer.schema.Apart) (hdocuments : p.families.documents.WellFormed)
    (hfamilies : Families.ofDocuments p.families.documents = .ok p.families)
    (hproper : ProperDocuments p.composer.schema p.families.documents) {document : Json}
    (hdocument : p.document module = .ok document) :
    p.composer.Ensures (p.compile module) (fun compiled => p.Answers module document (.ok compiled))
      fun e => p.Answers module document (.error e) := by
  have hexpand := (p.asking_expandDocument module document).ensures.and
    (ensures_proper_expandDocument happart hdocuments hfamilies hproper hdocument)
  refine ensures_of_steps hdocument (hexpand.mono (fun _ h => h) ?_) fun expanded hexpanded => ?_
  · rintro _ ⟨houtcome, cause, rfl⟩
    exact .function houtcome
  · refine (ensures_processDocument_clear hp happart hexpanded.2).mono
      (fun processed hclear => .compiled hexpanded.1 hclear) ?_
    rintro _ ⟨⟨cause, rfl, hcause⟩, hnot⟩
    exact .refused hexpanded.1 hnot hcause

lemma properDocuments_of_validateAll (hp : p.keywords = builtinKeywords p.composer.schema)
    (happart : p.composer.schema.Apart) (hdocuments : p.families.documents.WellFormed)
    (hvalid : p.validateAll = .ok []) : ProperDocuments p.composer.schema p.families.documents := by
  intro entry hentry
  have hdocument : p.document entry.1 = .ok entry.2.document := by
    rw [Project.document, hdocuments.distinct.get?_of_mem (v := entry.2) hentry]
  refine each_proper_of_accepted (hdocuments.document _ hentry)
    (accepted_of_validateAll hp happart.names hvalid ?_ hdocument)
  exact List.mem_map_of_mem hentry

/-- A module of a validated project is compiled exactly if its functions can be composed and its
expanded document is clear throughout. Otherwise it fails for one of these two reasons: no module
or resource is unknown, all keywords can be set up, and no replacement reaches for a container
that is not there. -/
theorem compile_of_validated {documents : Documents} (hdocuments : documents.WellFormed)
    (hfamilies : Families.ofDocuments documents = .ok p.families)
    (hkeywords : p.keywords = builtinKeywords p.composer.schema) (happart : p.composer.schema.Apart)
    (hvalid : p.validateAll = .ok []) {module : String} (hmodule : module ∈ p.moduleNames)
    {cache : FunctionCache} (hcache : p.composer.Sound cache) :
    ∃ document, p.document module = .ok document ∧
      p.Answers module document ((p.compile module).run.run cache).1 := by
  obtain ⟨rfl, -⟩ := Families.of_ofDocuments hfamilies
  obtain ⟨entry, hentry⟩ := Fields.mem_keys_iff.mp hmodule
  have hdocument : p.document module = .ok entry.document := by
    rw [Project.document, hentry]
  have hproper := properDocuments_of_validateAll hkeywords happart hdocuments hvalid
  refine ⟨_, hdocument, ?_⟩
  obtain ⟨-, hanswer⟩ :=
    ensures_answers_compile hkeywords happart hdocuments hfamilies hproper hdocument
      cache hcache
  generalize ((p.compile module).run.run cache).1 = answer at hanswer
  cases answer with
  | ok compiled => exact hanswer
  | error e => exact hanswer

lemma validateAll_eq_nil (h : p.validateAll.toOption.any List.isEmpty = true) :
    p.validateAll = .ok [] := by
  cases hreport : p.validateAll with
  | error e => simp [hreport, Except.toOption] at h
  | ok report => simpa [hreport, Except.toOption] using h

/-- A function with code, a reference and a parameter. -/
theorem compile_of_validated_function :
    let apiBody : Json :=
      .object [("Type", .string "AWS::Serverless::Function"), ("Properties", .object
        [("CodeUri", .object [("Function", .object [("name", .string "api")])]),
          ("Stage", .object [("Parameter", .string "Stage")]),
          ("Table", .object [("Ref", .object [("resource", .string "table")])])])]
    let tableBody : Json := .object [("Type", .string "Table"), ("Properties", .object [])]
    let api : ResourceId := ⟨"app", "api"⟩
    let table : ResourceId := ⟨"app", "table"⟩
    let p : Project :=
      { composer :=
          { families :=
              { documents := [("app", ⟨.object [("Resources", .object
                  [("api", apiBody), ("table", tableBody)])], none⟩)]
                links := [⟨api, apiBody, none, []⟩, ⟨table, tableBody, none, []⟩]
                families :=
                  [⟨api, [api], apiBody, .leaf api⟩,
                    ⟨table, [table], tableBody, .leaf table⟩] }
            schema := .standard
            extensions := [] }
        keywords := builtinKeywords .standard
        parameters := ["Stage"]
        rootDir := "."
        moduleHash := fun module => module ++ "-" }
    p.families.documents.WellFormed ∧
      Families.ofDocuments p.families.documents = .ok p.families ∧
      p.composer.schema.Apart ∧ p.validateAll = .ok [] ∧ "app" ∈ p.moduleNames ∧
      ∃ document, p.document "app" = .ok document ∧
        p.Answers "app" document ((p.compile "app").run.run []).1 := by
  intro apiBody tableBody api table p
  have hdocuments : p.families.documents.WellFormed := by decide
  have hfamilies : Families.ofDocuments p.families.documents = .ok p.families := by cbv
  have happart : p.composer.schema.Apart := by decide
  have hvalid : p.validateAll = .ok [] := validateAll_eq_nil (by decide +kernel)
  have hmodule : "app" ∈ p.moduleNames := by decide
  exact ⟨hdocuments, hfamilies, happart, hvalid, hmodule,
    compile_of_validated hdocuments hfamilies rfl happart hvalid hmodule sound_nil⟩

/-- Two keywords that both replace one object, a parameter in an address, code in a resource that is
no function, and a layer that does not exist; and an address to which the name of its module is
added where that is the name of the keyword of code. All of this is validated without complaint, and
its keywords can not be processed. -/
theorem validated_not_processed :
    let reference : Json := .object [("resource", .string "b")]
    let plain (value : Json) : Json :=
      .object [("Type", .string "T"), ("Properties", .object [("Uses", value)])]
    let code : Json :=
      .object [("CodeUri", .object [("Function", .object [("name", .string "x")])])]
    let module (name : String) (fs : Fields Json) : String × ModuleDocument :=
      (name, ⟨.object [("Resources", .object fs)], none⟩)
    let family (id : ResourceId) (body : Json) : Family := ⟨id, [id], body, .leaf id⟩
    let families (documents : Documents) : Families :=
      { documents
        links := documents.resources.map fun r => ⟨r.1, r.2, none, []⟩
        families := documents.resources.map fun r => family r.1 r.2 }
    let project (documents : Documents) (schema : Schema) : Project :=
      { composer := ⟨families documents, schema, [⟨"ext", [], [⟨"missing", none⟩]⟩]⟩
        keywords := builtinKeywords schema
        parameters := ["Stage"]
        rootDir := "."
        moduleHash := fun module => module ++ "-" }
    let p := project
      [module "both" [("a", plain (.object [("Ref", reference), ("Parameter", .string "Stage")])),
          ("b", plain .null)],
        module "address" [("a", plain (.single "Ref" (.object
          [("resource", .string "b"), ("Parameter", .string "Stage")]))), ("b", plain .null)],
        module "code" [("a", .object [("Type", .string "T"), ("Properties", code)])],
        module "layer"
          [("a", .object [("Type", .string "AWS::Serverless::Function"), ("Properties", code)])]]
      .standard
    let q := project [module "named" [("a", plain (.single "Ref" reference)), ("b", plain .null)]]
      { Schema.standard with functionKeyword := "module" }
    let refused (p : Project) (module : String) : Prop :=
      ∃ cause, ((p.compile module).run.run []).1 = .error (.process cause)
    (p.families.documents.WellFormed ∧
      Families.ofDocuments p.families.documents = .ok p.families ∧
      p.validateAll = .ok [] ∧ ∀ module ∈ p.moduleNames, refused p module) ∧
    q.families.documents.WellFormed ∧
    Families.ofDocuments q.families.documents = .ok q.families ∧
      q.validateAll = .ok [] ∧ refused q "named" := by
  intro reference plain code module family families project p q refused
  let isProcess : Except ProjectError Json → Bool
    | .error (.process _) => true
    | _ => false
  have hrefused : ∀ r, isProcess r = true → ∃ cause, r = .error (.process cause) := by
    intro r hr
    cases r with
    | ok v => cases hr
    | error e =>
      cases e with
      | process cause => exact ⟨cause, rfl⟩
      | _ => cases hr
  refine ⟨⟨by decide, by cbv, validateAll_eq_nil (by decide +kernel), ?_⟩, by decide, by cbv,
    validateAll_eq_nil (by decide +kernel), hrefused _ (by decide +kernel)⟩
  have hall : ∀ module ∈ p.moduleNames, isProcess ((p.compile module).run.run []).1 = true := by
    decide +kernel
  exact fun module hmodule => hrefused _ (hall module hmodule)

end Project

end ModularTemplates
