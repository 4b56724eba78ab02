import Mathlib.Tactic.Lemma
import ModularTemplates.Proofs.Function.Entries
import ModularTemplates.Proofs.Provenance.SameButList

/-!
# Functions that are the same but for their middleware lists

Qualifying the addresses of two values that are the same but for a list leaves them so, if the
modules are the same outside the list. Contributions add their items to the list or beside it, and a
middleware is merged beside it. So what is composed from such values is the same but for the list.
-/

namespace ModularTemplates

/-! ### Qualifying -/

namespace Qualifier

variable {q q' : Qualifier} {path : Path} {keys : List String} {key : String} {v w : Json}

lemma object_of_moduleAt (hschema : q'.schema = q.schema)
    (hself : q'.moduleAt path = q.moduleAt path)
    (h : ∀ k p, q'.moduleAt (path ++ .key k :: p) = q.moduleAt (path ++ .key k :: p))
    (fs : Fields Json) :
    q'.object path fs = q.object path fs := by
  rw [object, object, hschema, funext (address_congr hself)]
  refine onField_congr fun u _ => middlewares_congr hschema fun i _ => ?_
  rw [List.append_assoc]
  exact h _ _

mutual
/-- The modules that are seen at the places on from a path are all that counts. -/
lemma value_of_moduleAt (hschema : q'.schema = q.schema) {path : Path}
    (h : ∀ p, q'.moduleAt (path ++ p) = q.moduleAt (path ++ p)) (v : Json) :
    q'.value path v = q.value path v := by
  match v with
  | .object fs =>
    have hself := h []
    rw [List.append_nil] at hself
    rw [value, value, fields_of_moduleAt hschema (fun k p => h (.key k :: p)) fs,
      object_of_moduleAt hschema hself fun k p => h (.key k :: p)]
  | .array xs => rw [value, value, items_of_moduleAt hschema (fun i p => h (.index i :: p)) 0 xs]
  | .null | .bool _ | .number _ | .string _ =>
    rw [value, value]
    all_goals simp

lemma fields_of_moduleAt (hschema : q'.schema = q.schema) {path : Path}
    (h : ∀ k p, q'.moduleAt (path ++ .key k :: p) = q.moduleAt (path ++ .key k :: p))
    (fs : List (String × Json)) : q'.fields path fs = q.fields path fs := by
  match fs with
  | [] => rfl
  | (k, v) :: fs =>
    rw [fields, fields, fields_of_moduleAt hschema h fs,
      value_of_moduleAt hschema (fun p => by simpa using h k p) v]

lemma items_of_moduleAt (hschema : q'.schema = q.schema) {path : Path}
    (h : ∀ i p, q'.moduleAt (path ++ .index i :: p) = q.moduleAt (path ++ .index i :: p))
    (i : Nat) (xs : List Json) : q'.items path i xs = q.items path i xs := by
  match xs with
  | [] => rfl
  | x :: xs =>
    rw [items, items, items_of_moduleAt hschema h (i + 1) xs,
      value_of_moduleAt hschema (fun p => by simpa using h i p) x]
end

/-- Two qualifiers of one schema see the same modules on from a path, except inside the list at a
path of keys. -/
structure AgreeOutside (q q' : Qualifier) (keys : List String) (path : Path) : Prop where
  schema : q'.schema = q.schema
  moduleAt : ∀ p, p.Outside keys → q'.moduleAt (path ++ p) = q.moduleAt (path ++ p)

namespace AgreeOutside

lemma child (h : q.AgreeOutside q' (key :: keys) path) :
    q.AgreeOutside q' keys (path ++ [.key key]) := by
  refine ⟨h.schema, fun p hp => ?_⟩
  rw [← List.append_cons]
  refine h.moduleAt _ fun i rest heq => ?_
  rw [Path.ofKeys_cons, List.cons_append, List.cons.injEq] at heq
  exact hp i rest heq.2

lemma moduleAt_self (h : q.AgreeOutside q' keys path) : q'.moduleAt path = q.moduleAt path := by
  have hmodule := h.moduleAt [] (fun i rest heq => by simp at heq)
  rwa [List.append_nil] at hmodule

lemma moduleAt_of_ne (h : q.AgreeOutside q' (key :: keys) path) {seg : Segment}
    (hseg : seg ≠ .key key) (p : Path) :
    q'.moduleAt (path ++ seg :: p) = q.moduleAt (path ++ seg :: p) := by
  refine h.moduleAt _ fun i rest heq => ?_
  rw [Path.ofKeys_cons, List.cons_append, List.cons.injEq] at heq
  exact hseg heq.1

lemma moduleAt_key (h : q.AgreeOutside q' [] path) (k : String) (p : Path) :
    q'.moduleAt (path ++ .key k :: p) = q.moduleAt (path ++ .key k :: p) :=
  h.moduleAt _ fun i rest heq => by simp at heq

end AgreeOutside

lemma sameBut_onField {R : Json → Json → Prop} {fs gs : Fields Json} {other : String}
    {f g : Json → Json} (h : Fields.SameBut R key fs gs)
    (hhere : other = key → ∀ v w, R v w → R (f v) (g w))
    (hother : other ≠ key → ∀ v, g v = f v) :
    Fields.SameBut R key (onField fs other f) (onField gs other g) := by
  unfold onField
  by_cases hkey : other = key
  · subst hkey
    have hget := h.get?
    cases hfs : fs.get? other with
    | none =>
      rw [hfs] at hget
      cases hgs : gs.get? other with
      | none => exact h
      | some w => simp [hgs] at hget
    | some v =>
      rw [hfs] at hget
      cases hgs : gs.get? other with
      | none => simp [hgs] at hget
      | some w =>
        rw [hgs] at hget
        cases hget with
        | some hvw => exact h.set_here (hhere rfl v w hvw)
  · rw [h.get?_of_ne hkey]
    cases fs.get? other with
    | none => exact h
    | some v =>
      dsimp only
      rw [hother hkey v]
      exact h.set_other hkey _

lemma sameButList_address (hmodule : q'.moduleAt path = q.moduleAt path)
    (h : Json.SameButList keys v w) :
    Json.SameButList keys (q.address path v) (q'.address path w) := by
  cases keys with
  | nil =>
    rcases h with rfl | ⟨xs, ys, rfl, rfl⟩
    · exact .inl (address_congr hmodule w)
    · exact .inr ⟨xs, ys, rfl, rfl⟩
  | cons key keys =>
    rcases h with rfl | ⟨fs, gs, rfl, rfl, h⟩
    · exact .inl (address_congr hmodule w)
    · rw [address, address, h.has_eq, h.has_eq, hmodule]
      split_ifs
      · exact .of_fields h
      · exact .of_fields (h.set (.refl keys) _ _)

lemma sameButList_entries (hagree : q.AgreeOutside q' keys path) (h : Json.SameButList keys v w) :
    Json.SameButList keys (q.entries path v) (q'.entries path w) := by
  cases keys with
  | nil =>
    rcases h with rfl | ⟨xs, ys, rfl, rfl⟩
    · cases w with
      | array xs => exact .inr ⟨_, _, rfl, rfl⟩
      | _ => exact .inl rfl
    · exact .inr ⟨_, _, rfl, rfl⟩
  | cons key keys =>
    rcases h with rfl | ⟨fs, gs, rfl, rfl, h⟩
    · exact .inl (entries_congr fun i _ => hagree.moduleAt_of_ne (by simp) [])
    · exact .of_fields h

lemma sameButList_middlewares (hagree : q.AgreeOutside q' keys path)
    (h : Json.SameButList keys v w) :
    Json.SameButList keys (q.middlewares path v) (q'.middlewares path w) := by
  cases keys with
  | nil =>
    rcases h with rfl | ⟨xs, ys, rfl, rfl⟩
    · exact .inl (middlewares_congr hagree.schema fun i _ => hagree.moduleAt_key _ _)
    · exact .inr ⟨xs, ys, rfl, rfl⟩
  | cons key keys =>
    rcases h.objects_or_eq with ⟨fs, gs, rfl, rfl, hfs⟩ | ⟨rfl, hobject⟩
    · rw [middlewares, middlewares, hagree.schema]
      refine .of_fields (sameBut_onField hfs ?_ fun hfield v => ?_)
      · rintro rfl v w hvw
        exact sameButList_entries hagree.child hvw
      · refine entries_congr fun i _ => ?_
        rw [List.append_assoc]
        exact hagree.moduleAt_of_ne (fun heq => hfield (Segment.key.inj heq)) _
    · cases w with
      | object fs => exact absurd rfl (hobject fs)
      | _ => exact .inl rfl

lemma sameBut_fields {fs gs : List (String × Json)} (hagree : q.AgreeOutside q' (key :: keys) path)
    (hpart : ∀ {v w}, Json.SameButList keys v w →
      Json.SameButList keys (q.value (path ++ [.key key]) v) (q'.value (path ++ [.key key]) w))
    (h : Fields.SameBut (Json.SameButList keys) key fs gs) :
    Fields.SameBut (Json.SameButList keys) key (q.fields path fs) (q'.fields path gs) := by
  induction h with
  | nil => exact .nil
  | here hvw _ ih => exact .here (hpart hvw) ih
  | other hk _ ih =>
    rw [fields, fields, value_of_moduleAt hagree.schema fun p => ?_]
    · exact .other hk ih
    · rw [← List.append_cons]
      exact hagree.moduleAt_of_ne (fun heq => hk (Segment.key.inj heq)) p

/-- Values that are the same but for a list are qualified alike outside the list. -/
theorem sameButList_value (hagree : q.AgreeOutside q' keys path) (h : Json.SameButList keys v w) :
    Json.SameButList keys (q.value path v) (q'.value path w) := by
  induction keys generalizing path v w with
  | nil =>
    rcases h with rfl | ⟨xs, ys, rfl, rfl⟩
    · cases w with
      | array xs => exact .inr ⟨_, _, rfl, rfl⟩
      | object fs =>
        refine .inl ?_
        rw [value, value, fields_of_moduleAt hagree.schema hagree.moduleAt_key,
          object_of_moduleAt hagree.schema hagree.moduleAt_self hagree.moduleAt_key]
      | _ => exact .inl rfl
    · exact .inr ⟨_, _, rfl, rfl⟩
  | cons key keys ih =>
    have hother : ∀ {seg : Segment}, seg ≠ .key key → ∀ p,
        q'.moduleAt (path ++ seg :: p) = q.moduleAt (path ++ seg :: p) := hagree.moduleAt_of_ne
    rcases h.objects_or_eq with ⟨fs, gs, rfl, rfl, hfs⟩ | ⟨rfl, hobject⟩
    · have hfields :=
        sameBut_fields hagree (fun {v w} => @ih (path ++ [.key key]) v w hagree.child) hfs
      rw [value, value, object, object, hagree.schema]
      refine .of_fields (sameBut_onField (sameBut_onField hfields ?_ ?_) ?_ ?_)
      · exact fun _ v w hvw => sameButList_address hagree.moduleAt_self hvw
      · exact fun _ v => address_congr hagree.moduleAt_self v
      · rintro rfl v w hvw
        exact sameButList_middlewares hagree.child hvw
      · refine fun hkeyword v => middlewares_congr hagree.schema fun i _ => ?_
        rw [List.append_assoc]
        exact hother (fun heq => hkeyword (Segment.key.inj heq)) _
    · cases w with
      | object fs => exact absurd rfl (hobject fs)
      | array xs =>
        refine .inl ?_
        rw [value, value, items_of_moduleAt hagree.schema fun i p => hother (by simp) p]
      | _ => exact .inl rfl

end Qualifier

/-- The modules of all places outside the list are the same. -/
lemma Provenance.SameButList.qualifyReferences {keys : List String} {x y : Json × Provenance}
    (h : SameButList keys x y) (schema : Schema) :
    Json.SameButList keys (qualifyReferences schema x.2 x.1)
      (qualifyReferences schema y.2 y.1) := by
  obtain ⟨M, N, hM, hN, htracks, htracks', hMN⟩ := h
  rw [← hM, ← hN]
  refine Qualifier.sameButList_value ⟨rfl, fun p hp => ?_⟩ hMN.erase
  rw [Qualifier.moduleAt, Qualifier.moduleAt, List.nil_append, htracks.owner_source,
    htracks'.owner_source, hMN.authorAt_eq hp]

/-! ### Code -/

lemma Path.outside_of_length_le {keys : List String} {p : Path} (h : p.length ≤ keys.length) :
    p.Outside keys := by
  rintro i rest rfl
  simp only [Path.ofKeys, List.length_append, List.length_map, List.length_cons] at h
  omega

/-- The keys that lead to the list of middlewares. -/
def Schema.middlewaresKeys (schema : Schema) : List String :=
  [schema.codeProperty, schema.functionKeyword, schema.middlewaresField]

/-- Code is named outside the list. -/
lemma Provenance.SameButList.code?_eq {keys : List String} {x y : Json × Provenance}
    (h : SameButList keys x y) {p : Path} (hp : p.length < keys.length) :
    Properties.code? ⟨y.1, y.2⟩ p = Properties.code? ⟨x.1, x.2⟩ p := by
  have houtside : Path.Outside keys (p ++ [.key "name"]) := by
    apply Path.outside_of_length_le
    rw [List.length_append, List.length_singleton]
    exact hp
  obtain ⟨M, N, hM, hN, htracks, htracks', hMN⟩ := h
  have htext :=
    hMN.erase.map_lookup (f := Json.asString?) (fun _ _ => rfl) (fun _ _ => rfl) houtside
  have hsource : (source (p ++ [.key "name"]) y.2).owner =
      (source (p ++ [.key "name"]) x.2).owner := by
    rw [htracks.owner_source, htracks'.owner_source, hMN.authorAt_eq houtside]
  rw [hM, hN] at htext
  simp only [Properties.code?, hsource]
  cases hx : Path.lookup (p ++ [.key "name"]) x.1 <;> cases hy :
    Path.lookup (p ++ [.key "name"]) y.1 <;>
    simp_all

lemma Json.hasCodeKeyword_eq (body : Json) (schema : Schema) (keyword : String) :
    body.hasCodeKeyword schema keyword =
      (Path.lookup [.key "Properties", .key schema.codeProperty, .key keyword] body).isSome := by
  rw [hasCodeKeyword, Path.lookup_cons, child?_key]
  cases body.field? "Properties" with
  | none => rfl
  | some properties =>
    rw [Option.bind_some, Option.bind_some, Path.lookup_cons, child?_key]
    cases properties.field? schema.codeProperty with
    | none => rfl
    | some code =>
      rw [Option.bind_some, Option.bind_some, Path.lookup_cons, child?_key]
      cases code.field? keyword <;> rfl

/-! ### Contributions -/

section Nest

variable {rules : Rules} {path : Path} {v : Json} {fs : Fields Json} {key : String}
  {keys : List String}

/-- Items inside objects of one field each can be added unless something else than a
list is there. -/
lemma error_mergeAt_nest {ys : List Json}
    (hopen : Path.lookup (keys.map .key) v = some (.object fs))
    (hnone : ∀ p, p <+: keys → rules.find? (path ++ p.map .key) = none)
    (happend : rules.find? (path ++ (keys.map .key ++ [.key key])) = some .append) :
    (mergeAt rules path v (.nest keys (.single key (.array ys)))).error = none ↔
      ((fs.get? key).getD .null).itemsOrNull?.isSome := by
  have hfind := hnone [] List.nil_prefix
  rw [List.map_nil, List.append_nil] at hfind
  induction keys generalizing path v with
  | nil =>
    cases hopen
    rw [List.map_nil, List.nil_append] at happend
    rw [Json.nest_nil, mergeAt_single hfind, mergeAt_of_rule happend]
    simp only [Merged.map, applyOperation, addItems]
    cases ((fs.get? key).getD .null).itemsOrNull? <;> simp [Merged.changed]
  | cons k keys ih =>
    obtain ⟨u, hu, hbelow⟩ := Option.bind_eq_some_iff.mp hopen
    cases v with
    | object gs =>
      replace hu : Fields.get? gs k = some u := hu
      have hbelowNone : ∀ p, p <+: keys →
          rules.find? (path ++ [.key k] ++ p.map .key) = none := by
        intro p hp
        simpa using hnone (k :: p) (List.cons_prefix_cons.mpr ⟨rfl, hp⟩)
      rw [Json.nest_cons, mergeAt_single hfind, hu, Option.getD_some]
      exact ih hbelow hbelowNone (by simpa using happend)
        (by simpa using hbelowNone [] List.nil_prefix)
    | _ => cases hu

lemma Marked.mergeAt_single {contributor : ResourceId} {m : Mark} (hfind : rules.find? path = none)
    (fs : Fields Marked) (key : String) (s : Json) :
    Marked.mergeAt rules contributor path (.object m fs) (.single key s) =
      .object m (Fields.set fs key
      (Marked.mergeAt rules contributor (path ++ [.key key])
        (childD (.object m fs) (.key key)) s)) := by
  rw [Json.single, Marked.mergeAt, hfind]
  rfl

/-- Items of whatever contributors can be added to the list inside objects of one field each. -/
lemma Marked.SameButList.mergeAt_nest (keys : List String) {M N : Marked} {m : Mark}
    {fs : Fields Marked} {ys ys' : List Json} (h : SameButList (keys ++ [key]) M N)
    (hopen : M.at? (keys.map .key) = some (.object m fs))
    (hnone : ∀ p, p <+: keys → rules.find? (path ++ p.map .key) = none)
    (happend : rules.find? (path ++ (keys.map .key ++ [.key key])) = some .append)
    (a b : ResourceId) :
    SameButList (keys ++ [key]) (M.mergeAt rules a path (.nest keys (.single key (.array ys))))
      (N.mergeAt rules b path (.nest keys (.single key (.array ys')))) := by
  have hfind := hnone [] List.nil_prefix
  rw [List.map_nil, List.append_nil] at hfind
  induction keys generalizing path M N with
  | nil =>
    cases hopen
    obtain ⟨gs, rfl, hfs⟩ := h.exists_object
    rw [List.map_nil, List.nil_append] at happend
    rw [Json.nest_nil, Json.nest_nil, Marked.mergeAt_single hfind, Marked.mergeAt_single hfind]
    refine .inr ⟨m, _, _, rfl, rfl, hfs.set_here ?_⟩
    rw [mergeAt_of_rule happend, mergeAt_of_rule happend]
    exact h.childD_key.addItems_list .append a b ys ys'
  | cons k keys ih =>
    obtain ⟨T, hT, hbelow⟩ := Option.bind_eq_some_iff.mp hopen
    cases M with
    | object m' ts =>
      obtain ⟨gs, rfl, hts⟩ := h.exists_object
      have hbelowNone : ∀ p, p <+: keys →
          rules.find? (path ++ [.key k] ++ p.map .key) = none := by
        intro p hp
        simpa using hnone (k :: p) (List.cons_prefix_cons.mpr ⟨rfl, hp⟩)
      rw [Json.nest_cons, Json.nest_cons, Marked.mergeAt_single hfind, Marked.mergeAt_single hfind]
      refine .inr ⟨m', _, _, rfl, rfl,
        hts.set_here (ih h.childD_key ?_ hbelowNone (by simpa using happend)
        (by simpa using hbelowNone [] List.nil_prefix))⟩
      rw [childD, hT, Option.getD_some]
      exact hbelow
    | _ => cases hT

end Nest

section Inject

variable {schema : Schema} {function : ResourceId} {p p' : Properties}
  {injection injection' : Injection}

lemma Properties.inject_of_error {e : MergeError}
    (h : (merge schema.injectionRules p.value injection.2).error = some e) :
    p.inject schema function injection = .error (.merge function e) := by
  rw [inject, Merged.result, h]

lemma Properties.inject_of_ok (h : (merge schema.injectionRules p.value injection.2).error = none) :
    ∃ next, p.inject schema function injection = .ok next := by
  rw [inject, Merged.result, h]
  exact ⟨_, rfl⟩

/-- A marked value keeps up with a contribution. -/
lemma Properties.inject_tracks {next : Properties} {M : Marked}
    (hinjection : injection.2.WellFormed) (herase : M.erase = p.value)
    (htracks : p.provenance.Tracks M) (h : p.inject schema function injection = .ok next) :
    (M.merge schema.injectionRules injection.1 injection.2).erase = next.value ∧
      next.provenance.Tracks (M.merge schema.injectionRules injection.1 injection.2) := by
  obtain ⟨changes, hmerge, hprovenance⟩ := inject_eq_ok h
  have hmerges := Merges.of_merge hinjection hmerge
  rw [hprovenance]
  exact ⟨Marked.erase_mergeAt hmerges herase, htracks.enterAll hmerges herase⟩

/-- Two contributions of a middleware, or one of a layer. -/
def Schema.SameContribution (schema : Schema) (injection injection' : Injection) : Prop :=
  (∃ a b, injection = schema.middlewareInjection a ∧
    injection' = schema.middlewareInjection b) ∨
    ∃ a, injection = schema.layerInjection a ∧ injection' = schema.layerInjection a

/-- Properties that describe the code of a function, and are the same but for its middlewares. -/
structure Properties.SameButList (schema : Schema) (p p' : Properties) : Prop where
  merged :
    Provenance.SameButList schema.middlewaresKeys (p.value, p.provenance) (p'.value, p'.provenance)
  describesCode : ∃ fs, schema.functionCodePath.lookup p.value = some (.object fs)

lemma Provenance.SameButList.value {keys : List String} {x y : Json × Provenance}
    (h : SameButList keys x y) :
    Json.SameButList keys x.1 y.1 := by
  obtain ⟨M, N, hM, hN, -, -, hMN⟩ := h
  rw [← hM, ← hN]
  exact hMN.erase

lemma Json.SameButList.exists_object_lookup {keys : List String} {v w : Json} {path : Path}
    {fs : Fields Json} (h : SameButList keys v w) (hpath : path.Outside keys)
    (hv : path.lookup v = some (.object fs)) :
    ∃ gs, path.lookup w = some (.object gs) := by
  have hobject := h.map_lookup (f := Json.isObject) (fun _ _ => rfl) (fun _ _ => rfl) hpath
  rw [hv, Option.map_some, Option.map_eq_some_iff] at hobject
  obtain ⟨u, hu, hobject⟩ := hobject
  cases u with
  | object gs => exact ⟨gs, hu⟩
  | _ => cases hobject

/-- Where something else than a list can stand, there is one on both sides or on none. -/
lemma Json.SameButList.itemsOrNull?_eq {keys : List String} {v w : Json} (path : Path)
    (key : String) {fs gs : Fields Json} (h : SameButList keys v w)
    (hpath : Path.Outside keys (path ++ [.key key])) (hv : path.lookup v = some (.object fs))
    (hw : path.lookup w = some (.object gs)) :
    ((gs.get? key).getD .null).itemsOrNull?.isSome =
      ((fs.get? key).getD .null).itemsOrNull?.isSome := by
  have hitems :=
    h.map_lookup (f := fun u => u.itemsOrNull?.isSome) (fun _ _ => rfl) (fun _ _ => rfl) hpath
  have hend : ∀ x : Option Json, x.bind (Path.lookup []) = x := fun x => by cases x <;> rfl
  rw [Path.lookup_append, Path.lookup_append, hv, hw, Option.bind_some, Option.bind_some,
    Path.lookup_cons, Path.lookup_cons, hend, hend, child?, child?] at hitems
  cases hfs : fs.get? key <;> cases hgs : gs.get? key <;> simp_all

lemma Marked.exists_object_at? {M : Marked} {path : Path} {fs : Fields Json}
    (h : path.lookup M.erase = some (.object fs)) : ∃ m fs, M.at? path = some (.object m fs) := by
  rw [lookup_erase, Option.map_eq_some_iff] at h
  obtain ⟨T, hT, h⟩ := h
  cases T with
  | object m fs => exact ⟨m, fs, hT⟩
  | array m xs => cases h
  | scalar m v =>
    exact absurd v.property (by rw [show v.val = .object fs from h]; simp [Json.shape])

/-- If the layers are listed where an object is, nothing can be added. -/
lemma Properties.inject_error (hlayers : schema.layersProperty = schema.codeProperty)
    {fs : Fields Json} {s : Json}
    (hcode : p.value.child? (.key schema.codeProperty) = some (.object fs))
    (hinjection : injection.2 = .single schema.codeProperty s) :
    ∃ e, p.inject schema function injection = .error e := by
  have hrule : schema.injectionRules.find? [.key schema.codeProperty] = some .append := by
    rw [← hlayers]
    exact Schema.find?_injectionRules_layersPath schema
  obtain ⟨gs, hgs⟩ := Json.exists_object_of_child? hcode
  rw [hgs] at hcode
  replace hcode : Fields.get? gs schema.codeProperty = some (.object fs) := hcode
  refine ⟨_, inject_of_error (e := .notAnArray [.key schema.codeProperty] .append) ?_⟩
  rw [hgs, hinjection, merge, mergeAt_single rfl, hcode, Option.getD_some, List.nil_append,
    mergeAt_of_rule hrule]
  rfl

lemma Properties.alike_inject {R : Properties → Properties → Prop}
    (herror : (merge schema.injectionRules p'.value injection'.2).error = none ↔
      (merge schema.injectionRules p.value injection.2).error = none)
    (h : ∀ next next', p.inject schema function injection = .ok next →
      p'.inject schema function injection' = .ok next' → R next next') :
    Alike R (p.inject schema function injection) (p'.inject schema function injection') := by
  cases hp : (merge schema.injectionRules p.value injection.2).error with
  | none =>
    obtain ⟨next, hnext⟩ := @inject_of_ok _ function _ _ hp
    obtain ⟨next', hnext'⟩ := @inject_of_ok _ function _ _ (herror.mpr hp)
    have hR := h next next' hnext hnext'
    rw [hnext, hnext']
    exact .ok hR
  | some e =>
    cases hp' : (merge schema.injectionRules p'.value injection'.2).error with
    | none => simp [herror.mp hp'] at hp
    | some e' =>
      rw [inject_of_error hp, inject_of_error hp']
      exact .error _ _

namespace Properties.SameButList

lemma exists_object_code (h : p.SameButList schema p') :
    (∃ fs, p.value.child? (.key schema.codeProperty) = some (.object fs)) ∧
      ∃ fs, p'.value.child? (.key schema.codeProperty) = some (.object fs) := by
  have hcode : ∀ {v : Json} {fs}, schema.functionCodePath.lookup v = some (.object fs) →
      ∃ gs, v.child? (.key schema.codeProperty) = some (.object gs) := by
    intro v fs hv
    obtain ⟨u, hu, hbelow⟩ := Option.bind_eq_some_iff.mp hv
    obtain ⟨w, hw, -⟩ := Option.bind_eq_some_iff.mp hbelow
    obtain ⟨gs, rfl⟩ := Json.exists_object_of_child? hw
    exact ⟨gs, hu⟩
  obtain ⟨fs, hfs⟩ := h.describesCode
  obtain ⟨gs, hgs⟩ := h.merged.value.exists_object_lookup
    (Path.outside_of_length_le (show _ ≤ 3 by simp [Schema.functionCodePath])) hfs
  exact ⟨hcode hfs, hcode hgs⟩

lemma inject_middleware (h : p.SameButList schema p')
    (hlayers : schema.codeProperty ≠ schema.layersProperty) (a b : ResourceId) :
    Alike (Properties.SameButList schema)
      (p.inject schema function (schema.middlewareInjection a))
      (p'.inject schema function (schema.middlewareInjection b)) := by
  obtain ⟨fs, hfs⟩ := h.describesCode
  obtain ⟨gs, hgs⟩ := h.merged.value.exists_object_lookup
    (Path.outside_of_length_le (show _ ≤ 3 by simp [Schema.functionCodePath])) hfs
  have hnone : ∀ q, q <+: [schema.codeProperty, schema.functionKeyword] →
      schema.injectionRules.find? (q.map .key) = none :=
    fun q hq => Schema.find?_injectionRules_of_prefix hlayers hq
  have happend := Schema.find?_injectionRules_middlewaresPath schema
  have hitem : ∀ id : ResourceId, (schema.middlewareInjection id).2.WellFormed := fun id =>
    Json.wellFormed_nest [_, _, _]
      (Json.wellFormed_array_iff.mpr (by simpa using id.wellFormed_toJson))
  refine alike_inject ?_ fun next next' hnext hnext' => ⟨?_, ?_⟩
  · have hitems := h.merged.value.itemsOrNull?_eq _ schema.middlewaresField
      (Path.outside_of_length_le (show _ ≤ 3 by simp [Schema.functionCodePath])) hfs hgs
    have herror := fun (v : Json) (fs : Fields Json) (id : ResourceId) hopen =>
      @error_mergeAt_nest schema.injectionRules [] v fs schema.middlewaresField
        [schema.codeProperty, schema.functionKeyword] [id.toJson] hopen hnone happend
    exact ((herror _ gs b hgs).trans (by rw [hitems])).trans (herror _ fs a hfs).symm
  · obtain ⟨M, N, hM, hN, htracks, htracks', hMN⟩ := h.merged
    obtain ⟨herase, htracks⟩ := inject_tracks (hitem a) hM htracks hnext
    obtain ⟨herase', htracks'⟩ := inject_tracks (hitem b) hN htracks' hnext'
    rw [← show M.erase = p.value from hM] at hfs
    obtain ⟨m, ts, hopen⟩ := Marked.exists_object_at? hfs
    exact ⟨_, _, herase, herase', htracks, htracks',
      hMN.mergeAt_nest [schema.codeProperty, schema.functionKeyword] hopen hnone happend a b⟩
  · -- the list is there now, so it stands in an object
    obtain ⟨hlookup, -⟩ := Properties.inject_nest [schema.codeProperty, schema.functionKeyword]
      schema.middlewaresField hfs hnone happend hnext
    obtain ⟨u, hu, hbelow⟩ :=
      Option.bind_eq_some_iff.mp ((Path.lookup_append _ _ _).symm.trans hlookup)
    obtain ⟨w, hw, -⟩ := Option.bind_eq_some_iff.mp hbelow
    obtain ⟨fs', rfl⟩ := Json.exists_object_of_child? hw
    exact ⟨fs', hu⟩

lemma inject_layer (h : p.SameButList schema p')
    (hlayers : schema.codeProperty ≠ schema.layersProperty) (id : ResourceId) :
    Alike (Properties.SameButList schema)
      (p.inject schema function (schema.layerInjection id))
      (p'.inject schema function (schema.layerInjection id)) := by
  obtain ⟨⟨_, hcode⟩, ⟨_, hcode'⟩⟩ := h.exists_object_code
  obtain ⟨fs, hfs⟩ := Json.exists_object_of_child? hcode
  obtain ⟨gs, hgs⟩ := Json.exists_object_of_child? hcode'
  have hnone := Schema.find?_injectionRules_of_prefix hlayers List.nil_prefix
  have happend := Schema.find?_injectionRules_layersPath schema
  have hitem : (schema.layerInjection id).2.WellFormed := Json.wellFormed_single _
    (Json.wellFormed_array_iff.mpr (by simpa using Json.wellFormed_single _ id.wellFormed_toJson))
  refine alike_inject ?_ fun next next' hnext hnext' => ⟨?_, ?_⟩
  · have hitems := h.merged.value.itemsOrNull?_eq [] schema.layersProperty
      (Path.outside_of_length_le (show _ ≤ 3 by simp)) (congrArg some hfs) (congrArg some hgs)
    have herror := fun (v : Json) (fs : Fields Json) (hopen : v = .object fs) =>
      @error_mergeAt_nest schema.injectionRules [] v fs schema.layersProperty []
        [.single schema.referenceKeyword id.toJson] (congrArg some hopen)
        (fun q hq => List.prefix_nil.mp hq ▸ hnone) happend
    exact ((herror _ gs hgs).trans (by rw [hitems])).trans (herror _ fs hfs).symm
  · obtain ⟨M, N, hM, hN, htracks, htracks', hMN⟩ := h.merged
    obtain ⟨herase, htracks⟩ := inject_tracks hitem hM htracks hnext
    obtain ⟨herase', htracks'⟩ := inject_tracks hitem hN htracks' hnext'
    exact ⟨_, _, herase, herase', htracks, htracks', hMN.mergeAt (.refl _ _)⟩
  · have hsame : Json.SameBut schema.layersProperty p.value next.value :=
      Properties.sameBut_inject hfs hnone hnext
    obtain ⟨ts, hts⟩ := h.describesCode
    exact ⟨ts, (hsame.lookup hlayers _).trans hts⟩

/-- Contributions that are the same but for the middlewares both fail, or they leave properties that
are the same but for the middlewares. -/
theorem inject (h : p.SameButList schema p')
    (hinjection : schema.SameContribution injection injection') :
    Alike (Properties.SameButList schema) (p.inject schema function injection)
      (p'.inject schema function injection') := by
  by_cases hlayers : schema.layersProperty = schema.codeProperty
  · obtain ⟨⟨fs, hfs⟩, ⟨gs, hgs⟩⟩ := h.exists_object_code
    have hsingle : (∃ s, injection.2 = .single schema.codeProperty s) ∧
        ∃ s, injection'.2 = .single schema.codeProperty s := by
      rcases hinjection with ⟨a, b, rfl, rfl⟩ | ⟨a, rfl, rfl⟩
      · exact ⟨⟨_, rfl⟩, ⟨_, rfl⟩⟩
      · rw [← hlayers]
        exact ⟨⟨_, rfl⟩, ⟨_, rfl⟩⟩
    obtain ⟨⟨s, hs⟩, ⟨s', hs'⟩⟩ := hsingle
    obtain ⟨e, he⟩ : ∃ e, p.inject schema function injection = .error e :=
      inject_error hlayers hfs hs
    obtain ⟨e', he'⟩ : ∃ e, p'.inject schema function injection' = .error e :=
      inject_error hlayers hgs hs'
    rw [he, he']
    exact .error e e'
  · rcases hinjection with ⟨a, b, rfl, rfl⟩ | ⟨a, rfl, rfl⟩
    · exact h.inject_middleware (Ne.symm hlayers) a b
    · exact h.inject_layer (Ne.symm hlayers) a

lemma foldlM_inject {injections injections' : List Injection} (h : p.SameButList schema p')
    (hinjections : List.Forall₂ schema.SameContribution injections injections') :
    Alike (Properties.SameButList schema) (injections.foldlM (Properties.inject schema function) p)
      (injections'.foldlM (Properties.inject schema function) p') := by
  induction hinjections generalizing p p' with
  | nil => exact .ok h
  | cons hinjection _ ih =>
    rw [List.foldlM_cons, List.foldlM_cons]
    exact (h.inject hinjection).bind fun _ _ _ _ hnext => ih hnext

end Properties.SameButList

end Inject

end ModularTemplates
