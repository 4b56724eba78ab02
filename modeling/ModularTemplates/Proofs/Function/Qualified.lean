import Mathlib.Tactic.Lemma
import ModularTemplates.Function.Composition
import ModularTemplates.Proofs.Provenance.Agreement
import ModularTemplates.Proofs.Qualification

/-!
# Qualified properties of functions

What a function is composed from is found at two places of its properties, the middlewares inside
its code and the layers. Qualifying the properties qualifies what is there entry by entry, and the
other properties on their own. All that counts is who owns the places that exist.
-/

namespace ModularTemplates

/-- The items of the array at a path; there are none unless there is an array. -/
def Json.itemsAt (path : Path) (v : Json) : List Json :=
  ((path.lookup v).bind Json.asArray?).getD []

/-- Whether a property is neither the code nor the layers. -/
def Schema.isOther (schema : Schema) (key : String) : Bool :=
  key != schema.codeProperty && key != schema.layersProperty

/-- The properties of a function apart from its code and its layers. -/
def Schema.others (schema : Schema) (properties : Json) : Json :=
  match properties with
  | .object fs => .object (Fields.only schema.isOther fs)
  | other => other

/-- The property and keyword names of the schema are pairwise distinct. -/
def Schema.DistinctNames (schema : Schema) : Prop :=
  [schema.codeProperty, schema.functionKeyword, schema.middlewareKeyword, schema.middlewaresField,
    schema.layersProperty, schema.referenceKeyword].Nodup

instance (schema : Schema) : Decidable schema.DistinctNames :=
  inferInstanceAs (Decidable (List.Nodup _))

namespace Schema.DistinctNames

variable {schema : Schema} (h : schema.DistinctNames)

include h

lemma code_ne_layers : schema.codeProperty ≠ schema.layersProperty := by
  simp_all [DistinctNames]

lemma code_ne_function : schema.codeProperty ≠ schema.functionKeyword := by
  simp_all [DistinctNames]

lemma code_ne_reference : schema.codeProperty ≠ schema.referenceKeyword := by
  simp_all [DistinctNames]

lemma layers_ne_function : schema.layersProperty ≠ schema.functionKeyword := by
  simp_all [DistinctNames, eq_comm]

lemma layers_ne_reference : schema.layersProperty ≠ schema.referenceKeyword := by
  simp_all [DistinctNames]

lemma field_ne_function : schema.middlewaresField ≠ schema.functionKeyword := by
  simp_all [DistinctNames, eq_comm]

lemma field_ne_reference : schema.middlewaresField ≠ schema.referenceKeyword := by
  simp_all [DistinctNames]

lemma reference_ne_function : schema.referenceKeyword ≠ schema.functionKeyword := by
  simp_all [DistinctNames, eq_comm]

end Schema.DistinctNames

namespace Qualifier

variable {q q' : Qualifier} {path : Path} {v w : Json} {key : String}

/-! ### Owners that count -/

/-- Two qualifiers of one schema see the same modules in a value that stands at a path. -/
structure Agree (q q' : Qualifier) (path : Path) (v : Json) : Prop where
  schema : q'.schema = q.schema
  moduleAt : ∀ p, p.lookup v ≠ none → q'.moduleAt (path ++ p) = q.moduleAt (path ++ p)

lemma Agree.child (h : q.Agree q' path v) {seg : Segment} (hw : v.child? seg = some w) :
    q.Agree q' (path ++ [seg]) w := by
  refine ⟨h.schema, fun p hp => ?_⟩
  have hmodule := h.moduleAt (seg :: p) (by rwa [Path.lookup_cons, hw, Option.bind_some])
  rwa [← List.append_cons]

lemma Agree.moduleAt_self (h : q.Agree q' path v) : q'.moduleAt path = q.moduleAt path := by
  have hmodule := h.moduleAt [] (by simp)
  rwa [List.append_nil] at hmodule

lemma Agree.lookup (h : q.Agree q' path v) (hw : p.lookup v = some w) :
    q.Agree q' (path ++ p) w := by
  induction p generalizing path v with
  | nil =>
    cases hw
    rwa [List.append_nil]
  | cons seg p ih =>
    obtain ⟨u, hu, hw⟩ := Option.bind_eq_some_iff.mp hw
    rw [List.append_cons]
    exact ih (h.child hu) hw

lemma address_congr (h : q'.moduleAt path = q.moduleAt path) (w : Json) :
    q'.address path w = q.address path w := by
  unfold address
  rw [h]

/-- The objects around a value add no items to it. -/
lemma Outer.child?_index_eq_none {g : Json → Json} (hg : Outer q g) {i : Nat}
    (h : v.child? (.index i) = none) : (g v).child? (.index i) = none := by
  induction hg generalizing v with
  | id => exact h
  | address path =>
    cases v with
    | object fs =>
      rw [Qualifier.address]
      split <;> rfl
    | _ => exact h
  | entries path =>
    cases v with
    | array xs =>
      simp only [Json.child?] at h
      simp [Qualifier.entries, Json.child?, h]
    | _ => exact h
  | middlewares path =>
    cases v with
    | object fs => rfl
    | _ => exact h
  | comp _ _ ihf ihg => exact ihf (ihg h)

/-- Qualifying adds no items below a field. -/
lemma lookup_item_value_eq_none {i : Nat} (h : Path.lookup [.key key, .index i] v = none) :
    Path.lookup [.key key, .index i] (q.value path v) = none := by
  cases hv : v.child? (.key key) with
  | none => rw [Path.lookup_cons, child?_value_eq_none hv, Option.bind_none]
  | some u =>
    obtain ⟨g, hg, hchild, -⟩ := @child?_value q path _ _ _ hv
    have hitem : u.child? (.index i) = none := by
      rw [Path.lookup_cons, hv, Option.bind_some, Path.lookup_cons] at h
      cases hi : u.child? (.index i) with
      | none => rfl
      | some x => simp [hi] at h
    rw [Path.lookup_cons, hchild, Option.bind_some, Path.lookup_cons,
      hg.child?_index_eq_none (child?_value_eq_none hitem), Option.bind_none]

lemma entries_congr (h : ∀ i, v.child? (.index i) ≠ none →
      q'.moduleAt (path ++ [.index i]) = q.moduleAt (path ++ [.index i])) :
    q'.entries path v = q.entries path v := by
  cases v with
  | array xs =>
    rw [entries, entries, Json.array.injEq, List.mapIdx_eq_mapIdx_iff]
    exact fun i hi => address_congr (h i (by simp [Json.child?, hi])) _
  | _ => rfl

lemma onField_congr {fs : Fields Json} {f g : Json → Json}
    (h : ∀ u, fs.get? key = some u → f u = g u) :
    onField fs key f = onField fs key g := by
  unfold onField
  cases hkey : fs.get? key with
  | none => rfl
  | some u => simp only [h u hkey]

lemma middlewares_congr (hschema : q'.schema = q.schema)
    (h : ∀ i, Path.lookup [.key q.schema.middlewaresField, .index i] v ≠ none →
      q'.moduleAt (path ++ [.key q.schema.middlewaresField, .index i]) =
        q.moduleAt (path ++ [.key q.schema.middlewaresField, .index i])) :
    q'.middlewares path v = q.middlewares path v := by
  cases v with
  | object fs =>
    rw [middlewares, middlewares, hschema]
    refine congrArg Json.object (onField_congr fun u hu => entries_congr fun i hi => ?_)
    rw [List.append_assoc]
    refine h i ?_
    obtain ⟨x, hx⟩ := Option.ne_none_iff_exists'.mp hi
    have hchild : (Json.object fs).child? (.key q.schema.middlewaresField) = some u := hu
    simp [hchild, hx]
  | _ => rfl

lemma object_congr (hnames : q.schema.referenceKeyword ≠ q.schema.functionKeyword)
    {fs : Fields Json} (h : q.Agree q' path (.object fs)) :
    q'.object path (q.fields path fs) = q.object path (q.fields path fs) := by
  unfold object
  rw [h.schema, funext (address_congr h.moduleAt_self)]
  refine onField_congr fun u hu => middlewares_congr h.schema fun i hi => ?_
  rw [get?_onField, if_neg hnames.symm, get?_fields, Option.map_eq_some_iff] at hu
  obtain ⟨w, hw, rfl⟩ := hu
  have hmodule :=
    h.moduleAt [.key q.schema.functionKeyword, .key q.schema.middlewaresField, .index i]
  rw [List.append_assoc]
  refine hmodule fun hnone => hi (lookup_item_value_eq_none ?_)
  have hchild : (Json.object fs).child? (.key q.schema.functionKeyword) = some w := hw
  rwa [Path.lookup_cons, hchild, Option.bind_some] at hnone

mutual
/-- What counts for a value are the owners of the places in it. -/
lemma value_congr (hnames : q.schema.referenceKeyword ≠ q.schema.functionKeyword) {path : Path}
    {v : Json} (hv : v.WellFormed) (h : q.Agree q' path v) : q'.value path v = q.value path v := by
  match v with
  | .object fs =>
    have hfields : q'.fields path fs = q.fields path fs :=
      fields_congr hnames fun k w hmem => by
        have hw : (Json.object fs).child? (.key k) = some w := hv.distinct.get?_of_mem hmem
        exact ⟨hv.child? hw, h.child hw⟩
    rw [value, value, hfields, object_congr hnames h]
  | .array xs =>
    rw [value, value, items_congr hnames fun i x hx => ?_]
    have hchild : (Json.array xs).child? (.index i) = some x := hx
    rw [Nat.zero_add]
    exact ⟨hv.child? hchild, h.child hchild⟩
  | .null | .bool _ | .number _ | .string _ =>
    rw [value, value]
    all_goals simp

lemma fields_congr (hnames : q.schema.referenceKeyword ≠ q.schema.functionKeyword) {path : Path}
    {fs : List (String × Json)}
    (h : ∀ k w, (k, w) ∈ fs → w.WellFormed ∧ q.Agree q' (path ++ [.key k]) w) :
    q'.fields path fs = q.fields path fs := by
  match fs with
  | [] => rfl
  | (k, w) :: fs =>
    obtain ⟨hw, hagree⟩ := h k w List.mem_cons_self
    rw [fields, fields, value_congr hnames hw hagree,
      fields_congr hnames fun k w hmem => h k w (List.mem_cons_of_mem _ hmem)]

lemma items_congr (hnames : q.schema.referenceKeyword ≠ q.schema.functionKeyword) {path : Path}
    {i : Nat} {xs : List Json}
    (h : ∀ (j : Nat) x, xs[j]? = some x →
      x.WellFormed ∧ q.Agree q' (path ++ [.index (i + j)]) x) :
    q'.items path i xs = q.items path i xs := by
  match xs with
  | [] => rfl
  | x :: xs =>
    obtain ⟨hx, hagree⟩ := h 0 x rfl
    rw [Nat.add_zero] at hagree
    rw [items, items, value_congr hnames hx hagree, items_congr hnames fun j x hx => ?_]
    rw [Nat.add_assoc, Nat.add_comm 1 j]
    exact h (j + 1) x hx
end

/-! ### Views of qualified properties -/

lemma child?_value_key (hreference : key ≠ q.schema.referenceKeyword)
    (hfunction : key ≠ q.schema.functionKeyword) :
    (q.value path v).child? (.key key) =
      (v.child? (.key key)).map (q.value (path ++ [.key key])) := by
  cases v with
  | object fs =>
    simp only [value, object, Json.child?, get?_onField, if_neg hreference, if_neg hfunction,
      get?_fields]
  | _ => rfl

lemma child?_value_function (hnames : q.schema.referenceKeyword ≠ q.schema.functionKeyword) :
    (q.value path v).child? (.key q.schema.functionKeyword) =
      (v.child? (.key q.schema.functionKeyword)).map fun w =>
        q.middlewares (path ++ [.key q.schema.functionKeyword])
          (q.value (path ++ [.key q.schema.functionKeyword]) w) := by
  cases v with
  | object fs =>
    simp only [value, object, Json.child?, get?_onField, if_pos, if_neg hnames.symm, get?_fields,
      Option.map_map, Function.comp_def]
  | _ => rfl

lemma child?_middlewares :
    (q.middlewares path v).child? (.key q.schema.middlewaresField) =
      (v.child? (.key q.schema.middlewaresField)).map
        (q.entries (path ++ [.key q.schema.middlewaresField])) := by
  cases v with
  | object fs => simp only [middlewares, Json.child?, get?_onField, if_pos]
  | _ => rfl

/-- The entry at an index of a list of addresses, qualified. -/
def entry (q : Qualifier) (path : Path) (i : Nat) (x : Json) : Json :=
  q.address (path ++ [.index i]) (q.value (path ++ [.index i]) x)

lemma entry_congr (hnames : q.schema.referenceKeyword ≠ q.schema.functionKeyword) {i : Nat}
    (hv : v.WellFormed) (h : q.Agree q' (path ++ [.index i]) v) :
    q'.entry path i v = q.entry path i v := by
  rw [entry, entry, value_congr hnames hv h, address_congr h.moduleAt_self]

lemma items_eq_mapIdx (path : Path) (xs : List Json) :
    q.items path 0 xs = xs.mapIdx fun i x => q.value (path ++ [.index i]) x := by
  refine List.ext_getElem? fun i => ?_
  rw [getElem?_items, List.getElem?_mapIdx, Nat.zero_add]

lemma lookup_middlewaresPath (hschema : q.schema.DistinctNames) :
    q.schema.middlewaresPath.lookup (q.value [] v) =
      (q.schema.middlewaresPath.lookup v).map fun w =>
        q.entries q.schema.middlewaresPath (q.value q.schema.middlewaresPath w) := by
  simp only [Schema.middlewaresPath, Schema.functionCodePath, List.cons_append, List.nil_append,
    Path.lookup_cons]
  rw [child?_value_key hschema.code_ne_reference hschema.code_ne_function]
  cases v.child? (.key q.schema.codeProperty) with
  | none => rfl
  | some code =>
    rw [Option.map_some, Option.bind_some, Option.bind_some, Path.lookup_cons, Path.lookup_cons,
      child?_value_function hschema.reference_ne_function]
    cases code.child? (.key q.schema.functionKeyword) with
    | none => rfl
    | some function =>
      rw [Option.map_some, Option.bind_some, Option.bind_some, Path.lookup_cons, Path.lookup_cons,
        child?_middlewares, child?_value_key hschema.field_ne_reference hschema.field_ne_function]
      cases function.child? (.key q.schema.middlewaresField) with
      | none => rfl
      | some w => rfl

/-- The middlewares of qualified properties are the qualified entries. -/
theorem itemsAt_middlewaresPath (hschema : q.schema.DistinctNames) :
    (q.value [] v).itemsAt q.schema.middlewaresPath =
      (v.itemsAt q.schema.middlewaresPath).mapIdx (q.entry q.schema.middlewaresPath) := by
  rw [Json.itemsAt, Json.itemsAt, lookup_middlewaresPath hschema]
  cases q.schema.middlewaresPath.lookup v with
  | none => rfl
  | some w =>
    cases w with
    | array xs =>
      rw [Option.map_some, value, items_eq_mapIdx, entries, List.mapIdx_mapIdx]
      rfl
    | _ => rfl

/-- The layers of qualified properties are the qualified layers. -/
theorem itemsAt_layersPath (hschema : q.schema.DistinctNames) :
    (q.value [] v).itemsAt q.schema.layersPath =
      (v.itemsAt q.schema.layersPath).mapIdx fun i x =>
        q.value (q.schema.layersPath ++ [.index i]) x := by
  simp only [Json.itemsAt, Schema.layersPath, Path.lookup_cons]
  rw [child?_value_key hschema.layers_ne_reference hschema.layers_ne_function]
  cases v.child? (.key q.schema.layersProperty) with
  | none => rfl
  | some w =>
    cases w with
    | array xs =>
      rw [Option.map_some, Option.bind_some, value, items_eq_mapIdx]
      rfl
    | _ => rfl

lemma only_onField {fs : Fields Json} {p : String → Bool} (hkey : p key = true)
    (f : Json → Json) :
    (onField fs key f).only p = onField (fs.only p) key f := by
  unfold onField
  rw [Fields.get?_only hkey]
  cases fs.get? key with
  | none => rfl
  | some v => exact Fields.only_set_of_true hkey _

lemma only_fields (p : String → Bool) (path : Path) (fs : List (String × Json)) :
    Fields.only p (q.fields path fs) = q.fields path (Fields.only p fs) := by
  induction fs with
  | nil => rfl
  | cons field fs ih =>
    obtain ⟨k, v⟩ := field
    rw [fields, Fields.only_cons, Fields.only_cons, ih]
    split_ifs
    · rw [fields]
    · rfl

lemma keys_onField (fs : Fields Json) (key : String) (f : Json → Json) :
    (onField fs key f).keys = fs.keys := by
  unfold onField
  cases hkey : fs.get? key with
  | none => rfl
  | some v => exact Fields.keys_set_of_mem (Fields.mem_keys_of_get? hkey) _

lemma keys_fields (path : Path) (fs : List (String × Json)) :
    Fields.keys (q.fields path fs) = Fields.keys fs := by
  induction fs with
  | nil => rfl
  | cons field fs ih => rw [fields, Fields.keys_cons, Fields.keys_cons, ih]

lemma keys_object_fields (path : Path) (fs : List (String × Json)) :
    Fields.keys (q.object path (q.fields path fs)) = Fields.keys fs := by
  rw [object, keys_onField, keys_onField, keys_fields]

/-- The other properties are qualified on their own. -/
theorem others_value (hschema : q.schema.DistinctNames) :
    q.schema.others (q.value path v) = q.value path (q.schema.others v) := by
  have hreference : q.schema.isOther q.schema.referenceKeyword = true := by
    simp [Schema.isOther, hschema.code_ne_reference.symm, hschema.layers_ne_reference.symm]
  have hfunction : q.schema.isOther q.schema.functionKeyword = true := by
    simp [Schema.isOther, hschema.code_ne_function.symm, hschema.layers_ne_function.symm]
  cases v with
  | object fs =>
    rw [value, Schema.others, Schema.others, value, object, only_onField hfunction,
      only_onField hreference, only_fields, object]
  | _ => rfl

end Qualifier

end ModularTemplates
