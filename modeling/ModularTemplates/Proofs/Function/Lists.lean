import Mathlib.Tactic.Lemma
import ModularTemplates.Proofs.Assignment
import ModularTemplates.Proofs.Function.Qualified
import ModularTemplates.Proofs.Merge.WellFormed

/-!
# The lists of a function

Middlewares and layers are added at the end of their lists, and repeated ones are dropped in place.
Neither touches the other list or the other properties.
-/

namespace ModularTemplates

variable {v v' u w : Json} {key other : String} {p : Path} {schema : Schema}

/-! ### Items -/

lemma Json.itemsAt_of_lookup {v : Json} {path : Path} {xs : List Json}
    (h : path.lookup v = some (.array xs)) : v.itemsAt path = xs := by
  rw [itemsAt, h]
  rfl

/-- What can be added to has the items that are read from it. -/
lemma Json.items_of_itemsOrNull? {x : Option Json} {xs : List Json}
    (h : (x.getD .null).itemsOrNull? = some xs) : (x.bind asArray?).getD [] = xs := by
  cases x with
  | none =>
    cases h
    rfl
  | some v =>
    rw [Option.getD_some] at h
    cases v <;> cases h <;> rfl

lemma Json.lookup_of_itemsAt {v x : Json} {p : Path} {i : Nat} (h : (v.itemsAt p)[i]? = some x) :
    Path.lookup (p ++ [.index i]) v = some x := by
  rw [Path.lookup_append]
  unfold itemsAt at h
  cases hlookup : p.lookup v with
  | none => simp [hlookup] at h
  | some w => cases w <;> simp_all [Json.asArray?, Json.child?]

/-! ### A change under one key -/

/-- The same value, up to what it has under a key. -/
def Json.SameBut (key : String) (v v' : Json) : Prop :=
  v' = v ∨ ∃ fs w, v = .object fs ∧ v' = .object (Fields.set fs key w)

namespace Json.SameBut

lemma exists_object (h : SameBut key v v') (hv : ∃ fs, v = .object fs) :
    ∃ fs, v' = .object fs := by
  rcases h with rfl | ⟨fs, w, -, rfl⟩
  · exact hv
  · exact ⟨_, rfl⟩

lemma lookup (h : SameBut key v v') (hother : other ≠ key) (p : Path) :
    Path.lookup (.key other :: p) v' = Path.lookup (.key other :: p) v := by
  rcases h with rfl | ⟨fs, w, rfl, rfl⟩
  · rfl
  · simp only [Path.lookup_cons, child?, Fields.get?_set_of_ne hother]

lemma itemsAt (h : SameBut key v v') (hother : other ≠ key) (p : Path) :
    v'.itemsAt (.key other :: p) = v.itemsAt (.key other :: p) := by
  rw [Json.itemsAt, Json.itemsAt, h.lookup hother]

lemma others (h : SameBut key v v') (hkey : schema.isOther key = false) :
    schema.others v' = schema.others v := by
  rcases h with rfl | ⟨fs, w, rfl, rfl⟩
  · rfl
  · rw [Schema.others, Schema.others, Fields.only_set_of_false hkey]

end Json.SameBut

lemma Schema.isOther_codeProperty (schema : Schema) :
    schema.isOther schema.codeProperty = false := by
  simp [isOther]

lemma Schema.isOther_layersProperty (schema : Schema) :
    schema.isOther schema.layersProperty = false := by
  simp [isOther]

/-! ### Changing the value at a path -/

lemma Json.sameBut_replaceChild (v : Json) (key : String) (w : Json) :
    SameBut key v (v.replaceChild (.key key) w) := by
  cases v with
  | object fs => exact .inr ⟨fs, w, rfl, rfl⟩
  | _ => exact .inl rfl

lemma Path.sameBut_modify? {f : Json → Json} (h : Path.modify? f (.key key :: p) v = some v') :
    Json.SameBut key v v' := by
  obtain ⟨below, -, h⟩ := Option.bind_eq_some_iff.mp h
  obtain ⟨changed, -, h⟩ := Option.bind_eq_some_iff.mp h
  cases h
  exact Json.sameBut_replaceChild v key changed

/-! ### Dropping repeated items -/

/-- The items without those that are the same as an earlier one. -/
def Json.firstOfSame (xs : List Json) : List Json :=
  xs.eraseDupsBy fun x kept => kept.same x

theorem Json.distinctItems_eq_firstOfSame (xs : List Json) : distinctItems xs = firstOfSame xs := by
  have hloop : ∀ xs kept,
    xs.foldl (fun kept x => if kept.any (same · x) then kept else kept ++ [x]) kept =
      List.eraseDupsBy.loop (fun x kept => kept.same x) xs kept.reverse := by
    intro xs
    induction xs with
    | nil =>
      intro kept
      rw [List.foldl_nil, List.eraseDupsBy.loop, List.reverse_reverse]
    | cons x xs ih =>
      intro kept
      rw [List.foldl_cons, List.eraseDupsBy.loop, List.any_reverse]
      cases hany : kept.any fun y => y.same x with
      | true => simpa using ih kept
      | false => simpa using ih (kept ++ [x])
  exact hloop xs []

lemma Json.itemsAt_dropRepeatedAt (p : Path) (v : Json) :
    (v.dropRepeatedAt p).itemsAt p = distinctItems (v.itemsAt p) := by
  rw [itemsAt, itemsAt, dropRepeatedAt, Path.lookup_getD_modify?]
  cases p.lookup v with
  | none => rfl
  | some w => cases w <;> rfl

lemma Json.sameBut_dropRepeatedAt (key : String) (p : Path) (v : Json) :
    SameBut key v (v.dropRepeatedAt (.key key :: p)) := by
  unfold dropRepeatedAt
  cases hmodify : Path.modify? _ (.key key :: p) v with
  | none => exact .inl rfl
  | some v' => exact Path.sameBut_modify? hmodify

/-! ### Adding to the lists -/

/-- The same properties with more middlewares and layers at the end. -/
structure Schema.Adds (schema : Schema) (middlewares layers : List Json) (v v' : Json) : Prop where
  middlewares : v'.itemsAt schema.middlewaresPath = v.itemsAt schema.middlewaresPath ++ middlewares
  layers : v'.itemsAt schema.layersPath = v.itemsAt schema.layersPath ++ layers
  others : schema.others v' = schema.others v

namespace Schema.Adds

variable {middlewares middlewares' layers layers' : List Json}

lemma refl (schema : Schema) (v : Json) : schema.Adds [] [] v v :=
  ⟨(List.append_nil _).symm, (List.append_nil _).symm, rfl⟩

lemma trans (h : schema.Adds middlewares layers v w) (h' : schema.Adds middlewares' layers' w v') :
    schema.Adds (middlewares ++ middlewares') (layers ++ layers') v v' := by
  constructor
  · rw [h'.middlewares, h.middlewares, List.append_assoc]
  · rw [h'.layers, h.layers, List.append_assoc]
  · rw [h'.others, h.others]

end Schema.Adds

/-! ### Adding to qualified properties -/

section Others

variable {seg : Segment}

lemma Schema.child?_of_child?_others (h : (schema.others v).child? seg = some w) :
    v.child? seg = some w := by
  cases v with
  | object fs =>
    cases seg with
    | key k => exact Fields.get?_of_get?_only h
    | index i => cases h
  | _ => exact h

lemma Schema.wellFormed_others (h : v.WellFormed) : (schema.others v).WellFormed := by
  cases v with
  | object fs =>
    refine Json.wellFormed_object_iff.mpr ⟨h.distinct.only _, fun key w hw => ?_⟩
    exact h.get? (Fields.get?_of_get?_only hw)
  | _ => exact h

lemma Qualifier.Agree.others {q q' : Qualifier} {path : Path} (h : q.Agree q' path v) :
    q.Agree q' path (schema.others v) := by
  refine ⟨h.schema, fun p hp => h.moduleAt p ?_⟩
  cases p with
  | nil => simp
  | cons seg p =>
    obtain ⟨u, hu⟩ := Option.ne_none_iff_exists'.mp hp
    obtain ⟨w, hw, hu⟩ := Option.bind_eq_some_iff.mp hu
    rw [Path.lookup_cons, Schema.child?_of_child?_others hw, Option.bind_some, hu]
    simp

end Others

lemma mapIdx_append_of_fixed {α : Type} {f g : Nat → α → α} {xs ys : List α}
    (hxs : ∀ (i : Nat) x, xs[i]? = some x → f i x = g i x)
    (hys : ∀ y ∈ ys, ∀ i, f i y = y) :
    (xs ++ ys).mapIdx f = xs.mapIdx g ++ ys := by
  rw [List.mapIdx_append]
  congr 1
  · rw [List.mapIdx_eq_mapIdx_iff]
    exact fun i hi => hxs i _ (List.getElem?_eq_getElem hi)
  · refine List.ext_getElem? fun i => ?_
    rw [List.getElem?_mapIdx]
    cases hi : ys[i]? with
    | none => rfl
    | some y => rw [Option.map_some, hys y (List.mem_of_getElem? hi)]

/-- What is added to properties is added to the qualified ones, if the owners stay and it needs no
qualification itself. -/
lemma Qualifier.adds_value {q q' : Qualifier} {v v' : Json} {middlewares layers : List Json}
    (hschema : q.schema.DistinctNames) (hv : v.WellFormed) (hagree : q.Agree q' [] v)
    (h : q.schema.Adds middlewares layers v v')
    (hmiddlewares : ∀ x ∈ middlewares, ∀ path i, q'.entry path i x = x)
    (hlayers : ∀ x ∈ layers, ∀ path, q'.value path x = x) :
    q.schema.Adds middlewares layers (q.value [] v) (q'.value [] v') := by
  have hnames := hschema.reference_ne_function
  have hschema' : q'.schema.DistinctNames := hagree.schema ▸ hschema
  have hitem : ∀ {path : Path} {i : Nat} {x}, (v.itemsAt path)[i]? = some x →
      x.WellFormed ∧ q.Agree q' (path ++ [.index i]) x := fun hx =>
    ⟨hv.lookup (Json.lookup_of_itemsAt hx), hagree.lookup (Json.lookup_of_itemsAt hx)⟩
  constructor
  · rw [itemsAt_middlewaresPath hschema, ← hagree.schema, itemsAt_middlewaresPath hschema',
      hagree.schema, h.middlewares]
    refine mapIdx_append_of_fixed (fun i x hx => ?_) fun x hx i => hmiddlewares x hx _ i
    obtain ⟨hwell, hagree⟩ := hitem hx
    exact entry_congr hnames hwell hagree
  · rw [itemsAt_layersPath hschema, ← hagree.schema, itemsAt_layersPath hschema', hagree.schema,
      h.layers]
    refine mapIdx_append_of_fixed (fun i x hx => ?_) fun x hx i => hlayers x hx _
    obtain ⟨hwell, hagree⟩ := hitem hx
    exact value_congr hnames hwell hagree
  · rw [others_value hschema, ← hagree.schema, others_value hschema', hagree.schema, h.others]
    exact value_congr hnames (Schema.wellFormed_others hv) hagree.others

end ModularTemplates
