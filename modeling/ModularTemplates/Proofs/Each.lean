import Mathlib.Tactic.Lemma
import ModularTemplates.Proofs.Json

/-!
# Statements about all values of a document

A statement about a place and the value that stands there can be made for every value inside a
document. It holds of a value if it holds at its place and in all parts. Moved to another place, a
value keeps what the statement says of it if the statement does not tell the two places apart.
-/

namespace ModularTemplates

namespace Json

mutual
/-- What is said about places and values holds throughout a value that stands at a path. -/
def Each (good : Path → Json → Prop) (path : Path) : Json → Prop
  | .object fs => good path (.object fs) ∧ EachField good path fs
  | .array xs => good path (.array xs) ∧ EachItem good path 0 xs
  | v => good path v

/-- It holds throughout the values of the fields. -/
def EachField (good : Path → Json → Prop) (path : Path) : List (String × Json) → Prop
  | [] => True
  | (k, v) :: fs => Each good (path ++ [.key k]) v ∧ EachField good path fs

/-- It holds throughout the items from an index on. -/
def EachItem (good : Path → Json → Prop) (path : Path) : Nat → List Json → Prop
  | _, [] => True
  | i, x :: xs => Each good (path ++ [.index i]) x ∧ EachItem good path (i + 1) xs
end

/-- What is said about places and objects holds of all objects inside a value that
stands at a path. -/
def EachObject (good : Path → Fields Json → Prop) (path : Path) (v : Json) : Prop :=
  v.Each (fun path w => ∀ fs, w = .object fs → good path fs) path

variable {good good' : Path → Json → Prop} {path path' : Path} {v w : Json} {fs : Fields Json}
  {xs : List Json}

/-! ### Parts -/

/-- What is said of items and their indices is said of the first one and of those behind it. -/
lemma forall_items_cons_iff {P : Nat → Json → Prop} {i : Nat} {x : Json} :
    (∀ j (y : Json), (x :: xs)[j]? = some y → P (i + j) y) ↔
      P i x ∧ ∀ j (y : Json), xs[j]? = some y → P (i + 1 + j) y := by
  constructor
  · intro h
    refine ⟨h 0 x rfl, fun j y hy => ?_⟩
    rw [show i + 1 + j = i + (j + 1) by omega]
    exact h (j + 1) y hy
  · rintro ⟨hx, hxs⟩ j y hy
    cases j with
    | zero =>
      cases hy
      exact hx
    | succ j =>
      rw [show i + (j + 1) = i + 1 + j by omega]
      exact hxs j y hy

lemma eachField_iff :
    EachField good path fs ↔ ∀ field ∈ fs, field.2.Each good (path ++ [.key field.1]) := by
  induction fs with
  | nil => simp [EachField]
  | cons field fs ih => simp [EachField, ih]

lemma eachItem_iff {i : Nat} : EachItem good path i xs ↔
    ∀ j (x : Json), xs[j]? = some x → x.Each good (path ++ [.index (i + j)]) := by
  induction xs generalizing i with
  | nil => simp [EachItem]
  | cons x xs ih =>
    rw [EachItem, ih]
    exact (forall_items_cons_iff (P := fun i x => x.Each good (path ++ [.index i]))).symm

lemma each_object_iff : (object fs).Each good path ↔
    good path (.object fs) ∧ ∀ field ∈ fs, field.2.Each good (path ++ [.key field.1]) := by
  rw [Each, eachField_iff]

lemma each_array_iff : (array xs).Each good path ↔
    good path (.array xs) ∧ ∀ i (x : Json), xs[i]? = some x →
      x.Each good (path ++ [.index i]) := by
  rw [Each, eachItem_iff]
  simp only [Nat.zero_add]

lemma Each.here (h : v.Each good path) : good path v := by
  cases v with
  | object fs => exact (each_object_iff.mp h).1
  | array xs => exact (each_array_iff.mp h).1
  | _ => simpa [Each] using h

lemma Each.child? (h : v.Each good path) {seg : Segment} (hw : v.child? seg = some w) :
    w.Each good (path ++ [seg]) := by
  rcases exists_of_child? hw with ⟨fs, k, rfl, rfl, hk⟩ | ⟨xs, i, rfl, rfl, hi⟩
  · exact (each_object_iff.mp h).2 (k, w) (Fields.mem_of_get? hk)
  · exact (each_array_iff.mp h).2 i w hi

lemma Each.field? (h : v.Each good path) {key : String} (hw : v.field? key = some w) :
    w.Each good (path ++ [.key key]) :=
  h.child? ((child?_key v key).trans hw)

/-! ### From the outside in -/

/-- What is said of a value passes on to its parts. -/
structure Inherits (good good' : Path → Json → Prop) : Prop where
  fields : ∀ path fs, good path (.object fs) → good' path (.object fs) →
    ∀ field ∈ fs, good' (path ++ [.key field.1]) field.2
  items : ∀ path xs, good path (.array xs) → good' path (.array xs) →
    ∀ i (x : Json), xs[i]? = some x → good' (path ++ [.index i]) x

mutual
/-- What holds of a value and passes on to parts holds throughout. -/
lemma Each.inherit (hgood : Inherits good good') {path : Path} {v : Json} (h : v.Each good path)
    (here : good' path v) : v.Each good' path := by
  match v with
  | .object fs =>
    rw [Each] at h ⊢
    exact ⟨here, EachField.inherit hgood h.2 (hgood.fields path fs h.1 here)⟩
  | .array xs =>
    rw [Each] at h ⊢
    refine ⟨here, EachItem.inherit hgood h.2 fun i x hx => ?_⟩
    rw [Nat.zero_add]
    exact hgood.items path xs h.1 here i x hx
  | .null | .bool _ | .number _ | .string _ => simpa [Each] using here

lemma EachField.inherit (hgood : Inherits good good') {path : Path} {fs : List (String × Json)}
    (h : EachField good path fs) (here : ∀ field ∈ fs, good' (path ++ [.key field.1]) field.2) :
    EachField good' path fs := by
  match fs with
  | [] => trivial
  | (k, v) :: fs =>
    rw [EachField] at h ⊢
    rw [List.forall_mem_cons] at here
    exact ⟨Each.inherit hgood h.1 here.1, EachField.inherit hgood h.2 here.2⟩

lemma EachItem.inherit (hgood : Inherits good good') {path : Path} {i : Nat} {xs : List Json}
    (h : EachItem good path i xs)
    (here : ∀ j (x : Json), xs[j]? = some x → good' (path ++ [.index (i + j)]) x) :
    EachItem good' path i xs := by
  match xs with
  | [] => trivial
  | x :: xs =>
    rw [EachItem] at h ⊢
    obtain ⟨hx, hxs⟩ :=
      (forall_items_cons_iff (P := fun i x => good' (path ++ [.index i]) x)).mp here
    exact ⟨Each.inherit hgood h.1 hx, EachItem.inherit hgood h.2 hxs⟩
end

/-! ### Other places -/

mutual
lemma Each.move {path path' : Path} (hgood : ∀ p v, good (path ++ p) v → good' (path' ++ p) v)
    {v : Json} (h : v.Each good path) : v.Each good' path' := by
  match v with
  | .object fs =>
    rw [Each] at h ⊢
    refine ⟨?_, EachField.move hgood h.2⟩
    simpa using hgood [] (.object fs) (by simpa using h.1)
  | .array xs =>
    rw [Each] at h ⊢
    refine ⟨?_, EachItem.move hgood h.2⟩
    simpa using hgood [] (.array xs) (by simpa using h.1)
  | .null | .bool _ | .number _ | .string _ =>
    simp only [Each] at h ⊢
    simpa using hgood [] _ (by simpa using h)

lemma EachField.move {path path' : Path}
    (hgood : ∀ p v, good (path ++ p) v → good' (path' ++ p) v) {fs : List (String × Json)}
    (h : EachField good path fs) : EachField good' path' fs := by
  match fs with
  | [] => trivial
  | (k, v) :: fs =>
    rw [EachField] at h ⊢
    refine ⟨Each.move (fun p v => ?_) h.1, EachField.move hgood h.2⟩
    simpa using hgood (.key k :: p) v

lemma EachItem.move {path path' : Path}
    (hgood : ∀ p v, good (path ++ p) v → good' (path' ++ p) v) {i : Nat} {xs : List Json}
    (h : EachItem good path i xs) : EachItem good' path' i xs := by
  match xs with
  | [] => trivial
  | x :: xs =>
    rw [EachItem] at h ⊢
    refine ⟨Each.move (fun p v => ?_) h.1, EachItem.move hgood h.2⟩
    simpa using hgood (.index i :: p) v
end

lemma Each.mono (hgood : ∀ p v, good p v → good' p v) (h : v.Each good path) :
    v.Each good' path :=
  h.move fun p v => hgood (path ++ p) v

/-! ### Objects -/

section Objects

variable {P Q : Path → Fields Json → Prop}

lemma eachObject_object_iff : (object fs).EachObject P path ↔
    P path fs ∧ ∀ field ∈ fs, field.2.EachObject P (path ++ [.key field.1]) := by
  simp [EachObject, each_object_iff]

lemma eachObject_array_iff : (array xs).EachObject P path ↔
    ∀ i (x : Json), xs[i]? = some x → x.EachObject P (path ++ [.index i]) := by
  simp [EachObject, each_array_iff]

lemma eachObject_of_string (s : String) : (string s).EachObject P path := by
  simp [EachObject, Each]

lemma EachObject.set (h : (object fs).EachObject P path) {key : String}
    (hw : w.EachObject P (path ++ [.key key])) (hset : P path (fs.set key w)) :
    (object (fs.set key w)).EachObject P path := by
  refine eachObject_object_iff.mpr ⟨hset, fun field hfield => ?_⟩
  rcases Fields.mem_set hfield with hfield | rfl
  · exact (eachObject_object_iff.mp h).2 field hfield
  · exact hw

/-- It does not matter where a value stands if only its objects are spoken of. -/
lemma EachObject.anywhere {P : Fields Json → Prop} (h : v.EachObject (fun _ => P) path)
    (path' : Path) :
    v.EachObject (fun _ => P) path' := by
  unfold EachObject at h ⊢
  refine Each.move ?_ h
  exact fun _ _ hgood => hgood

end Objects

end Json

end ModularTemplates
