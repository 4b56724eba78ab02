import Mathlib.Tactic.Lemma
import ModularTemplates.Merge.Basic
import ModularTemplates.Node
import ModularTemplates.Proofs.Fields
import ModularTemplates.ResourceId

/-!
# Marked values

A marked value is a value in which every place carries a mark. The mark says who wrote the value at
the place and whom it is attributed to. Without its marks a marked value is an ordinary one, and a
path leads to the same place in both.
-/

namespace ModularTemplates

/-- Whom a value goes back to. -/
structure Mark where
  /-- to whom the value is attributed -/
  author : ResourceId
  /-- who brought the value along -/
  writer : ResourceId
deriving DecidableEq, Repr

/-- The mark of what a contributor puts in place. -/
def Mark.by (contributor : ResourceId) : Mark :=
  ⟨contributor, contributor⟩

/-- A value without parts. -/
abbrev Scalar := {v : Json // v.shape = .primitive}

/-- A value with a mark at every place. -/
inductive Marked where
  | scalar (mark : Mark) (value : Scalar)
  | array (mark : Mark) (items : List Marked)
  | object (mark : Mark) (fields : List (String × Marked))

namespace Marked

/-- The mark of the whole. -/
def mark : Marked → Mark
  | .scalar m _ => m
  | .array m _ => m
  | .object m _ => m

/-- The part one step below. -/
def child? : Marked → Segment → Option Marked
  | .object _ fs, .key k => Fields.get? fs k
  | .array _ xs, .index i => xs[i]?
  | _, _ => none

/-- The part at a path. -/
def at? : Path → Marked → Option Marked
  | [], M => some M
  | seg :: p, M => (M.child? seg).bind (at? p)

/-- The part one step below; a missing part is null and has the mark of the whole. -/
def childD (M : Marked) (seg : Segment) : Marked :=
  (M.child? seg).getD (.scalar M.mark ⟨.null, rfl⟩)

@[simp] lemma at?_nil (M : Marked) : at? [] M = some M := rfl

@[simp] lemma at?_cons (seg : Segment) (p : Path) (M : Marked) :
    at? (seg :: p) M = (M.child? seg).bind (at? p) := rfl

lemma at?_append (p q : Path) (M : Marked) : at? (p ++ q) M = (at? p M).bind (at? q) := by
  induction p generalizing M with
  | nil => rfl
  | cons seg p ih =>
    rw [List.cons_append, at?_cons, at?_cons]
    cases M.child? seg with
    | none => rfl
    | some N => exact ih N

/-! ### Without marks -/

mutual
/-- The value without its marks. -/
def erase : Marked → Json
  | .scalar _ v => v.val
  | .array _ xs => .array (eraseItems xs)
  | .object _ fs => .object (eraseFields fs)

/-- The items without their marks. -/
def eraseItems : List Marked → List Json
  | [] => []
  | M :: xs => erase M :: eraseItems xs

/-- The fields without their marks. -/
def eraseFields : List (String × Marked) → List (String × Json)
  | [] => []
  | (k, M) :: fs => (k, erase M) :: eraseFields fs
end

lemma eraseItems_eq (xs : List Marked) : eraseItems xs = xs.map erase := by
  induction xs with
  | nil => rfl
  | cons M xs ih => rw [eraseItems, ih, List.map_cons]

lemma eraseFields_eq (fs : List (String × Marked)) :
    eraseFields fs = Fields.mapValues erase fs := by
  induction fs with
  | nil => rfl
  | cons field fs ih => rw [eraseFields, ih, Fields.mapValues_cons]

lemma child?_eq_none_of_scalar {v : Json} (h : v.shape = .primitive) (seg : Segment) :
    v.child? seg = none := by
  cases v with
  | array | object => simp [Json.shape] at h
  | _ => rfl

lemma child?_erase (M : Marked) (seg : Segment) :
    M.erase.child? seg = (M.child? seg).map erase := by
  cases M with
  | scalar m v => exact child?_eq_none_of_scalar v.property seg
  | array m xs => cases seg <;> simp [erase, Json.child?, child?, eraseItems_eq]
  | object m fs =>
    cases seg <;> simp [erase, Json.child?, child?, eraseFields_eq, Fields.get?_mapValues]

/-- A path leads to the same place with marks and without. -/
theorem lookup_erase (p : Path) (M : Marked) : p.lookup M.erase = (M.at? p).map erase := by
  induction p generalizing M with
  | nil => rfl
  | cons seg p ih =>
    rw [Path.lookup_cons, at?_cons, child?_erase]
    cases M.child? seg with
    | none => rfl
    | some N => exact ih N

lemma erase_childD (M : Marked) (seg : Segment) :
    (M.childD seg).erase = (M.erase.child? seg).getD .null := by
  rw [childD, child?_erase]
  cases M.child? seg <;> rfl

/-- What stands for a scalar is a marked scalar. -/
lemma eq_scalar_of_erase {M : Marked} {v : Json} (h : M.erase = v) (hv : v.shape = .primitive) :
    M = .scalar M.mark ⟨v, hv⟩ := by
  subst h
  cases M with
  | scalar m v => rfl
  | array m xs => simp [erase, Json.shape] at hv
  | object m fs => simp [erase, Json.shape] at hv

end Marked

/-! ### One mark for all places -/

namespace Json

mutual
/-- The value with one mark at all its places. -/
def marked (m : Mark) : Json → Marked
  | .null => .scalar m ⟨.null, rfl⟩
  | .bool b => .scalar m ⟨.bool b, rfl⟩
  | .number n => .scalar m ⟨.number n, rfl⟩
  | .string s => .scalar m ⟨.string s, rfl⟩
  | .array xs => .array m (markedItems m xs)
  | .object fs => .object m (markedFields m fs)

/-- The items with one mark at all their places. -/
def markedItems (m : Mark) : List Json → List Marked
  | [] => []
  | v :: xs => marked m v :: markedItems m xs

/-- The fields with one mark at all their places. -/
def markedFields (m : Mark) : List (String × Json) → List (String × Marked)
  | [] => []
  | (k, v) :: fs => (k, marked m v) :: markedFields m fs
end

lemma markedItems_eq (m : Mark) (xs : List Json) : markedItems m xs = xs.map (marked m) := by
  induction xs with
  | nil => rfl
  | cons v xs ih => rw [markedItems, ih, List.map_cons]

lemma markedFields_eq (m : Mark) (fs : List (String × Json)) :
    markedFields m fs = Fields.mapValues (marked m) fs := by
  induction fs with
  | nil => rfl
  | cons field fs ih => rw [markedFields, ih, Fields.mapValues_cons]

@[simp] lemma mark_marked (m : Mark) (v : Json) : (v.marked m).mark = m := by
  cases v <;> rfl

lemma child?_marked (m : Mark) (v : Json) (seg : Segment) :
    (v.marked m).child? seg = (v.child? seg).map (marked m) := by
  cases v with
  | array xs => cases seg <;> simp [marked, child?, Marked.child?, markedItems_eq]
  | object fs =>
    cases seg <;> simp [marked, child?, Marked.child?, markedFields_eq, Fields.get?_mapValues]
  | _ => rfl

lemma at?_marked (m : Mark) (p : Path) (v : Json) :
    (v.marked m).at? p = (p.lookup v).map (marked m) := by
  induction p generalizing v with
  | nil => rfl
  | cons seg p ih =>
    rw [Marked.at?_cons, Path.lookup_cons, child?_marked]
    cases v.child? seg with
    | none => rfl
    | some w => exact ih w

mutual
@[simp] theorem erase_marked (m : Mark) (v : Json) : (v.marked m).erase = v := by
  match v with
  | .null | .bool _ | .number _ | .string _ => rfl
  | .array xs => rw [marked, Marked.erase, erase_markedItems m xs]
  | .object fs => rw [marked, Marked.erase, erase_markedFields m fs]

theorem erase_markedItems (m : Mark) (xs : List Json) :
    Marked.eraseItems (markedItems m xs) = xs := by
  match xs with
  | [] => rfl
  | v :: xs => rw [markedItems, Marked.eraseItems, erase_marked m v, erase_markedItems m xs]

theorem erase_markedFields (m : Mark) (fs : List (String × Json)) :
    Marked.eraseFields (markedFields m fs) = fs := by
  match fs with
  | [] => rfl
  | (k, v) :: fs => rw [markedFields, Marked.eraseFields, erase_marked m v, erase_markedFields m fs]
end

end Json

/-! ### Another author -/

namespace Marked

mutual
/-- The same value with everything in it attributed to one author. -/
def reauthor (author : ResourceId) : Marked → Marked
  | .scalar m v => .scalar ⟨author, m.writer⟩ v
  | .array m xs => .array ⟨author, m.writer⟩ (reauthorItems author xs)
  | .object m fs => .object ⟨author, m.writer⟩ (reauthorFields author fs)

/-- The same items with everything in them attributed to one author. -/
def reauthorItems (author : ResourceId) : List Marked → List Marked
  | [] => []
  | M :: xs => reauthor author M :: reauthorItems author xs

/-- The same fields with everything in them attributed to one author. -/
def reauthorFields (author : ResourceId) : List (String × Marked) → List (String × Marked)
  | [] => []
  | (k, M) :: fs => (k, reauthor author M) :: reauthorFields author fs
end

variable {author : ResourceId}

lemma reauthorItems_eq (xs : List Marked) : reauthorItems author xs = xs.map (reauthor author) := by
  induction xs with
  | nil => rfl
  | cons M xs ih => rw [reauthorItems, ih, List.map_cons]

lemma reauthorFields_eq (fs : List (String × Marked)) :
    reauthorFields author fs = Fields.mapValues (reauthor author) fs := by
  induction fs with
  | nil => rfl
  | cons field fs ih => rw [reauthorFields, ih, Fields.mapValues_cons]

@[simp] lemma mark_reauthor (M : Marked) :
    (M.reauthor author).mark = ⟨author, M.mark.writer⟩ := by
  cases M <;> rfl

lemma child?_reauthor (M : Marked) (seg : Segment) :
    (M.reauthor author).child? seg = (M.child? seg).map (reauthor author) := by
  cases M with
  | scalar m v => rfl
  | array m xs => cases seg <;> simp [reauthor, child?, reauthorItems_eq]
  | object m fs => cases seg <;> simp [reauthor, child?, reauthorFields_eq, Fields.get?_mapValues]

lemma at?_reauthor (p : Path) (M : Marked) :
    (M.reauthor author).at? p = (M.at? p).map (reauthor author) := by
  induction p generalizing M with
  | nil => rfl
  | cons seg p ih =>
    rw [at?_cons, at?_cons, child?_reauthor]
    cases M.child? seg with
    | none => rfl
    | some N => exact ih N

mutual
@[simp] theorem erase_reauthor (M : Marked) : (M.reauthor author).erase = M.erase := by
  match M with
  | .scalar m v => rfl
  | .array m xs => rw [reauthor, erase, erase, erase_reauthorItems xs]
  | .object m fs => rw [reauthor, erase, erase, erase_reauthorFields fs]

theorem erase_reauthorItems (xs : List Marked) :
    eraseItems (reauthorItems author xs) = eraseItems xs := by
  match xs with
  | [] => rfl
  | M :: xs => rw [reauthorItems, eraseItems, eraseItems, erase_reauthor M, erase_reauthorItems xs]

theorem erase_reauthorFields (fs : List (String × Marked)) :
    eraseFields (reauthorFields author fs) = eraseFields fs := by
  match fs with
  | [] => rfl
  | (k, M) :: fs =>
    rw [reauthorFields, eraseFields, eraseFields, erase_reauthor M, erase_reauthorFields fs]
end

end Marked

end ModularTemplates
