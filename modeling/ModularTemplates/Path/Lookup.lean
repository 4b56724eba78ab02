import ModularTemplates.Json.Basic
import ModularTemplates.Path.Basic

/-!
# Values at paths

A key leads into an object and an index into an array; nothing else leads anywhere. Looking up a
path and writing at a path go the same way.
-/

namespace ModularTemplates

namespace Json

/-- The value one step below. -/
def child? : Json → Segment → Option Json
  | .object fs, .key k => Fields.get? fs k
  | .array xs, .index i => xs[i]?
  | _, _ => none

/-- The same value with another one under an existing step. -/
def replaceChild : Json → Segment → Json → Json
  | .object fs, .key k, w => .object (Fields.set fs k w)
  | .array xs, .index i, w => .array (xs.set i w)
  | v, _, _ => v

end Json

namespace Path

/-- The value at a path. -/
def lookup : Path → Json → Option Json
  | [], v => some v
  | s :: p, v => (v.child? s).bind (lookup p)

/-- The document after changing the value at a path, if there is one. -/
def modify? (f : Json → Json) : Path → Json → Option Json
  | [], v => some (f v)
  | s :: p, v => do
    let below ← v.child? s
    let changed ← modify? f p below
    return v.replaceChild s changed

/-- The document after putting a value at a path, if there is such a place. -/
def assign? (p : Path) (v w : Json) : Option Json :=
  modify? (fun _ => w) p v

@[simp] theorem lookup_nil (v : Json) : lookup [] v = some v := rfl

@[simp] theorem lookup_cons (s : Segment) (p : Path) (v : Json) :
    lookup (s :: p) v = (v.child? s).bind (lookup p) := rfl

/-- A longer path is looked up in what the shorter one leads to. -/
theorem lookup_append (p q : Path) (v : Json) :
    lookup (p ++ q) v = (lookup p v).bind (lookup q) := by
  induction p generalizing v with
  | nil => rfl
  | cons s p ih =>
    simp only [List.cons_append, lookup_cons, Option.bind_assoc]
    cases v.child? s with
    | none => rfl
    | some w => simp [ih]

/-- A place is found for writing exactly where a value is found for reading. -/
theorem isSome_modify? (f : Json → Json) (p : Path) (v : Json) :
    (modify? f p v).isSome = (lookup p v).isSome := by
  induction p generalizing v with
  | nil => rfl
  | cons s p ih =>
    simp only [modify?, lookup_cons]
    cases v.child? s with
    | none => rfl
    | some w =>
      have := ih w
      cases h : modify? f p w <;> simp_all

/-- A value is put at a longer path by putting it at the rest of the path one step below. -/
theorem assign?_cons_eq_some_iff {s : Segment} {p : Path} {v w v' : Json} :
    assign? (s :: p) v w = some v' ↔
      ∃ below below', v.child? s = some below ∧ assign? p below w = some below' ∧
        v.replaceChild s below' = v' := by
  simp [assign?, modify?, Option.bind_eq_some_iff]

end Path

end ModularTemplates
