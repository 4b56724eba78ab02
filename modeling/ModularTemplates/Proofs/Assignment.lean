import Mathlib.Data.List.Infix
import Mathlib.Tactic.Lemma
import ModularTemplates.Proofs.Json

/-!
# Values put at paths

A place is found for writing exactly where a value is found for reading. What is put there is read
there, every path that parts from the place leads where it led before, the containers around the
place keep their keys or their length, and the document is restored by putting the old value back.

All of this is shown for one step into a container first, and then along the path.
-/

namespace ModularTemplates

variable {v w below below' : Json} {seg other : Segment} {p : Path}

/-! ### One step -/

namespace Json

/-- Two objects with the same keys in the same order, or two arrays of one length. -/
inductive SameFrame : Json → Json → Prop
  | object {fs gs : Fields Json} (h : gs.keys = fs.keys) : SameFrame (.object fs) (.object gs)
  | array {xs ys : List Json} (h : ys.length = xs.length) : SameFrame (.array xs) (.array ys)

lemma child?_replaceChild (h : v.child? seg = some below) (w : Json) :
    (v.replaceChild seg w).child? seg = some w := by
  rcases exists_of_child? h with ⟨fs, k, rfl, rfl, -⟩ | ⟨xs, i, rfl, rfl, hi⟩
  · exact Fields.get?_set_self fs k w
  · obtain ⟨hlt, -⟩ := List.getElem?_eq_some_iff.mp hi
    exact List.getElem?_set_self hlt

lemma child?_replaceChild_of_ne (hne : other ≠ seg) (h : v.child? seg = some below) (w : Json) :
    (v.replaceChild seg w).child? other = v.child? other := by
  rcases exists_of_child? h with ⟨fs, k, rfl, rfl, -⟩ | ⟨xs, i, rfl, rfl, -⟩
  · cases other with
    | index j => rfl
    | key k' =>
      apply Fields.get?_set_of_ne
      intro hk
      exact hne (congrArg Segment.key hk)
  · cases other with
    | key k' => rfl
    | index j =>
      apply List.getElem?_set_ne
      intro hi
      exact hne (congrArg Segment.index hi.symm)

lemma sameFrame_replaceChild (h : v.child? seg = some below) (w : Json) :
    SameFrame v (v.replaceChild seg w) := by
  rcases exists_of_child? h with ⟨fs, k, rfl, rfl, hk⟩ | ⟨xs, i, rfl, rfl, -⟩
  · exact .object (Fields.keys_set_of_mem (Fields.mem_keys_of_get? hk) w)
  · exact .array List.length_set

/-- The old part can be put back. -/
lemma replaceChild_replaceChild (h : v.child? seg = some below) (w : Json) :
    (v.replaceChild seg w).replaceChild seg below = v := by
  rcases exists_of_child? h with ⟨fs, k, rfl, rfl, hk⟩ | ⟨xs, i, rfl, rfl, hi⟩
  · simp only [replaceChild, Fields.set_set, Fields.set_of_get? hk]
  · obtain ⟨hlt, rfl⟩ := List.getElem?_eq_some_iff.mp hi
    simp only [replaceChild, List.set_set, List.set_getElem_self]

end Json

/-! ### A path -/

namespace Path

/-- Changing the value at a path is putting there what the function makes of the value
that is found. -/
theorem modify?_eq_bind_assign? (f : Json → Json) (p : Path) (v : Json) :
    p.modify? f v = (p.lookup v).bind fun old => p.assign? v (f old) := by
  induction p generalizing v with
  | nil => rfl
  | cons seg p ih =>
    simp only [assign?, modify?, lookup_cons]
    cases v.child? seg with
    | none => rfl
    | some below =>
      simp only [Option.bind_eq_bind, Option.bind_some, ih below, Option.bind_assoc, assign?]

/-- The document `v'` is the document `v` with the value `w` put at a path. -/
structure Assigned (p : Path) (v w v' : Json) : Prop where
  here : p.lookup v' = some w
  below : ∀ r : Path, lookup (p ++ r) v' = r.lookup w
  /-- paths that part from the place lead where they led -/
  beside : ∀ q : Path, ¬ q <+: p → ¬ p <+: q → q.lookup v' = q.lookup v
  /-- the containers around the place are what they were, but for what is in the part on the way -/
  around : ∀ q : Path, q <+: p → q ≠ p →
    ∃ u u', q.lookup v = some u ∧ q.lookup v' = some u' ∧ u.SameFrame u'
  /-- the old value can be put back -/
  back : ∃ old, p.lookup v = some old ∧ p.assign? v' old = some v

lemma Assigned.root (v w : Json) : Assigned [] v w w := by
  constructor
  · rfl
  · intro r
    rfl
  · intro q _ hq
    exact absurd List.nil_prefix hq
  · intro q hq hne
    exact absurd (List.prefix_nil.mp hq) hne
  · exact ⟨v, rfl, rfl⟩

/-- A value that is put at a place below is put at a place of the container. -/
lemma Assigned.step (hbelow : v.child? seg = some below) (h : Assigned p below w below') :
    Assigned (seg :: p) v w (v.replaceChild seg below') := by
  have hchild : (v.replaceChild seg below').child? seg = some below' :=
    Json.child?_replaceChild hbelow below'
  have hlookup : ∀ q : Path, lookup (seg :: q) (v.replaceChild seg below') = q.lookup below' := by
    intro q
    rw [lookup_cons, hchild, Option.bind_some]
  constructor
  · rw [hlookup, h.here]
  · intro r
    rw [List.cons_append, hlookup, h.below]
  · intro q hq hp
    cases q with
    | nil => exact absurd List.nil_prefix hq
    | cons other q =>
      by_cases hother : other = seg
      · -- the paths part further down
        subst hother
        rw [List.cons_prefix_cons, not_and] at hq hp
        rw [hlookup, lookup_cons, hbelow, Option.bind_some]
        exact h.beside q (hq rfl) (hp rfl)
      · rw [lookup_cons, lookup_cons, Json.child?_replaceChild_of_ne hother hbelow]
  · intro q hq hne
    cases q with
    | nil => exact ⟨v, _, rfl, rfl, Json.sameFrame_replaceChild hbelow below'⟩
    | cons other q =>
      obtain ⟨rfl, hqBelow⟩ := List.cons_prefix_cons.mp hq
      have hneBelow : q ≠ p := by
        rintro rfl
        exact hne rfl
      rw [hlookup, lookup_cons, hbelow, Option.bind_some]
      exact h.around q hqBelow hneBelow
  · obtain ⟨old, hold, hback⟩ := h.back
    refine ⟨old, ?_, ?_⟩
    · rw [lookup_cons, hbelow, Option.bind_some, hold]
    · apply assign?_cons_eq_some_iff.mpr
      exact ⟨below', below, hchild, hback, Json.replaceChild_replaceChild hbelow below'⟩

lemma assigned_of_assign? {v' : Json} (h : p.assign? v w = some v') : Assigned p v w v' := by
  induction p generalizing v v' with
  | nil =>
    cases h
    exact Assigned.root v w
  | cons seg p ih =>
    obtain ⟨below, below', hbelow, hassign, rfl⟩ := assign?_cons_eq_some_iff.mp h
    exact Assigned.step hbelow (ih hassign)

lemma lookup_modify? {f : Json → Json} {v' : Json} (h : p.modify? f v = some v') :
    p.lookup v' = (p.lookup v).map f := by
  rw [modify?_eq_bind_assign?] at h
  obtain ⟨old, hold, hassign⟩ := Option.bind_eq_some_iff.mp h
  rw [(assigned_of_assign? hassign).here, hold, Option.map_some]

lemma lookup_getD_modify? (f : Json → Json) (p : Path) (v : Json) :
    p.lookup ((p.modify? f v).getD v) = (p.lookup v).map f := by
  cases hmodify : p.modify? f v with
  | some v' => exact lookup_modify? hmodify
  | none =>
    have hlookup := isSome_modify? f p v
    rw [hmodify, Option.isSome_none, eq_comm, Option.isSome_eq_false_iff,
      Option.isNone_iff_eq_none] at hlookup
    rw [Option.getD_none, hlookup, Option.map_none]

/-- Reading and writing go to the same place. There is a place to write to exactly if there is a
value to read, a change of the place is made from the value that is read, and writing there changes
the place and nothing else. -/
theorem assigned_where_found (p : Path) (v w : Json) :
    ((p.assign? v w).isSome ↔ (p.lookup v).isSome) ∧
      (∀ f : Json → Json, p.modify? f v = (p.lookup v).bind fun old => p.assign? v (f old)) ∧
      ∀ v', p.assign? v w = some v' → p.Assigned v w v' := by
  refine ⟨?_, ?_, ?_⟩
  · rw [assign?, isSome_modify?]
  · intro f
    exact modify?_eq_bind_assign? f p v
  · intro v' h
    exact assigned_of_assign? h

/-- An item is replaced by an object. A key that spells the index of the item leads nowhere,
before and after. -/
theorem assigned_where_found_item :
    let v : Json := .object [("list", .array [.string "a", .string "b"]), ("0", .null)]
    let w : Json := .object [("name", .bool true)]
    let v' : Json := .object [("list", .array [w, .string "b"]), ("0", .null)]
    let p : Path := [.key "list", .index 0]
    p.assign? v w = some v' ∧ p.Assigned v w v' ∧
      Path.assign? [.key "list", .key "0"] v w = none ∧
      Path.lookup [.key "list", .key "0"] v' = none := by
  intro v w v' p
  have hassign : p.assign? v w = some v' := by decide
  obtain ⟨-, -, hassigned⟩ := assigned_where_found p v w
  exact ⟨hassign, hassigned v' hassign, by decide, by decide⟩

end Path

end ModularTemplates
