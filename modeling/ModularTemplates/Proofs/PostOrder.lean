import Mathlib.Data.List.Perm.Basic
import Mathlib.Tactic.Lemma
import ModularTemplates.Node

/-!
# Nodes in post-order

Keywords are looked at from the inside out. The nodes of a document in post-order are its nodes with
every node behind the nodes inside it, and what lies inside of what can be read off their paths.
-/

namespace ModularTemplates

namespace Node

mutual
/-- The nodes of a value that stands at a place, the place last. -/
def postorderFrom (above : List Crumb) : Json → List Node
  | .object fs => postorderFields (.object fs) above fs ++ [⟨.object fs, above⟩]
  | .array xs => postorderItems (.array xs) above 0 xs ++ [⟨.array xs, above⟩]
  | v => [⟨v, above⟩]

/-- The nodes of the fields of an object. -/
def postorderFields (parent : Json) (above : List Crumb) : List (String × Json) → List Node
  | [] => []
  | (k, v) :: fs =>
    postorderFrom (⟨.key k, parent⟩ :: above) v ++ postorderFields parent above fs

/-- The nodes of the items of an array from an index on. -/
def postorderItems (parent : Json) (above : List Crumb) : Nat → List Json → List Node
  | _, [] => []
  | i, x :: xs =>
    postorderFrom (⟨.index i, parent⟩ :: above) x ++ postorderItems parent above (i + 1) xs
end

/-- All nodes of a document, children before their parents. -/
def postorder (v : Json) : List Node :=
  postorderFrom [] v

lemma postorderFrom_of_primitive (above : List Crumb) {v : Json} (hv : v.shape = .primitive) :
    postorderFrom above v = [⟨v, above⟩] := by
  cases v with
  | object fs => cases hv
  | array xs => cases hv
  | _ =>
    rw [postorderFrom]
    all_goals simp

/-! ### The same nodes in another order -/

mutual
lemma perm_postorderFrom (above : List Crumb) (v : Json) :
    (postorderFrom above v).Perm (allFrom above v) := by
  match v with
  | .object fs =>
    rw [postorderFrom, allFrom]
    exact List.perm_append_singleton _ _ |>.trans
      ((perm_postorderFields (.object fs) above fs).cons _)
  | .array xs =>
    rw [postorderFrom, allFrom]
    exact List.perm_append_singleton _ _ |>.trans
      ((perm_postorderItems (.array xs) above 0 xs).cons _)
  | .null | .bool _ | .number _ | .string _ => simp [postorderFrom, allFrom]

lemma perm_postorderFields (parent : Json) (above : List Crumb) (fs : List (String × Json)) :
    (postorderFields parent above fs).Perm (allFields parent above fs) := by
  match fs with
  | [] => simp [postorderFields, allFields]
  | (k, v) :: fs =>
    rw [postorderFields, allFields]
    exact (perm_postorderFrom _ v).append (perm_postorderFields parent above fs)

lemma perm_postorderItems (parent : Json) (above : List Crumb) (i : Nat) (xs : List Json) :
    (postorderItems parent above i xs).Perm (allItems parent above i xs) := by
  match xs with
  | [] => simp [postorderItems, allItems]
  | x :: xs =>
    rw [postorderItems, allItems]
    exact (perm_postorderFrom _ x).append (perm_postorderItems parent above (i + 1) xs)
end

lemma mem_postorder_iff {v : Json} {n : Node} : n ∈ postorder v ↔ n ∈ all v :=
  (perm_postorderFrom [] v).mem_iff

/-! ### Paths of inner nodes -/

mutual
/-- The nodes inside a value lie below its place. -/
lemma prefix_path_of_mem {above : List Crumb} {v : Json} {n : Node}
    (h : n ∈ postorderFrom above v) :
    path ⟨v, above⟩ <+: n.path := by
  match v with
  | .object fs =>
    rw [postorderFrom, List.mem_append, List.mem_singleton] at h
    rcases h with h | rfl
    · obtain ⟨field, -, hn⟩ := prefix_path_of_mem_fields h
      exact (List.prefix_append _ _).trans hn
    · exact List.prefix_refl _
  | .array xs =>
    rw [postorderFrom, List.mem_append, List.mem_singleton] at h
    rcases h with h | rfl
    · obtain ⟨i, -, hn⟩ := prefix_path_of_mem_items h
      exact (List.prefix_append _ _).trans hn
    · exact List.prefix_refl _
  | .null | .bool _ | .number _ | .string _ =>
    obtain rfl : n = _ := by simpa [postorderFrom] using h
    exact List.prefix_refl _

lemma prefix_path_of_mem_fields {parent : Json} {above : List Crumb} {fs : List (String × Json)}
    {n : Node} (h : n ∈ postorderFields parent above fs) :
    ∃ field ∈ fs, path ⟨parent, above⟩ ++ [.key field.1] <+: n.path := by
  match fs with
  | [] => simp [postorderFields] at h
  | (k, v) :: fs =>
    rw [postorderFields, List.mem_append] at h
    rcases h with h | h
    · exact ⟨(k, v), List.mem_cons_self, by simpa using prefix_path_of_mem h⟩
    · obtain ⟨field, hfield, hn⟩ := prefix_path_of_mem_fields h
      exact ⟨field, List.mem_cons_of_mem _ hfield, hn⟩

lemma prefix_path_of_mem_items {parent : Json} {above : List Crumb} {i : Nat} {xs : List Json}
    {n : Node} (h : n ∈ postorderItems parent above i xs) :
    ∃ j, i ≤ j ∧ path ⟨parent, above⟩ ++ [.index j] <+: n.path := by
  match xs with
  | [] => simp [postorderItems] at h
  | x :: xs =>
    rw [postorderItems, List.mem_append] at h
    rcases h with h | h
    · exact ⟨i, Nat.le_refl i, by simpa using prefix_path_of_mem h⟩
    · obtain ⟨j, hj, hn⟩ := prefix_path_of_mem_items h
      exact ⟨j, Nat.le_of_succ_le hj, hn⟩
end

end Node

end ModularTemplates
