import Mathlib.Data.List.Nodup
import Mathlib.Tactic.Lemma
import ModularTemplates.Proofs.Merge.Outcome
import ModularTemplates.Proofs.PostOrder

/-!
# The order of places

Two places of a document of which neither lies inside the other part at some container. The one
under the earlier segment of this container comes first. In post-order the nodes of a document stand
in this order, each of them just once, and a node stands behind those inside of it.
-/

namespace ModularTemplates

namespace Json

/-- In a document one place comes before another one, and neither lies inside the other: they part
at a container, where the first one goes on with an earlier segment. -/
inductive Before : Json → Path → Path → Prop
  | here {v : Json} {a b : Segment} {p q : Path} (h : [a, b].Sublist v.segments) :
      Before v (a :: p) (b :: q)
  | inside {v w : Json} {seg : Segment} {p q : Path} (hw : v.child? seg = some w)
      (h : Before w p q) : Before v (seg :: p) (seg :: q)

end Json

namespace Node

variable {v w : Json} {above : List Crumb} {seg : Segment} {p q : Path} {n m : Node}

/-! ### Going down from a node -/

lemma navigate_cons (hw : v.child? seg = some w) (above : List Crumb) (p : Path) :
    navigate ⟨v, above⟩ (seg :: p) = navigate ⟨w, ⟨seg, v⟩ :: above⟩ p := by
  simp [navigate, child?, hw]

lemma path_of_navigate (h : navigate n p = some m) : m.path = n.path ++ p := by
  induction p generalizing n with
  | nil =>
    cases h
    exact (List.append_nil _).symm
  | cons seg p ih =>
    obtain ⟨child, hchild, hm⟩ := Option.bind_eq_some_iff.mp h
    obtain ⟨w, hw, rfl⟩ := Option.map_eq_some_iff.mp hchild
    rw [ih hm, path_cons, List.append_assoc, List.singleton_append]

lemma path_of_navigate_root (h : navigate (root v) p = some n) : n.path = p :=
  path_of_navigate h

/-- The value of a node is what its path leads to in the document. -/
lemma lookup_path (h : navigate (root v) n.path = some n) : n.path.lookup v = some n.value := by
  have hvalue := map_value_navigate (root v) n.path
  rw [h] at hvalue
  exact hvalue.symm

/-! ### Nodes part by part -/

section Walk

variable {α : Type}

/-- A walk through fields one after the other, by their names. -/
lemma walk_fields_eq (walk : List (String × Json) → List α)
    (visit : String → Json → List α) (hnil : walk [] = [])
    (hcons : ∀ k v fs, walk ((k, v) :: fs) = visit k v ++ walk fs) {fs : Fields Json}
    (hfs : fs.Distinct) :
    walk fs = (Fields.keys fs).flatMap fun k => visit k ((fs.get? k).getD .null) := by
  have hwalk : walk fs = fs.flatMap fun field => visit field.1 field.2 := by
    clear hfs
    induction fs with
    | nil => exact hnil
    | cons field fs ih => rw [hcons, ih, List.flatMap_cons]
  rw [hwalk, Fields.keys, List.flatMap_map]
  refine List.flatMap_congr fun field hfield => ?_
  rw [hfs.get?_of_mem hfield, Option.getD_some]

/-- A walk through items one after the other, by their indices. -/
lemma walk_items_eq (walk : Nat → List Json → List α) (visit : Nat → Json → List α)
    (hnil : ∀ i, walk i [] = [])
    (hcons : ∀ i x xs, walk i (x :: xs) = visit i x ++ walk (i + 1) xs) (i : Nat)
    (xs : List Json) :
    walk i xs = (List.range xs.length).flatMap fun j => visit (i + j) (xs[j]?.getD .null) := by
  induction xs generalizing i with
  | nil => exact hnil i
  | cons x xs ih =>
    rw [hcons, ih, List.length_cons, List.range_succ_eq_map, List.flatMap_cons, List.flatMap_map]
    congr 1
    refine List.flatMap_congr fun j _ => ?_
    rw [List.getElem?_cons_succ, Nat.add_right_comm, Nat.add_assoc]

end Walk

/-- The nodes inside of a value come part by part, and the value itself comes last. -/
lemma postorderFrom_eq (hv : v.WellFormed) (above : List Crumb) : postorderFrom above v =
    (v.segments.flatMap fun seg =>
      postorderFrom (⟨seg, v⟩ :: above) ((v.child? seg).getD .null)) ++
      [⟨v, above⟩] := by
  cases v with
  | object fs =>
    rw [postorderFrom, walk_fields_eq (postorderFields (.object fs) above)
      (fun k => postorderFrom (⟨.key k, .object fs⟩ :: above)) rfl
        (fun _ _ _ => rfl) hv.distinct, Json.segments, List.flatMap_map]
    rfl
  | array xs =>
    rw [postorderFrom, walk_items_eq (postorderItems (.array xs) above)
      (fun i => postorderFrom (⟨.index i, .array xs⟩ :: above)) (fun _ => rfl)
        (fun _ _ _ => rfl), Json.segments, List.flatMap_map]
    simp only [Nat.zero_add]
    rfl
  | _ => exact postorderFrom_of_primitive above rfl

/-- A node is one of those of a value if some way leads from the value to it. -/
lemma mem_postorderFrom_iff (v : Json) (hv : v.WellFormed) (above : List Crumb) :
    n ∈ postorderFrom above v ↔ ∃ p, navigate ⟨v, above⟩ p = some n := by
  have hparts : ∀ seg w, v.child? seg = some w →
      (n ∈ postorderFrom (⟨seg, v⟩ :: above) w ↔
          ∃ p, navigate ⟨v, above⟩ (seg :: p) = some n) := by
    intro seg w hw
    simp only [navigate_cons hw]
    exact mem_postorderFrom_iff w (hv.child? hw) (⟨seg, v⟩ :: above)
  rw [postorderFrom_eq hv, List.mem_append, List.mem_singleton, List.mem_flatMap]
  constructor
  · rintro (⟨seg, hseg, hn⟩ | rfl)
    · obtain ⟨w, hw⟩ := Json.mem_segments_iff.mp hseg
      rw [hw, Option.getD_some, hparts seg w hw] at hn
      obtain ⟨p, hp⟩ := hn
      exact ⟨seg :: p, hp⟩
    · exact ⟨[], rfl⟩
  · rintro ⟨p, hp⟩
    cases p with
    | nil =>
      cases hp
      exact .inr rfl
    | cons seg p =>
      obtain ⟨child, hchild, -⟩ := Option.bind_eq_some_iff.mp hp
      obtain ⟨w, hw, -⟩ := Option.map_eq_some_iff.mp hchild
      refine .inl ⟨seg, Json.mem_segments_iff.mpr ⟨w, hw⟩, ?_⟩
      rw [hw, Option.getD_some, hparts seg w hw]
      exact ⟨p, hp⟩
termination_by sizeOf v
decreasing_by exact Json.sizeOf_lt_of_child? hw

/-- The nodes of a document are those that their own paths lead to. -/
lemma mem_postorder_iff_navigate (hv : v.WellFormed) :
    n ∈ postorder v ↔ navigate (root v) n.path = some n := by
  rw [postorder, mem_postorderFrom_iff v hv]
  constructor
  · rintro ⟨p, hp⟩
    rw [path_of_navigate_root hp]
    exact hp
  · exact fun h => ⟨n.path, h⟩

/-! ### The order of nodes -/

/-- In post-order a node comes before another one if it lies inside of it or at an earlier place of
the document. -/
def Precedes (document : Json) (n m : Node) : Prop :=
  m.path <+: n.path ∧ m.path ≠ n.path ∨ document.Before n.path m.path

/-- Nodes that lie in the order of their ways from a value. -/
def PrecedesFrom (v : Json) (above : List Crumb) (n m : Node) : Prop :=
  ∃ p q, navigate ⟨v, above⟩ p = some n ∧ navigate ⟨v, above⟩ q = some m ∧
    (q <+: p ∧ q ≠ p ∨ v.Before p q)

lemma PrecedesFrom.inside (hw : v.child? seg = some w)
    (h : PrecedesFrom w (⟨seg, v⟩ :: above) n m) :
    PrecedesFrom v above n m := by
  obtain ⟨p, q, hp, hq, h⟩ := h
  refine ⟨seg :: p, seg :: q, by rwa [navigate_cons hw], by rwa [navigate_cons hw], ?_⟩
  refine h.imp (fun hproper => ⟨?_, ?_⟩) (Json.Before.inside hw)
  · exact List.cons_prefix_cons.mpr ⟨rfl, hproper.1⟩
  · exact fun heq => hproper.2 (List.cons.inj heq).2

lemma pairwise_postorderFrom (v : Json) (hv : v.WellFormed) (above : List Crumb) :
    (postorderFrom above v).Pairwise (PrecedesFrom v above) := by
  have hways : ∀ seg ∈ v.segments,
    ∀ n ∈ postorderFrom (⟨seg, v⟩ :: above) ((v.child? seg).getD .null),
      ∃ p, navigate ⟨v, above⟩ (seg :: p) = some n := by
    intro seg hseg n hn
    obtain ⟨w, hw⟩ := Json.mem_segments_iff.mp hseg
    rw [hw, Option.getD_some, mem_postorderFrom_iff w (hv.child? hw)] at hn
    obtain ⟨p, hp⟩ := hn
    exact ⟨p, by rwa [navigate_cons hw]⟩
  rw [postorderFrom_eq hv, List.pairwise_append]
  refine ⟨List.pairwise_flatMap.mpr ⟨?_, ?_⟩, List.pairwise_singleton _ _, ?_⟩
  · intro seg hseg
    obtain ⟨w, hw⟩ := Json.mem_segments_iff.mp hseg
    rw [hw, Option.getD_some]
    exact (pairwise_postorderFrom w (hv.child? hw) (⟨seg, v⟩ :: above)).imp
      (PrecedesFrom.inside hw)
  · refine List.pairwise_iff_forall_sublist.mpr fun {a b} hsublist n hn m hm => ?_
    have hmem := hsublist.subset
    obtain ⟨p, hp⟩ := hways a (hmem (by simp)) n hn
    obtain ⟨q, hq⟩ := hways b (hmem (by simp)) m hm
    exact ⟨a :: p, b :: q, hp, hq, .inr (.here hsublist)⟩
  · intro n hn m hm
    obtain rfl := List.mem_singleton.mp hm
    obtain ⟨seg, hseg, hn⟩ := List.mem_flatMap.mp hn
    obtain ⟨p, hp⟩ := hways seg hseg n hn
    exact ⟨seg :: p, [], hp, rfl, .inl ⟨List.nil_prefix, by simp⟩⟩
termination_by sizeOf v
decreasing_by exact Json.sizeOf_lt_of_child? hw

/-- Every node comes behind those inside of it, and otherwise the nodes come in the order of
the document. -/
lemma pairwise_postorder (hv : v.WellFormed) : (postorder v).Pairwise (Precedes v) := by
  refine (pairwise_postorderFrom v hv []).imp ?_
  rintro n m ⟨p, q, hp, hq, h⟩
  rwa [Precedes, path_of_navigate_root hp, path_of_navigate_root hq]

end Node

end ModularTemplates
