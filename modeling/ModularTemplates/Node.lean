import ModularTemplates.Path.Lookup

/-!
# Nodes of a document

A node is a place in a document together with the way back to the root: the value at the place, and
for every step up the segment that was taken and the container it was taken from. The nodes of a
document are numbered by their position in the list `Node.all`, where every node stands before the
nodes inside it.
-/

namespace ModularTemplates

/-- A step that was taken into a container. -/
structure Crumb where
  segment : Segment
  parent : Json

/-- A place in a document. The nearest container comes first in `above`. -/
structure Node where
  value : Json
  above : List Crumb

/-- What a value is made of. -/
inductive Shape where
  | object
  | array
  | primitive
deriving DecidableEq, Repr

/-- Objects and arrays are told apart from everything else. -/
def Json.shape : Json → Shape
  | .object _ => .object
  | .array _ => .array
  | _ => .primitive

namespace Node

/-- The root of a document. -/
def root (v : Json) : Node :=
  ⟨v, []⟩

/-- The segments from the root to the node. -/
def path (n : Node) : Path :=
  (n.above.map Crumb.segment).reverse

/-- The segment under which the parent holds the node, and the parent. -/
def parent? (n : Node) : Option (Segment × Node) :=
  match n.above with
  | [] => none
  | crumb :: above => some (crumb.segment, ⟨crumb.parent, above⟩)

/-- The node below under a segment. -/
def child? (n : Node) (s : Segment) : Option Node :=
  (n.value.child? s).map fun v => ⟨v, ⟨s, n.value⟩ :: n.above⟩

/-- The node at the end of a path. -/
def navigate (n : Node) : Path → Option Node
  | [] => some n
  | s :: p => (n.child? s).bind (navigate · p)

/-- All containers of the node, nearest first. -/
def ancestorsOf : List Crumb → List Node
  | [] => []
  | crumb :: above => ⟨crumb.parent, above⟩ :: ancestorsOf above

/-- The nodes around the node, nearest first. -/
def ancestors (n : Node) : List Node :=
  ancestorsOf n.above

/-- The names of an object's properties; other nodes have none. -/
def propertyNames (n : Node) : List String :=
  match n.value with
  | .object fs => Fields.keys fs
  | _ => []

/-- The nodes one step below, in order. -/
def children (n : Node) : List Node :=
  match n.value with
  | .object fs => fs.map fun field => ⟨field.2, ⟨.key field.1, n.value⟩ :: n.above⟩
  | .array xs => xs.mapIdx fun i x => ⟨x, ⟨.index i, n.value⟩ :: n.above⟩
  | _ => []

mutual
/-- The nodes of a value that stands at a place, the place first. -/
def allFrom (above : List Crumb) : Json → List Node
  | .object fs => ⟨.object fs, above⟩ :: allFields (.object fs) above fs
  | .array xs => ⟨.array xs, above⟩ :: allItems (.array xs) above 0 xs
  | v => [⟨v, above⟩]

/-- The nodes of the items of an array from a position on. -/
def allItems (parent : Json) (above : List Crumb) : Nat → List Json → List Node
  | _, [] => []
  | i, x :: xs => allFrom (⟨.index i, parent⟩ :: above) x ++ allItems parent above (i + 1) xs

/-- The nodes of the fields of an object. -/
def allFields (parent : Json) (above : List Crumb) : List (String × Json) → List Node
  | [] => []
  | (k, v) :: fs => allFrom (⟨.key k, parent⟩ :: above) v ++ allFields parent above fs
end

/-- All nodes of a document, parents before their children. -/
def all (v : Json) : List Node :=
  allFrom [] v

@[simp] theorem path_root (v : Json) : (root v).path = [] := rfl

@[simp] theorem path_cons (v : Json) (crumb : Crumb) (above : List Crumb) :
    path ⟨v, crumb :: above⟩ = path ⟨crumb.parent, above⟩ ++ [crumb.segment] := by
  simp [path]

/-- A path leads to the same value through nodes as through the document. -/
theorem map_value_navigate (n : Node) (p : Path) :
    (n.navigate p).map value = p.lookup n.value := by
  induction p generalizing n with
  | nil => rfl
  | cons s p ih =>
    simp only [navigate, child?, Path.lookup_cons]
    cases n.value.child? s with
    | none => rfl
    | some v => simpa using ih ⟨v, ⟨s, n.value⟩ :: n.above⟩

end Node

end ModularTemplates
