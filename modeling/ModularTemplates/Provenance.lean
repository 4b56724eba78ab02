import ModularTemplates.Merge.Basic
import ModularTemplates.ResourceId

/-!
# Provenance

The provenance of a merged value says which resource supplied the value at each path last. It is a
tree beside the value in which only some places are recorded; a place without a record of its own
belongs to the nearest record above it. Changes of a merge are entered one by one.
-/

namespace ModularTemplates

/-- Who supplied a value: an owner of the whole, and records of places below it. -/
inductive Provenance where
  /-- nothing is recorded below -/
  | leaf (owner : ResourceId)
  /-- records of some properties -/
  | fields (owner : ResourceId) (below : List (String × Provenance))
  /-- records of some of the first items -/
  | items (owner : ResourceId) (below : List (Option Provenance))
deriving Repr

namespace Provenance

/-- Who supplied the value as a whole. -/
def owner : Provenance → ResourceId
  | .leaf o => o
  | .fields o _ => o
  | .items o _ => o

/-- The records of properties. -/
def fieldsBelow : Provenance → Fields Provenance
  | .fields _ fs => fs
  | _ => []

/-- The records of items. -/
def itemsBelow : Provenance → List (Option Provenance)
  | .items _ xs => xs
  | _ => []

/-! ### Looking up -/

/-- The record one step below. -/
def child? : Provenance → Segment → Option Provenance
  | .fields _ fs, .key k => Fields.get? fs k
  | .items _ xs, .index i => (xs[i]?).join
  | _, _ => none

/-- The record at exactly a path. -/
def at? : Path → Provenance → Option Provenance
  | [], p => some p
  | s :: path, p => (p.child? s).bind (at? path)

mutual
/-- The length of the longest chain of records below. -/
def height : Provenance → Nat
  | .leaf _ => 0
  | .fields _ fs => heightFields fs
  | .items _ xs => heightItems xs

/-- The longest chain that starts with one of some properties. -/
def heightFields : List (String × Provenance) → Nat
  | [] => 0
  | (_, p) :: fs => max (height p + 1) (heightFields fs)

/-- The longest chain that starts with one of some items. -/
def heightItems : List (Option Provenance) → Nat
  | [] => 0
  | none :: xs => heightItems xs
  | some p :: xs => max (height p + 1) (heightItems xs)
end

/-- An answer to the question who supplied the value at a path. -/
structure Source where
  owner : ResourceId
  /-- the number of segments below the last record on the path; if the whole path is recorded, minus
  the height of its record -/
  depth : Int
deriving DecidableEq, Repr

/-- Who supplied the value at a path: the owner of the last record on the way. -/
def source : Path → Provenance → Source
  | [], p => ⟨p.owner, -(p.height : Int)⟩
  | s :: path, p =>
    match p.child? s with
    | some below => source path below
    | none => ⟨p.owner, (path.length : Int) + 1⟩

/-! ### Entering changes -/

/-- A list of records that covers at least a number of items. -/
def pad (xs : List (Option Provenance)) (length : Nat) : List (Option Provenance) :=
  xs ++ List.replicate (length - xs.length) none

/-- Change the record at a path. Missing records on the way take over the owner above them. -/
def alter (f : Provenance → Provenance) : Path → Provenance → Provenance
  | [], p => f p
  | .key k :: path, p =>
    let below := (p.fieldsBelow.get? k).getD (.leaf p.owner)
    .fields p.owner (p.fieldsBelow.set k (alter f path below))
  | .index i :: path, p =>
    let slots := pad p.itemsBelow (i + 1)
    let below := (slots[i]?).join.getD (.leaf p.owner)
    .items p.owner (slots.set i (some (alter f path below)))

/-- Records of an array of some length to which a contributor added the last items. -/
def appended (contributor : ResourceId) (count length : Nat) (slots : List (Option Provenance)) :
    List (Option Provenance) :=
  let slots := pad slots length
  slots.take (length - count) ++ List.replicate (min count length) (some (.leaf contributor)) ++
    slots.drop length

/-- Enter a change by a contributor. `merged` is the value after the merge; its arrays tell which
items are the last ones. -/
def enter (change : Change) (contributor : ResourceId) (merged : Json)
    (p : Provenance) : Provenance :=
  alter (fun record =>
    match change.kind with
    | .replace | .combine => .leaf contributor
    | .append count =>
      let length := (((change.path.lookup merged).bind Json.asArray?).map List.length).getD count
      .items record.owner (appended contributor count length record.itemsBelow)
    | .prepend count =>
      .items record.owner (List.replicate count (some (.leaf contributor)) ++ record.itemsBelow))
    change.path p

/-- Enter the changes of a merge in their order. -/
def enterAll (changes : List Change) (contributor : ResourceId) (merged : Json) (p : Provenance) :
    Provenance :=
  changes.foldl (fun p change => p.enter change contributor merged) p

@[simp] theorem enterAll_nil (contributor : ResourceId) (merged : Json) (p : Provenance) :
    p.enterAll [] contributor merged = p := rfl

@[simp] theorem enterAll_cons (change : Change) (changes : List Change) (contributor : ResourceId)
    (merged : Json) (p : Provenance) :
    p.enterAll (change :: changes) contributor merged =
      (p.enter change contributor merged).enterAll changes contributor merged :=
  rfl

/-- Changing a record keeps the owner of every record above it. -/
theorem owner_alter_cons (f : Provenance → Provenance) (s : Segment) (path : Path)
    (p : Provenance) :
    (alter f (s :: path) p).owner = p.owner := by
  cases s <;> rfl

end Provenance

end ModularTemplates
