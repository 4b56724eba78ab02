/-!
# File locations

A location is the place of a file or directory, given by the names that lead to it from the
topmost directory. A path is a text that leads from one location to another; its pieces are
separated by slashes.
-/

namespace ModularTemplates

/-- The names from the topmost directory on. -/
structure Location where
  names : List String
deriving DecidableEq, Repr

namespace Location

/-- The topmost directory. -/
def top : Location := ⟨[]⟩

/-- A place inside a directory. -/
def child (l : Location) (name : String) : Location :=
  ⟨l.names ++ [name]⟩

/-- The directory around a place; the topmost one lies in itself. -/
def parent (l : Location) : Location :=
  ⟨l.names.dropLast⟩

/-- The absolute path of a place. -/
def display (l : Location) : String :=
  "/" ++ "/".intercalate l.names

/-- What follows the last dot of the name, if the name does not begin with that dot. -/
def extension? (l : Location) : Option String := do
  let name ← l.names.getLast?
  let cs := name.toList.reverse
  match cs.dropWhile (· != '.') with
  | _ :: _ :: _ => some (String.ofList (cs.takeWhile (· != '.')).reverse)
  | _ => none

/-- Where a path starts that is followed from a directory, and its pieces. -/
def startOf (directory : Location) (path : String) : Location × List String :=
  (if path.startsWith "/" then top else directory, path.splitOn "/")

/-- Follow one piece of a path. -/
def step (l : Location) (piece : String) : Location :=
  if piece = "" ∨ piece = "." then l
  else if piece = ".." then l.parent
  else l.child piece

/-- Follow a path by its text alone. -/
def follow (directory : Location) (path : String) : Location :=
  let (start, pieces) := directory.startOf path
  pieces.foldl step start

@[simp] theorem names_child (l : Location) (name : String) :
    (l.child name).names = l.names ++ [name] := rfl

/-- A directory is around each of the places inside it. -/
@[simp] theorem parent_child (l : Location) (name : String) : (l.child name).parent = l := by
  simp [parent, child]

end Location

end ModularTemplates
