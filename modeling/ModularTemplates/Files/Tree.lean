import ModularTemplates.Fields
import ModularTemplates.Files.Access

/-!
# File trees

A tree of directories with files in them, without links. Every step of a path must start at a
directory.
-/

namespace ModularTemplates

/-- A file with its text, or a directory. -/
inductive FileTree where
  | file (text : String)
  | directory (entries : List (String × FileTree))

namespace FileTree

/-- A directory without entries. -/
def empty : FileTree := .directory []

/-- The entries of a directory. -/
def entries : FileTree → Fields FileTree
  | .directory entries => entries
  | .file _ => []

/-- What stands at a place. -/
def at? (tree : FileTree) : List String → Option FileTree
  | [] => some tree
  | name :: names => (tree.entries.get? name).bind fun inner => inner.at? names

/-- Put a file at a place; missing directories are made. -/
def put (text : String) : List String → FileTree → FileTree
  | [], _ => .file text
  | name :: names, tree =>
    .directory (tree.entries.set name (put text names ((tree.entries.get? name).getD empty)))

/-- Make a directory at a place, if there is nothing. -/
def makeDirectory : List String → FileTree → FileTree
  | [], tree => tree
  | name :: names, tree =>
    .directory (tree.entries.set name (makeDirectory names ((tree.entries.get? name).getD empty)))

/-- The greatest number of bytes in a name. -/
def nameLimit : Nat := 255

/-- Follow the pieces of a path. -/
def walk (tree : FileTree) (l : Location) : List String → Except FileError Location
  | [] => .ok l
  | piece :: pieces =>
    let next := l.step piece
    match tree.at? l.names with
    | some (.directory _) =>
      if nameLimit < piece.utf8ByteSize then .error .nameTooLong
      else if (tree.at? next.names).isSome then tree.walk next pieces
      else .error .notFound
    | some (.file _) => .error .notADirectory
    | none => .error .notFound

/-- The place that a path leads to. -/
def locate (tree : FileTree) (directory : Location) (path : String) : Except FileError Location :=
  let (start, pieces) := directory.startOf path
  if path.toList.contains '\x00' then .error .nulInPath else tree.walk start pieces

/-- The text of a file. -/
def read (tree : FileTree) (l : Location) : Except FileError String :=
  match tree.at? l.names with
  | some (.file text) => .ok text
  | some (.directory _) => .error .isADirectory
  | none => .error .notFound

/-- The answers of a tree to all questions about files. -/
def access (tree : FileTree) : FileAccess Id where
  locate directory path := tree.locate directory path
  read := tree.read
  isDirectory l :=
    match tree.at? l.names with
    | some (.directory _) => true
    | _ => false

@[simp] theorem at?_nil (tree : FileTree) : tree.at? [] = some tree := rfl

/-- A file that was put somewhere can be read there. -/
@[simp] theorem at?_put (text : String) (names : List String) (tree : FileTree) :
    (put text names tree).at? names = some (.file text) := by
  induction names generalizing tree with
  | nil => rfl
  | cons name names ih => simp [put, at?, entries, ih]

end FileTree

end ModularTemplates
