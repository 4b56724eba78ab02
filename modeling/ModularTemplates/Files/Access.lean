import ModularTemplates.Files.Location

/-!
# Access to files

Manifests and module documents are read through three questions about files. Whoever answers them
decides where the files are.
-/

namespace ModularTemplates

/-- Why a file can not be used. -/
inductive FileError where
  | notFound
  | notADirectory
  | isADirectory
  | nameTooLong
  | nulInPath
  | notText
  | other (message : String)
deriving DecidableEq, Repr

/-- The text of an error. -/
def FileError.message : FileError → String
  | .notFound => "No such file or directory (os error 2)"
  | .notADirectory => "Not a directory (os error 20)"
  | .isADirectory => "Is a directory (os error 21)"
  | .nameTooLong => "File name too long (os error 36)"
  | .nulInPath => "file name contained an unexpected NUL byte"
  | .notText => "stream did not contain valid UTF-8"
  | .other message => message

/-- The questions about files. -/
structure FileAccess (m : Type → Type) where
  /-- the place that a path leads to from a directory; it must exist -/
  locate : Location → String → ExceptT FileError m Location
  /-- the text of a file -/
  read : Location → ExceptT FileError m String
  /-- whether there is a directory at a place -/
  isDirectory : Location → m Bool

end ModularTemplates
