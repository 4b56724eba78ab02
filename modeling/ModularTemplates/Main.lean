import ModularTemplates.CommandLine.Run

/-!
# The program

The command line on the files of the machine.
-/

namespace ModularTemplates

/-- What went wrong with a file. -/
def fileErrorOf : IO.Error → FileError
  | .noFileOrDirectory .. => .notFound
  | e => .other (toString e)

/-- Ask the machine about a file. -/
def asking {α : Type} (question : IO α) : ExceptT FileError IO α := do
  match ← (question.toBaseIO : BaseIO _) with
  | .ok answer => return answer
  | .error e => throw (fileErrorOf e)

/-- The files of the machine. -/
def machineFiles : FileAccess IO where
  locate directory path := do
    let joined := if path.startsWith "/" then path else directory.display ++ "/" ++ path
    let found ← asking (IO.FS.realPath joined)
    return Location.top.follow found.toString
  read l := do
    let path ← asking (IO.FS.realPath l.display)
    if ← path.isDir then throw .isADirectory
    asking (IO.FS.readFile path)
  isDirectory l := do
    (← IO.FS.realPath l.display).isDir

end ModularTemplates

open ModularTemplates

/-- Carry out the arguments of the program. -/
def main (args : List String) : IO UInt32 := do
  let directory := Location.top.follow (← IO.currentDir).toString
  let outcome ← CommandLine.run machineFiles directory args
  (← IO.getStdout).putStr outcome.output
  (← IO.getStderr).putStr outcome.messages
  return outcome.exitCode.toUInt32
