/-!
# Command-line arguments

Arguments are read level by level: the options and operands of a level come before the name of a
command, and the rest belongs to the level of that command. Every option has a short and a long name
and takes a value.
-/

namespace ModularTemplates

namespace CommandLine

/-- An option with a value. -/
structure OptionSpec where
  short : Char
  long : String
  repeatable : Bool
  accepts : String → Bool

/-- What may stand at a level. -/
structure Level where
  options : List OptionSpec
  commands : List String
  operandLimit : Nat
  /-- whether the version may be asked for -/
  hasVersion : Bool

/-- What was given at a level. -/
structure Given where
  /-- values under the long names of their options -/
  values : List (String × String)
  operands : List String
  asksVersion : Bool
  /-- the command of the next level and its arguments -/
  next : Option (String × List String)

/-- An argument by its outer form. -/
inductive Word where
  | endOfOptions
  | short (name : Char) (attached : Option String)
  | long (name : String) (attached : Option String)
  | operand (text : String)
deriving DecidableEq, Repr

/-- The outer form of an argument. A value may be attached to an option behind an equals sign, to a
short one also directly. -/
def Word.of (arg : String) : Word :=
  match arg.toList with
  | ['-', '-'] => .endOfOptions
  | '-' :: '-' :: cs =>
    let name := String.ofList (cs.takeWhile (· != '='))
    match cs.dropWhile (· != '=') with
    | [] => .long name none
    | _ :: value => .long name (some (String.ofList value))
  | '-' :: c :: cs =>
    .short c (match cs with
      | [] => none
      | '=' :: value => some (String.ofList value)
      | value => some (String.ofList value))
  | _ => .operand arg

namespace Given

/-- Nothing is given. -/
def nothing : Given := ⟨[], [], false, none⟩

/-- The values of an option. -/
def valuesOf (given : Given) (long : String) : List String :=
  (given.values.filter (·.1 == long)).map (·.2)

/-- Give a value to an option that accepts it. -/
def addValue (given : Given) (o : OptionSpec) (value : String) : Option Given :=
  if !o.accepts value || (!o.repeatable && !(given.valuesOf o.long).isEmpty) then none
  else some { given with values := given.values ++ [(o.long, value)] }

end Given

namespace Level

/-- Give an operand, if there may be a further one. -/
def addOperand (level : Level) (given : Given) (text : String) : Option Given :=
  if given.operands.length < level.operandLimit then
    some { given with operands := given.operands ++ [text] }
  else none

/-- Whether an option asks for the version. -/
def isVersion (level : Level) : Word → Bool
  | .short 'V' _ => level.hasVersion
  | .long "version" none => level.hasVersion
  | _ => false

/-- The option of a word and the value that is attached to it. -/
def option? (level : Level) : Word → Option (OptionSpec × Option String)
  | .short name attached => (level.options.find? (·.short == name)).map (·, attached)
  | .long name attached => (level.options.find? (·.long == name)).map (·, attached)
  | _ => none

/-- Read the arguments of a level, and leave those of the next one. Behind the end of options
everything is an operand. -/
def read (level : Level) : (onlyOperands : Bool) → Given → List String → Option Given
  | _, given, [] => some given
  | true, given, arg :: rest => do read level true (← level.addOperand given arg) rest
  | false, given, arg :: rest =>
    let word := Word.of arg
    if level.commands.contains arg then some { given with next := some (arg, rest) }
    else if level.isVersion word then some { given with asksVersion := true }
    else match word with
      | .endOfOptions => read level true given rest
      | .operand text => do read level false (← level.addOperand given text) rest
      | word => do
        match ← level.option? word with
        | (o, some value) => read level false (← given.addValue o value) rest
        | (o, none) =>
          match rest with
          | [] => none
          | value :: rest =>
            match Word.of value with
            | .operand _ => read level false (← given.addValue o value) rest
            | _ => none

end Level

end CommandLine

end ModularTemplates
