-- SUMMARY: Options, operands and subcommands on a command line.

/-!
# Command lines

A command line is read in levels. Each level knows its flags, its options with a value, and either
its subcommands or whether it takes operands; a subcommand opens the next level, which gets the
rest of the line.

A value may follow its option as `--option=value` or as the next argument, which then must not look
like an option itself. No option may repeat within a level. Behind `--` everything is an operand.
-/
namespace Phrasebook

/-! ## Levels -/

/-- What a level of the command line knows. -/
structure Level where
  flags         : List String := []
  /-- Options that take a value. -/
  options       : List String := []
  /-- Names that open the next level. -/
  subcommands   : List String := []
  takesOperands : Bool := false

/-- Why a command line cannot be understood. -/
inductive UsageError where
  /-- Help was asked for, which ends the reading. -/
  | helpWanted
  | unknownOption (name : String)
  | repeated (name : String)
  | missingValue (name : String)
  | unexpectedValue (name : String)
  | invalidValue (name value : String)
  | unexpected (argument : String)
  | missing (name : String)
deriving DecidableEq, Repr

def UsageError.message : UsageError → String
  | .helpWanted => "help wanted"
  | .unknownOption name => s!"unknown option {name}"
  | .repeated name => s!"option --{name} given more than once"
  | .missingValue name => s!"option --{name} needs a value"
  | .unexpectedValue name => s!"option --{name} takes no value"
  | .invalidValue name value => s!"invalid value for {name}: {value}"
  | .unexpected argument => s!"unexpected argument {argument}"
  | .missing name => s!"missing argument {name}"

/-- What was found on a level. -/
structure Found where
  flags    : List String := []
  values   : List (String × String) := []
  operands : List String := []

/-- A subcommand and the arguments behind it. -/
abbrev Continuation := Option (String × List String)

/-! ## Arguments -/

/-- What an argument looks like. -/
inductive Shape where
  /-- The end of all options. -/
  | terminator
  /-- `--name` or `--name=value`. -/
  | long (name : String) (value : Option String)
  /-- Any other argument that starts with a minus, unless it is only that. -/
  | short (name : String)
  | operand
deriving DecidableEq, Repr

/-- The shape of an argument. -/
def shapeOf (argument : String) : Shape :=
  match argument.toList with
  | ['-', '-'] => .terminator
  | '-' :: '-' :: cs =>
    let name := String.ofList (cs.takeWhile (· != '='))
    match cs.dropWhile (· != '=') with
    | [] => .long name none
    | _ :: value => .long name (some (String.ofList value))
  | '-' :: _ :: _ => .short argument
  | _ => .operand

/-! ## Reading a level -/

namespace Level

/-- Note a flag. -/
def noteFlag (found : Found) (name : String) : Except UsageError Found :=
  if found.flags.contains name then .error (.repeated name)
  else .ok { found with flags := name :: found.flags }

/-- Note an option with its value. -/
def noteValue (found : Found) (name value : String) : Except UsageError Found :=
  if (found.values.lookup name).isSome then .error (.repeated name)
  else .ok { found with values := (name, value) :: found.values }

/-- Note an operand. -/
def noteOperand (level : Level) (found : Found) (argument : String) : Except UsageError Found :=
  if level.takesOperands then .ok { found with operands := found.operands ++ [argument] }
  else .error (.unexpected argument)

/-- Read the arguments of a level up to a subcommand or to the end. `ended` says that no options
may follow. -/
def readFrom (level : Level) (found : Found) (ended : Bool) :
    List String → Except UsageError (Found × Continuation)
  | [] => .ok (found, none)
  | argument :: arguments =>
    match if ended then .operand else shapeOf argument with
    | .terminator => level.readFrom found true arguments
    | .short "-h" | .long "help" none => .error .helpWanted
    | .short name => .error (.unknownOption name)
    | .operand =>
      if !ended ∧ level.subcommands.contains argument then .ok (found, some (argument, arguments))
      else do
        let found ← level.noteOperand found argument
        level.readFrom found ended arguments
    | .long name none =>
      if level.flags.contains name then do
        let found ← noteFlag found name
        level.readFrom found ended arguments
      else if level.options.contains name then
        match arguments with
        | [] => .error (.missingValue name)
        | value :: arguments =>
          if shapeOf value = .operand then do
            let found ← noteValue found name value
            level.readFrom found ended arguments
          else .error (.missingValue name)
      else .error (.unknownOption name)
    | .long name (some value) =>
      if level.options.contains name then do
        let found ← noteValue found name value
        level.readFrom found ended arguments
      else if level.flags.contains name then .error (.unexpectedValue name)
      else .error (.unknownOption name)

/-- Read the arguments of a level. -/
def read (level : Level) (arguments : List String) : Except UsageError (Found × Continuation) :=
  level.readFrom {} false arguments

end Level

/-! ## Values -/

namespace Found

def hasFlag (found : Found) (name : String) : Bool := found.flags.contains name

/-- The value of an option. -/
def value? (found : Found) (name : String) : Option String := found.values.lookup name

/-- The value of an option, read by `read`. -/
def valueAs (found : Found) (name : String) (read : String → Option α) :
    Except UsageError (Option α) :=
  match found.value? name with
  | none => .ok none
  | some text =>
    match read text with
    | some value => .ok (some value)
    | none => .error (.invalidValue name text)

end Found

/-- Something that must have been given. -/
def demand (name : String) (value : Option α) : Except UsageError α :=
  match value with
  | some value => .ok value
  | none => .error (.missing name)

end Phrasebook
