-- SUMMARY: Loading the configuration, the creation date, and the input files of a run.
import Phrasebook.Calendar.Timestamp
import Phrasebook.Command.Failure
import Phrasebook.Json.Decode
import Phrasebook.Json.Reader

/-!
# Inputs of a run

Where a run finds what it is not told on the command line, and how it reads files within limits.
-/
namespace Phrasebook

/-- The environment variables that a run looks at. -/
structure Environment where
  language   : Option String := none
  config     : Option String := none
  sourceDate : Option String := none

variable {m : Type → Type} [Monad m] [Host m]

/-! ## Configuration -/

/-- The configuration file that is read if no other is named. -/
def defaultConfigPath : Path := ⟨"markup-msg.toml"⟩

/-- The path of a configuration file meets the limits on paths. -/
def checkConfigPath (path : Path) : Except Violation Unit := do
  refuseIf (path.size > Path.maxSize) .filePathTooLong
  refuseIf path.hasLongComponent .filePathComponentTooLong

/-- The path of the configuration: the one given, or else the one in the environment. -/
def configPath? (environment : Environment) (given : Option Path) : Option Path :=
  given <|> environment.config.map fun spelling => ⟨spelling⟩

/-- Load the settings. Only a missing file that nobody named stands for the defaults. -/
def loadSettings (environment : Environment) (given : Option Path) : Action m Settings := do
  let named := configPath? environment given
  let path := named.getD defaultConfigPath
  if let .error violation := checkConfigPath path then
    throw (.cannotLoadConfig (.invalid violation))
  if named.isNone then
    if !(← Host.exists? path) then return {}
  match ← Host.read path with
  | .error reason => throw (.cannotLoadConfig (.unreadable reason.message))
  | .ok bytes =>
    match Settings.ofBytes bytes with
    | .error error => throw (.cannotLoadConfig error)
    | .ok settings => return settings

/-! ## Creation date -/

/-- The creation date: the timestamp given, or else the one in the environment, or else now. -/
def creationMoment (environment : Environment) (given : Option String) : Action m Moment := do
  match given, environment.sourceDate with
  | some text, _ =>
    match Moment.ofTimestamp? text with
    | some moment => return moment
    | none => throw (.badCreationDate text)
  | none, some text =>
    match Moment.ofUnixText? text with
    | some moment => return moment
    | none => throw (.badSourceDate text)
  | none, none => return { wall := (← Host.clock) / 1000, offset := 0 }

/-! ## Files -/

/-- Read a file of at most `limit` bytes. -/
def readInput (kind : InputKind) (path : Path) (limit : Nat) : m (Except Failure ByteArray) := do
  match ← Host.sizeOf path with
  | .error reason => return .error (.cannotRead kind path reason)
  | .ok size =>
    if size > limit then return .error (.tooLarge kind path size limit)
    match ← Host.read path with
    | .error reason => return .error (.cannotRead kind path reason)
    | .ok bytes =>
      if bytes.size > limit then return .error (.tooLarge kind path (limit + 1) limit)
      return .ok bytes

/-- Decode the content of a file. -/
def decodeInput (kind : InputKind) (path : Path) (decode : Json.Decoder α) (bytes : ByteArray) :
    Except Failure α :=
  match (Json.Value.ofBytes? bytes).bind decode with
  | some value => .ok value
  | none => .error (.malformed kind path)

/-- Read and decode a file of at most `limit` bytes. -/
def loadInput (kind : InputKind) (path : Path) (limit : Nat) (decode : Json.Decoder α) :
    Action m α := do
  match ← readInput kind path limit with
  | .error failure => throw failure
  | .ok bytes => ExceptT.mk (pure (decodeInput kind path decode bytes))

end Phrasebook
