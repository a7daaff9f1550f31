-- SUMMARY: The command line program: the tool on the real files, streams and clock.
import Phrasebook.Command.Run

/-!
# The program

A host for the tool on the real world, and the entry point.
-/
namespace Phrasebook

/-! ## The real host -/

/-- The number of an error, which some functions of the runtime give negated. -/
def errorNumber (code : UInt32) : Nat :=
  if code.toNat < Nat.pow 2 31 then code.toNat else (-code).toNat

/-- The failure that an exception of the runtime stands for. -/
def FileFailure.ofIOError (error : IO.Error) : FileFailure :=
  match error with
  | .noFileOrDirectory .. => .notFound
  | .inappropriateType _ code _ | .invalidArgument _ code _ =>
    match errorNumber code with
    | 20 => .notDirectory
    | 21 => .isDirectory
    | 22 => .nulInName
    | 36 => .nameTooLong
    | _  => .other (toString error)
  | error => .other (toString error)

/-- Carry out an action and turn its exception into a failure. -/
def attempt (action : IO α) : IO (Except FileFailure α) := do
  match ← action.toBaseIO with
  | .ok value => return .ok value
  | .error error => return .error (.ofIOError error)

/-- The first number in the line that starts with a word. -/
def numberBehind? (word text : String) : Option Nat := do
  let line ← (text.splitOn "\n").find? fun line => line.startsWith (word ++ " ")
  (line.splitOn " ")[1]?.bind String.toNat?

/-- Milliseconds since 1970: when the machine started, and for how long it has been running. -/
def readClock : IO Nat := do
  let started := (numberBehind? "btime" (← IO.FS.readFile "/proc/stat")).getD 0
  let uptime := ((← IO.FS.readFile "/proc/uptime").splitOn ".").head?.bind String.toNat?
  return (started + uptime.getD 0) * 1000

/-- How many processors the machine has. -/
def countProcessors : IO Nat := do
  let lines := (← IO.FS.readFile "/proc/cpuinfo").splitOn "\n"
  return max 1 (lines.countP fun line => line.startsWith "processor")

instance : Host IO where
  exists? path := do
    match ← attempt (IO.FS.Handle.mk path.spelling .read) with
    | .ok _ => return true
    | .error _ => return false
  sizeOf path := do
    match ← attempt (IO.FS.readBinFile path.spelling) with
    | .ok content => return .ok content.size
    | .error .isDirectory => return .ok FileTree.directorySize
    | .error reason => return .error reason
  read path := attempt (IO.FS.readBinFile path.spelling)
  write path text := attempt (IO.FS.writeFile path.spelling text)
  append path text := attempt do
    let handle ← IO.FS.Handle.mk path.spelling .append
    handle.putStr text
    handle.flush
  print stream text := attempt do
    let stream ← match stream with
      | .output => IO.getStdout
      | .error => IO.getStderr
    stream.putStr text
    stream.flush
  clock := do
    match ← attempt readClock with
    | .ok time => return time
    | .error _ => return 0
  workers := do
    match ← attempt countProcessors with
    | .ok count => return count
    | .error _ => return 1
  concurrently actions := do
    let tasks ← actions.mapM fun action => IO.asTask action
    tasks.mapM fun task => return (← IO.wait task).toOption

/-! ## The entry point -/

/-- The environment variables of the process. -/
def readEnvironment : IO Environment := do
  return {
    language   := ← IO.getEnv Variable.language
    config     := ← IO.getEnv Variable.config
    sourceDate := ← IO.getEnv Variable.sourceDate }

/-- Run the tool with the arguments of the process. -/
def start (arguments : List String) : IO UInt32 := do
  let exit : Exit ← run "malformed text" (← readEnvironment) arguments
  return UInt32.ofNat exit.code

end Phrasebook

def main (arguments : List String) : IO UInt32 := Phrasebook.start arguments
