-- SUMMARY: Why a run of the tool fails, what it says then, and how it exits.
import Phrasebook.Catalog.Location
import Phrasebook.Command.Host
import Phrasebook.Command.Phrase
import Phrasebook.Config.Reading

/-!
# Failures of a run

A failure names its cause. `Failure.message` words it in the language of the session. A text that
cannot be parsed is only said to be so: the words for what is wrong with it are the complaint of
the session.
-/
namespace Phrasebook

/-! ## Sessions -/

/-- How a run speaks. -/
structure Session where
  locale    : Locale := .english
  /-- What is said to be wrong with a malformed text. -/
  complaint : String

/-- What a phrase says in the language of the session. -/
def Session.say (session : Session) (phrase : Phrase) (values : Phrase.Arguments) : String :=
  phrase.say session.locale values

/-! ## Exits -/

/-- How a run ends. -/
inductive Exit where
  | success
  | failure
  /-- The command line was not understood. -/
  | usage
  /-- The run broke off at something that it cannot express. -/
  | crash
deriving DecidableEq, Repr

/-- The exit code of the process. -/
def Exit.code : Exit → Nat
  | .success => 0
  | .failure => 1
  | .usage   => 2
  | .crash   => 101

/-! ## Causes -/

/-- What an input file holds. -/
inductive InputKind where
  | document
  | slots
  | expressions
deriving DecidableEq, Repr

def InputKind.phrase : InputKind → Phrase
  | .document    => .document
  | .slots       => .slots
  | .expressions => .expressions

def Stream.phrase : Stream → Phrase
  | .output => .outputStream
  | .error  => .errorStream

namespace Variable

/-- The environment variable for the language. -/
def language : String := "MARKUP_MSG_LANG"

/-- The environment variable for the path of the configuration. -/
def config : String := "MARKUP_MSG_CONFIG"

/-- The environment variable for the creation date, in Unix seconds. -/
def sourceDate : String := "SOURCE_DATE_EPOCH"

end Variable

inductive Failure where
  /-- The language in the environment is unknown. -/
  | badLanguage (value : String)
  | cannotPrint (stream : Stream) (reason : FileFailure)
  | cannotLoadConfig (error : ConfigError)
  | badCreationDate (value : String)
  /-- The creation date in the environment is malformed. -/
  | badSourceDate (value : String)
  /-- The creation date lies beyond the years that a header can show. -/
  | noUtcForm
  /-- The audit log at a path, as configured, cannot be opened. -/
  | cannotOpenAudit (path : String) (reason : FileFailure)
  | cannotRead (kind : InputKind) (path : Path) (reason : FileFailure)
  | tooLarge (kind : InputKind) (path : Path) (size limit : Nat)
  | malformed (kind : InputKind) (path : Path)
  | cannotScan (error : LocatedError)
  /-- A worker stopped unexpectedly. -/
  | workerFailed
  /-- Further workers stopped unexpectedly, which nobody waited for. -/
  | workersFailed
  | cannotWriteCatalog (path : Path) (reason : FileFailure)
  | cannotRender (error : TemplateError)
deriving DecidableEq, Repr

namespace Failure

/-- The values of the slots that name an input. -/
def inputValues (session : Session) (kind : InputKind) (path : Path) : Phrase.Arguments :=
  [("kind", session.say kind.phrase []), ("path", path.spelling)]

/-- The wording shown to users. -/
def message (session : Session) : Failure → String
  | .badLanguage value =>
    session.say .badLanguage [("env", Variable.language), ("value", value)]
  | .cannotPrint stream reason =>
    session.say .cannotPrint
      [("stream", session.say stream.phrase []), ("error", reason.message)]
  | .cannotLoadConfig error =>
    session.say .cannotLoadConfig [("error", error.message session.complaint)]
  | .badCreationDate value =>
    session.say .badCreationDate [("value", value), ("error", session.complaint)]
  | .badSourceDate value =>
    session.say .badSourceDate [("env", Variable.sourceDate), ("value", value)]
  | .noUtcForm => "the creation date has no UTC form within the years up to 9999"
  | .cannotOpenAudit path reason =>
    session.say .cannotOpenAudit [("path", path), ("error", reason.message)]
  | .cannotRead kind path reason =>
    session.say .cannotRead (inputValues session kind path ++ [("error", reason.message)])
  | .tooLarge kind path size limit =>
    session.say .inputTooLarge
      (inputValues session kind path ++ [("size", toString size), ("limit", toString limit)])
  | .malformed kind path =>
    session.say .inputMalformed (inputValues session kind path ++ [("error", session.complaint)])
  | .cannotScan error => session.say .scanFailed [("error", error.message)]
  | .workerFailed => session.say .workerFailed []
  | .workersFailed => "several extraction workers stopped unexpectedly"
  | .cannotWriteCatalog path reason =>
    session.say .cannotWriteCatalog [("path", path.spelling), ("error", reason.message)]
  | .cannotRender error => session.say .cannotRender [("error", error.message)]

/-- How a run ends with the failure. -/
def exit : Failure → Exit
  | .noUtcForm | .workersFailed => .crash
  | _ => .failure

end Failure

/-! ## Actions -/

/-- A part of a run, which may fail. -/
abbrev Action (m : Type → Type) := ExceptT Failure m

variable {m : Type → Type} [Monad m] [Host m]

/-- Print a text. -/
def printText (stream : Stream) (text : String) : Action m Unit := do
  match ← Host.print stream text with
  | .ok () => return
  | .error reason => throw (.cannotPrint stream reason)

/-- Print a line. -/
def printLine (stream : Stream) (line : String) : Action m Unit := printText stream (line ++ "\n")

end Phrasebook
