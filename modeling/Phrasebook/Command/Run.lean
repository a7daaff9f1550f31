-- SUMMARY: The remaining commands, and a whole run of the tool from its command line on.
import Phrasebook.Command.Extract
import Phrasebook.Config.Example
import Phrasebook.Template.Fill

/-!
# Runs

`run` takes a command line and an environment, does what is asked for on any host, and says how the
run ends. The language is settled first, since all else is said in it.
-/
namespace Phrasebook

open Template

variable {m : Type → Type} [Monad m] [Host m]

/-! ## Rendering -/

/-- The greatest size of the input files of a rendering, in bytes. -/
def maxRenderBytes : Nat := 1024 * 1024

/-- A value as text: a string as it is, null as nothing, all else as JSON with sorted members. -/
def expressionText : Json.Value → String
  | .string text => text
  | .null => ""
  | value => value.sorted.compact

/-- The values of placeholders; of two for one name the later counts. -/
def decodeExpressions (value : Json.Value) : Option (List (String × Json.Value)) :=
  match value with
  | .object members => if value.isIntact then some members.reverse else none
  | _ => none

/-- Render a template with the slots and values from files. -/
def RenderRequest.run (request : RenderRequest) : Action m Exit := do
  let slots ← loadInput .slots request.slots maxRenderBytes
    (Json.Decode.list Markup.Element.ofJson?)
  let values ← match request.expressions with
    | some path => loadInput .expressions path maxRenderBytes decodeExpressions
    | none => pure []
  let resolve : Resolver := fun name => (values.lookup name).map expressionText
  match renderTemplate request.template slots resolve with
  | .ok element =>
    printLine .output element.toJson.pretty
    return .success
  | .error error => throw (.cannotRender error)

/-! ## Checking -/

/-- What is said about a template. -/
def verdict (session : Session) (template : String) : String :=
  match parse template with
  | .ok _ => session.say .templateFine [("template", template)]
  | .error error =>
    session.say .templateMalformed [("template", template), ("error", error.message)]

/-- The template cannot be parsed. -/
def isMalformed (template : String) : Bool := !(parse template).isOk

/-- Say of every template whether it is well formed, and succeed if all are. -/
def checkTemplates (session : Session) (templates : List String) : Action m Exit := do
  templates.forM fun template => printLine .output (verdict session template)
  let failed := templates.countP isMalformed
  if failed = 0 then return .success
  printLine .error
    (session.say .checkSummary
      [("failed", toString failed), ("total", toString templates.length)])
  return .failure

/-! ## Dispatch -/

/-- The version of the tool. -/
def version : String := "0.1.0"

/-- The help text. -/
def helpLines : List String :=
  ["Top-level CLI definition",
   "",
   "Usage: markup-msg [OPTIONS] [COMMAND]",
   "",
   "Commands:",
   "  extract  Scan markup documents and write a message catalog",
   "  render   Render a template against slot elements and print the result",
   "  check    Report syntax errors in templates",
   "  config   Configuration utilities",
   "",
   "Options:",
   "      --version        Print version information and exit",
   "      --lang <LANG>    Preferred output language (overrides `MARKUP_MSG_LANG`) " ++
     "[possible values: en, ca]",
   "      --config <PATH>  Config file path (defaults to markup-msg.toml or " ++
     "`MARKUP_MSG_CONFIG`)",
   "  -h, --help           Print help (see more with '--help')"]

/-- Print the help text. -/
def showHelp : Action m Exit := do
  helpLines.forM (printLine .output)
  return .success

def Command.run (session : Session) (environment : Environment) (config : Option Path) :
    Command → Action m Exit
  | .extract request => request.run session environment config
  | .render request => request.run
  | .check templates => checkTemplates session templates
  | .validateConfig => do
    let _ ← loadSettings environment config
    printLine .output (session.say .configValid [])
    return .success
  | .showExample => do
    printText .output Settings.exampleText
    return .success

/-- Do what a request asks for. -/
def Request.run (session : Session) (environment : Environment) (request : Request) :
    Action m Exit := do
  if session.locale ≠ .english then printLine .error (session.say .disclaimer [])
  if request.shared.version then
    printLine .output (session.say .version [("version", version)])
    return .success
  match request.command with
  | some command => command.run session environment request.shared.config
  | none =>
    let exit ← showHelp
    printLine .output ""
    return exit

/-! ## Runs -/

/-- The language of a run: the one given, or else the one in the environment. -/
def resolveLocale (given : Option Locale) (environment : Environment) : Except Failure Locale :=
  match given, environment.language with
  | some locale, _ => .ok locale
  | none, none => .ok .english
  | none, some text =>
    match Locale.ofText? text with
    | some locale => .ok locale
    | none => .error (.badLanguage text)

/-- Say what went wrong, if it can still be said. -/
def report (session : Session) (failure : Failure) : m Exit := do
  discard (Host.print .error (failure.message session ++ "\n"))
  return failure.exit

/-- End an action that may fail. -/
def conclude (session : Session) (action : Action m Exit) : m Exit := do
  match ← action.run with
  | .ok exit => return exit
  | .error failure => report session failure

/-- Run the tool. `complaint` is what is said to be wrong with a text that cannot be parsed. -/
def run (complaint : String) (environment : Environment) (arguments : List String) : m Exit := do
  match Request.ofArguments arguments with
  | .error .helpWanted => conclude { complaint } showHelp
  | .error error =>
    discard (Host.print .error ("error: " ++ error.message ++ "\n"))
    return .usage
  | .ok request =>
    match resolveLocale request.shared.language environment with
    | .error failure => report { complaint } failure
    | .ok locale =>
      let session : Session := { locale, complaint }
      conclude session (request.run session environment)

end Phrasebook
