-- SUMMARY: What the tool can be asked to do, and how a command line asks for it.
import Phrasebook.Command.Arguments
import Phrasebook.Command.Locale
import Phrasebook.Config.Settings

/-!
# Requests

A request is a command with the settings that hold for every command. Those may be given on every
level of the command line; where a level repeats one, the innermost level counts.
-/
namespace Phrasebook

/-! ## Commands -/

/-- Scan documents and write a catalog. -/
structure ExtractRequest where
  /-- Goes before the format of the configuration. -/
  format       : Option CatalogFormat := none
  /-- Where the catalog goes. Without it, the catalog is printed. -/
  output       : Option Path := none
  /-- A timestamp. -/
  creationDate : Option String := none
  inputs       : List Path

/-- Fill a template from files. -/
structure RenderRequest where
  template    : String
  slots       : Path
  expressions : Option Path := none

inductive Command where
  | extract (request : ExtractRequest)
  | render (request : RenderRequest)
  /-- Report which templates are malformed. -/
  | check (templates : List String)
  /-- Check the configuration. -/
  | validateConfig
  /-- Print the example configuration. -/
  | showExample

/-! ## Shared settings -/

/-- What may be given with every command. -/
structure SharedOptions where
  /-- Print the version and do nothing else. -/
  version  : Bool := false
  language : Option Locale := none
  config   : Option Path := none

/-- The settings of a level, and those of the levels around it for the rest. -/
def SharedOptions.over (inner outer : SharedOptions) : SharedOptions where
  version  := inner.version || outer.version
  language := inner.language <|> outer.language
  config   := inner.config <|> outer.config

structure Request where
  shared  : SharedOptions
  /-- Without a command, the tool shows its help. -/
  command : Option Command

/-! ## Reading -/

namespace Request

/-- Reads the arguments from some level on. -/
abbrev Reader := List String → Except UsageError Request

/-- A level with the shared options and its own. -/
def level (options subcommands : List String) (takesOperands : Bool) : Level where
  flags         := ["version"]
  options       := ["lang", "config"] ++ options
  subcommands   := subcommands
  takesOperands := takesOperands

/-- A path must not be empty. -/
def path? (text : String) : Option Path := if text.isEmpty then none else some ⟨text⟩

/-- The shared options of a level. -/
def sharedOptions (found : Found) : Except UsageError SharedOptions := do
  return {
    version  := found.hasFlag "version"
    language := ← found.valueAs "lang" fun code => List.lookup code Locale.codes
    config   := ← found.valueAs "config" path? }

/-- Operands of which there must be one at least. -/
def operands (name : String) (found : Found) (read : String → Option α) :
    Except UsageError (List α) :=
  match found.operands with
  | [] => .error (.missing name)
  | texts => texts.mapM fun text => demand name (read text)

/-- The last level of a command line, from which the command is read. -/
def ofLeaf (level : Level) (command : Found → Except UsageError Command) : Reader :=
  fun arguments => do
    let (found, _) ← level.read arguments
    return { shared := ← sharedOptions found, command := some (← command found) }

/-- A level that chooses between commands; `absent` stands for the case that none is chosen. -/
def ofGroup (commands : List (String × Reader)) (absent : Except UsageError (Option Command)) :
    Reader := fun arguments => do
  let (found, next) ← (level [] (commands.map Prod.fst) false).read arguments
  let outer ← sharedOptions found
  match next with
  | none => return { shared := outer, command := ← absent }
  | some (name, rest) =>
    let inner ← (← demand name (commands.lookup name)) rest
    return { inner with shared := inner.shared.over outer }

def ofExtractArguments : Reader :=
  ofLeaf (level ["format", "output", "creation-date"] [] true) fun found => do
    return .extract {
      format       := ← found.valueAs "format" fun name => List.lookup name CatalogFormat.names
      output       := ← found.valueAs "output" path?
      creationDate := found.value? "creation-date"
      inputs       := ← operands "FILE" found path? }

def ofRenderArguments : Reader :=
  ofLeaf (level ["template", "slots", "expressions"] [] false) fun found => do
    return .render {
      template    := ← demand "template" (found.value? "template")
      slots       := ← demand "slots" (← found.valueAs "slots" path?)
      expressions := ← found.valueAs "expressions" path? }

def ofCheckArguments : Reader :=
  ofLeaf (level [] [] true) fun found => do
    return .check (← operands "TEMPLATE" found some)

def ofConfigArguments : Reader :=
  ofGroup
    [("validate", ofLeaf (level [] [] false) fun _ => .ok .validateConfig),
     ("example", ofLeaf (level [] [] false) fun _ => .ok .showExample)]
    (.error (.missing "COMMAND"))

/-- The request that a command line makes. -/
def ofArguments : Reader :=
  ofGroup
    [("extract", ofExtractArguments), ("render", ofRenderArguments),
     ("check", ofCheckArguments), ("config", ofConfigArguments)]
    (.ok none)

end Request

end Phrasebook
