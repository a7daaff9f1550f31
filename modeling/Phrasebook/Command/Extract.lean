-- SUMMARY: The command that scans markup documents and writes their catalog.
import Phrasebook.Catalog.Json
import Phrasebook.Catalog.Po
import Phrasebook.Command.Audit
import Phrasebook.Command.Batches
import Phrasebook.Command.Input
import Phrasebook.Command.Request
import Phrasebook.Json.Printer
import Phrasebook.Markup.Json

/-!
# Extracting a catalog

The documents are sorted by their paths, and read and scanned in batches. Then, unit by unit, what
became of each is recorded; only if no unit failed is the catalog merged and written.
-/
namespace Phrasebook

variable {m : Type → Type} [Monad m] [Host m]

/-! ## Units -/

/-- Why a unit has no catalog. -/
inductive UnitFailure where
  /-- It could not be read or decoded. -/
  | input (failure : Failure)
  /-- A message could not be extracted. -/
  | scan (error : LocatedError)

/-- The failure of the run that comes of it. -/
def UnitFailure.toFailure : UnitFailure → Failure
  | .input failure => failure
  | .scan error    => .cannotScan error

/-- What became of a unit, which is named by its path. -/
structure UnitOutcome where
  unit   : String
  result : Except UnitFailure Report

/-- Decode and scan what was read from a path. -/
def scanInput (options : ScanOptions) (path : Path) (content : Except Failure ByteArray) :
    UnitOutcome where
  unit   := path.spelling
  result := do
    let bytes ← content.mapError .input
    let document ← (decodeInput .document path Markup.Document.ofJson? bytes).mapError .input
    (scan path.spelling document.nodes options).mapError .scan

/-- Read a document and scan it. -/
def scanFile (settings : ExtractSettings) (path : Path) : m UnitOutcome := do
  return scanInput settings.toScanOptions path (← readInput .document path settings.maxInputBytes)

/-- Put the outcomes of all batches one behind the other. One worker that stopped fails the run, and
several break it off. -/
def joinBatches (batches : List (Option (List UnitOutcome))) : Except Failure (List UnitOutcome) :=
  match batches.countP Option.isNone with
  | 0 => .ok (batches.filterMap id).flatten
  | 1 => .error .workerFailed
  | _ => .error .workersFailed

/-- Read and scan documents in batches, which keeps their order. -/
def scanInputs (settings : ExtractSettings) (paths : List Path) : Action m (List UnitOutcome) :=
  ExceptT.mk do return joinBatches (← Batches.run (scanFile settings) paths)

/-! ## Audit -/

/-- Where audit events go. -/
inductive AuditSink where
  | nowhere
  | stream
  | file (path : Path)

/-- Open the sink that the settings ask for. -/
def openAudit (settings : AuditSettings) : Action m AuditSink := do
  if !settings.enabled then return .nowhere
  match settings.logPath with
  | none => return .stream
  | some path =>
    match ← Host.append path "" with
    | .ok () => return .file path
    | .error reason => throw (.cannotOpenAudit (settings.path.getD "") reason)

/-- Record an event. A sink that fails to take it is passed over. -/
def AuditSink.record (sink : AuditSink) (event : AuditEvent) : m Unit := do
  match sink with
  | .nowhere => return
  | .stream => discard (Host.print .error (event.line (← Host.clock) ++ "\n"))
  | .file path => discard (Host.append path (event.line (← Host.clock) ++ "\n"))

/-- The event for a unit that failed. -/
def UnitFailure.event (session : Session) (unit : String) : UnitFailure → AuditEvent
  | .input failure => .unreadable unit (some (failure.message session))
  | .scan error    => .located unit .failed error

/-- The event that ends the record of a unit. -/
def UnitOutcome.event (session : Session) (outcome : UnitOutcome) : AuditEvent :=
  match outcome.result with
  | .ok report     => .scanned outcome.unit report.catalog.size
  | .error failure => failure.event session outcome.unit

/-- Record a dropped message and tell the user. -/
def recordSkipped (session : Session) (sink : AuditSink) (unit : String) (error : LocatedError) :
    Action m Unit := do
  sink.record (.located unit .skipped error)
  printLine .error (session.say .skipped [("error", error.message)])

/-- Record what became of a unit: its dropped messages and then the unit itself. -/
def recordUnit (session : Session) (sink : AuditSink) (outcome : UnitOutcome) :
    Action m (Except Failure UnitCatalog) := do
  if let .ok report := outcome.result then
    report.diagnostics.forM (recordSkipped session sink outcome.unit)
  sink.record (outcome.event session)
  return (outcome.result.map Report.toUnitCatalog).mapError UnitFailure.toFailure

/-- Record what became of all units. The first failure counts, once everything is recorded. -/
def collectUnits (session : Session) (sink : AuditSink) (outcomes : List UnitOutcome) :
    Action m (List UnitCatalog) := do
  let results ← outcomes.mapM (recordUnit session sink)
  ExceptT.mk (pure (results.mapM id))

/-! ## The command -/

/-- The text of a catalog file. -/
def CatalogDocument.toText (document : CatalogDocument) : CatalogFormat → String
  | .po   => document.toPo
  | .json => document.toJson.pretty ++ "\n"

/-- Write the catalog of `size` messages where the request wants it. -/
def writeCatalog (session : Session) (output : Option Path) (text : String) (size : Nat) :
    Action m Unit := do
  match output with
  | none => printText .output text
  | some path =>
    if let .error reason ← Host.write path text then throw (.cannotWriteCatalog path reason)
    printLine .output
      (session.say .catalogWritten [("count", toString size), ("path", path.spelling)])

/-- Extract a catalog. -/
def ExtractRequest.run (session : Session) (environment : Environment) (config : Option Path)
    (request : ExtractRequest) : Action m Exit := do
  let settings ← loadSettings environment config
  let created ← creationMoment environment request.creationDate
  let sink ← openAudit settings.audit
  let outcomes ← scanInputs settings.extract (Path.sortedDistinct request.inputs)
  let units ← collectUnits session sink outcomes
  let catalog := mergeUnits settings.catalog.commentPolicy units
  let some header := Header.ofMoment? created | throw .noUtcForm
  let document := catalog.document header settings.catalog.seed
  let format := request.format.getD settings.catalog.format
  writeCatalog session request.output (document.toText format) catalog.size
  return .success

end Phrasebook
