-- SUMMARY: What a run tells its user and the audit, unit by unit, and what that does to a sandbox.
import Phrasebook.Command.Extract
import Phrasebook.Proofs.Files.View

/-!
# Recording

Of every unit the run tells something: events for the audit and warnings for the user
(`UnitOutcome.notices`). On a sandbox the notices change the audit log or the error stream, and
nothing else (`Recorded`): one notice at a time (`Recorded.snoc`) and therefore over all units
(`collectUnits_run`), whether they failed or not.
-/
namespace Phrasebook

/-! ## Actions on a sandbox -/

section Sandbox

variable {α β : Type} {world after : Sandbox}

/-- An action behind one that succeeds. -/
theorem run_bind_ok {action : Action (StateM Sandbox) α} {a : α}
    (h : action.run world = (.ok a, after)) (next : α → Action (StateM Sandbox) β) :
    (action >>= next).run world = (next a).run after := by
  have hbind : (action >>= next).run world = StateT.bind action.run _ world :=
    congrFun (ExceptT.run_bind action next) world
  rw [hbind, StateT.bind, h]
  rfl

/-- An action that fails keeps the ones behind it from running. -/
theorem run_bind_error {action : Action (StateM Sandbox) α} {failure : Failure}
    (h : action.run world = (.error failure, after)) (next : α → Action (StateM Sandbox) β) :
    (action >>= next).run world = (.error failure, after) := by
  have hbind : (action >>= next).run world = StateT.bind action.run _ world :=
    congrFun (ExceptT.run_bind action next) world
  rw [hbind, StateT.bind, h]
  rfl

end Sandbox

/-! ## Notices -/

/-- What a run tells of a unit. -/
inductive Notice where
  /-- An event, for the audit. -/
  | audit (event : AuditEvent)
  /-- A line, for the user. -/
  | warning (line : String)

namespace Notice

def event? : Notice → Option AuditEvent
  | .audit event => some event
  | .warning _ => none

/-- The events among the notices. -/
def events (notices : List Notice) : List AuditEvent := notices.filterMap event?

theorem events_append (xs ys : List Notice) : events (xs ++ ys) = events xs ++ events ys :=
  List.filterMap_append

theorem events_flatMap {α : Type} (f : α → List Notice) (xs : List α) :
    events (xs.flatMap f) = xs.flatMap fun x => events (f x) :=
  List.filterMap_flatMap

/-- What the log file takes of the notices. -/
def logged (time : Nat) (notices : List Notice) : String :=
  .join ((events notices).map fun event => event.line time ++ "\n")

theorem toUTF8_logged_snoc (time : Nat) (notices : List Notice) (event : AuditEvent) :
    (logged time (notices ++ [.audit event])).toUTF8 =
      (logged time notices).toUTF8 ++ (event.line time ++ "\n").toUTF8 := by
  have hlogged : logged time (notices ++ [.audit event]) =
      logged time notices ++ (event.line time ++ "\n") := by
    simp [logged, events, event?]
  rw [hlogged]
  exact String.toByteArray_append

/-- What the error stream shows of a notice: a warning, and an event if the audit goes there. -/
def shownOf (sink : AuditSink) (time : Nat) : Notice → String
  | .audit event =>
    match sink with
    | .stream => event.line time ++ "\n"
    | _ => ""
  | .warning line => line ++ "\n"

/-- What the error stream shows of the notices. -/
def shown (sink : AuditSink) (time : Nat) (notices : List Notice) : String :=
  .join (notices.map (shownOf sink time))

/-- The notices of a dropped message. -/
def ofSkipped (session : Session) (unit : String) (error : LocatedError) : List Notice :=
  [.audit (.located unit .skipped error),
    .warning (session.say .skipped [("error", error.message)])]

/-- The sandbox after a notice. -/
def after (sink : AuditSink) (world : Sandbox) (notice : Notice) : Sandbox :=
  match notice, sink with
  | .audit event, .file path =>
    (world.update path fun content => content ++ (event.line world.time ++ "\n").toUTF8).2
  | notice, sink => world.print .error (notice.shownOf sink world.time)

end Notice

/-- What a run tells of a unit: of every dropped message an event and a warning, and then an event
for the unit. -/
def UnitOutcome.notices (session : Session) (outcome : UnitOutcome) : List Notice :=
  match outcome.result with
  | .ok report =>
    report.diagnostics.flatMap (Notice.ofSkipped session outcome.unit) ++
      [.audit (.scanned outcome.unit report.catalog.size)]
  | .error (.input failure) => [.audit (.unreadable outcome.unit (some (failure.message session)))]
  | .error (.scan error) => [.audit (.located outcome.unit .failed error)]

/-- The events of a unit: one for every dropped message, and one for the unit. -/
def UnitOutcome.events (session : Session) (outcome : UnitOutcome) : List AuditEvent :=
  match outcome.result with
  | .ok report =>
    report.diagnostics.map (.located outcome.unit .skipped) ++
      [.scanned outcome.unit report.catalog.size]
  | .error (.input failure) => [.unreadable outcome.unit (some (failure.message session))]
  | .error (.scan error) => [.located outcome.unit .failed error]

theorem UnitOutcome.events_notices (session : Session) (outcome : UnitOutcome) :
    Notice.events (outcome.notices session) = outcome.events session := by
  obtain ⟨unit, failure | report⟩ := outcome
  · cases failure <;> rfl
  · have hskipped (error : LocatedError) :
        Notice.events (Notice.ofSkipped session unit error) = [.located unit .skipped error] := rfl
    simp only [notices, events, Notice.events_append, Notice.events_flatMap, hskipped,
      ← List.map_eq_flatMap]
    rfl

/-! ## Telling -/

section Telling

variable {session : Session} {sink : AuditSink} {world : Sandbox}

theorem record_run (sink : AuditSink) (event : AuditEvent) (world : Sandbox) :
    (sink.record event : Action (StateM Sandbox) Unit).run world =
      (.ok (), Notice.after sink world (.audit event)) := by
  cases sink with
  | nowhere =>
    have hunchanged : world.print .error "" = world := by
      rw [Sandbox.print, String.append_empty]
    exact Prod.ext rfl hunchanged.symm
  | stream => rfl
  | file path => rfl

theorem recordSkipped_run (unit : String) (error : LocatedError) (world : Sandbox) :
    (recordSkipped session sink unit error : Action (StateM Sandbox) Unit).run world =
      (.ok (), (Notice.ofSkipped session unit error).foldl (Notice.after sink) world) := by
  rw [recordSkipped, run_bind_ok (record_run sink _ world)]
  rfl

theorem forM_recordSkipped_run (session : Session) (sink : AuditSink) (unit : String)
    (diagnostics : List LocatedError) (world : Sandbox) :
    (diagnostics.forM (recordSkipped session sink unit) : Action (StateM Sandbox) Unit).run world =
      (.ok (), (diagnostics.flatMap (Notice.ofSkipped session unit)).foldl (Notice.after sink)
        world) := by
  induction diagnostics generalizing world with
  | nil => rfl
  | cons error diagnostics ih =>
    rw [List.forM, run_bind_ok (recordSkipped_run unit error world), ih, List.flatMap_cons,
      List.foldl_append]

/-- The catalog of a unit for merging, or why there is none. -/
def UnitOutcome.delivery (outcome : UnitOutcome) : Except Failure UnitCatalog :=
  (outcome.result.map Report.toUnitCatalog).mapError UnitFailure.toFailure

/-- A unit that failed is recorded like any other, and the run goes on. -/
theorem recordUnit_run (outcome : UnitOutcome) (world : Sandbox) :
    (recordUnit session sink outcome : Action (StateM Sandbox) _).run world =
      (.ok outcome.delivery, (outcome.notices session).foldl (Notice.after sink) world) := by
  obtain ⟨unit, failure | report⟩ := outcome
  · cases failure <;> exact run_bind_ok (record_run sink _ world) _
  · have hskipped := forM_recordSkipped_run session sink unit report.diagnostics world
    rw [recordUnit, run_bind_ok hskipped, run_bind_ok (record_run sink _ _), UnitOutcome.notices,
      List.foldl_append]
    rfl

theorem mapM_recordUnit_run (outcomes : List UnitOutcome) (world : Sandbox) :
    (outcomes.mapM (recordUnit session sink) : Action (StateM Sandbox) _).run world =
      (.ok (outcomes.map UnitOutcome.delivery),
        (outcomes.flatMap (·.notices session)).foldl (Notice.after sink) world) := by
  induction outcomes generalizing world with
  | nil => rfl
  | cons outcome outcomes ih =>
    rw [List.mapM_cons, run_bind_ok (recordUnit_run outcome world), run_bind_ok (ih _),
      List.flatMap_cons, List.foldl_append]
    rfl

/-- Everything is recorded before the first failure counts. -/
theorem collectUnits_run (outcomes : List UnitOutcome) (world : Sandbox) :
    (collectUnits session sink outcomes : Action (StateM Sandbox) _).run world =
      ((outcomes.map UnitOutcome.delivery).mapM id,
        (outcomes.flatMap (·.notices session)).foldl (Notice.after sink) world) := by
  rw [collectUnits, run_bind_ok (mapM_recordUnit_run outcomes world)]
  rfl

end Telling

/-! ## What is recorded -/

theorem Sandbox.update_eq {world : Sandbox} {path : Path} {place : List String}
    (h : world.tree.target world.workingDirectory path = .ok place)
    (change : ByteArray → ByteArray) :
    world.update path change =
      (.ok (), { world with
        tree := world.tree.put (.file (change (((world.tree.view place).join).getD .empty)))
          place }) := by
  rw [update, FileTree.update_eq h]

theorem Sandbox.update_eq_error {world : Sandbox} {path : Path} {failure : FileFailure}
    (h : world.tree.target world.workingDirectory path = .error failure)
    (change : ByteArray → ByteArray) : world.update path change = (.error failure, world) := by
  rw [update, FileTree.update, h]
  rfl

/-- The place of the log file of a sink, if it has one. -/
def AuditSink.place? (sink : AuditSink) (world : Sandbox) : Option (List String) :=
  match sink with
  | .file path => (world.tree.target world.workingDirectory path).toOption
  | _ => none

/-- The sink can take events: its log file, if it has one, can be written. -/
def AuditSink.Open (sink : AuditSink) (world : Sandbox) : Prop :=
  ∀ path, sink = .file path → ∃ names, world.tree.target world.workingDirectory path = .ok names

theorem AuditSink.place?_file {path : Path} {world : Sandbox} {names : List String}
    (h : world.tree.target world.workingDirectory path = .ok names) :
    (file path).place? world = some names := by
  rw [place?, h]
  rfl

/-- There is room for the log file at its place. -/
theorem AuditSink.hasRoom {sink : AuditSink} {world : Sandbox} {names : List String}
    (h : sink.place? world = some names) : world.tree.HasRoom names := by
  cases sink with
  | nowhere => cases h
  | stream => cases h
  | file path =>
    cases htarget : world.tree.target world.workingDirectory path with
    | error failure => simp [place?, htarget, Except.toOption] at h
    | ok found =>
      obtain rfl : found = names := by simpa [place?, htarget, Except.toOption] using h
      exact FileTree.hasRoom_of_target htarget

/-- From one sandbox to the other, notices were recorded and nothing else was done: the log file
holds the events behind its old content, the error stream has shown what is shown of the notices,
and everything else is as it was, the output stream and all other files included. -/
structure Recorded (sink : AuditSink) (notices : List Notice) (before after : Sandbox) : Prop where
  files : ∀ names, after.tree.view names =
    if sink.place? before = some names then
      some (some (((before.tree.view names).join).getD .empty ++
        (Notice.logged before.time notices).toUTF8))
    else before.tree.view names
  errors : after.errors = before.errors ++ Notice.shown sink before.time notices
  output : after.output = before.output
  time : after.time = before.time
  workingDirectory : after.workingDirectory = before.workingDirectory
  workers : after.workers = before.workers

namespace Recorded

variable {sink : AuditSink} {notices : List Notice} {before world : Sandbox}

/-- Without a log file, nothing has to be done to record nothing. -/
theorem refl (hlog : sink.place? world = none) : Recorded sink [] world world where
  files names := by simp [hlog]
  errors := by simp [Notice.shown]
  output := rfl
  time := rfl
  workingDirectory := rfl
  workers := rfl

/-- A log file is there once it is opened, and holds what it held. -/
theorem opened {path : Path} {place : List String}
    (hplace : world.tree.target world.workingDirectory path = .ok place) :
    Recorded (.file path) [] world (world.update path fun content => content ++ "".toUTF8).2 := by
  rw [Sandbox.update_eq hplace]
  constructor
  · intro names
    rw [FileTree.view_put (FileTree.hasRoom_of_target hplace), AuditSink.place?_file hplace]
    by_cases hnames : names = place
    · simp [hnames, Notice.logged, Notice.events]
    · simp [hnames, Ne.symm hnames]
  · simp [Notice.shown]
  · rfl
  · rfl
  · rfl
  · rfl

/-- No directory changes, and no file is lost. -/
theorem grown (h : Recorded sink notices before world) :
    FileTree.Grown before.tree world.tree := by
  constructor
  · intro names
    rw [h.files]
    split
    · rename_i hnames
      obtain ⟨-, -, -, -, hplace⟩ := AuditSink.hasRoom hnames
      exact ⟨by simp, fun hdirectory => absurd hdirectory hplace⟩
    · rfl
  · intro names hsome
    rw [h.files]
    split
    · rfl
    · exact hsome

/-- Any file but the log file reads as before. -/
theorem read (h : Recorded sink notices before world) {path : Path} {names : List String}
    {content : ByteArray}
    (hresolve : before.tree.resolve before.workingDirectory path = .ok (names, .file content))
    (hother : sink.place? before ≠ some names) :
    world.tree.read world.workingDirectory path = .ok content := by
  have hview : world.tree.view names = before.tree.view names := by
    rw [h.files, if_neg hother]
  rw [h.workingDirectory]
  exact h.grown.read hresolve hview

/-- A notice of which the log file takes nothing is shown on the error stream. -/
theorem snoc_print (h : Recorded sink notices before world) (notice : Notice)
    (hlog : sink.place? before = none ∨ Notice.events [notice] = []) :
    Recorded sink (notices ++ [notice]) before
      (world.print .error (notice.shownOf sink world.time)) where
  files names := by
    have hfiles : (world.print .error (notice.shownOf sink world.time)).tree = world.tree := rfl
    rw [hfiles, h.files]
    rcases hlog with hnone | hsilent
    · simp [hnone]
    · rw [Notice.logged, Notice.logged, Notice.events_append, hsilent, List.append_nil]
  errors := by
    simp [Sandbox.print, h.errors, Notice.shown, h.time, String.append_assoc]
  output := h.output
  time := h.time
  workingDirectory := h.workingDirectory
  workers := h.workers

/-- An event is written behind what the log file holds. -/
theorem snoc_log {path : Path} (h : Recorded (.file path) notices before world)
    (hopen : (AuditSink.file path).Open before) (event : AuditEvent) :
    Recorded (.file path) (notices ++ [.audit event]) before
      (Notice.after (.file path) world (.audit event)) := by
  obtain ⟨place, hplace⟩ := hopen path rfl
  have htarget : world.tree.target world.workingDirectory path = .ok place := by
    rw [h.workingDirectory]
    exact h.grown.target hplace
  have hold : ((world.tree.view place).join).getD .empty =
      ((before.tree.view place).join).getD .empty ++
        (Notice.logged before.time notices).toUTF8 := by
    rw [h.files, if_pos (AuditSink.place?_file hplace)]
    rfl
  have hafter : Notice.after (.file path) world (.audit event) =
      { world with tree := world.tree.put (.file (((before.tree.view place).join).getD .empty ++
        (Notice.logged before.time (notices ++ [.audit event])).toUTF8)) place } := by
    rw [Notice.after, Sandbox.update_eq htarget, hold, h.time, ByteArray.append_assoc,
      ← Notice.toUTF8_logged_snoc]
  rw [hafter]
  constructor
  · intro names
    rw [FileTree.view_put (FileTree.hasRoom_of_target htarget), h.files,
      AuditSink.place?_file hplace]
    by_cases hnames : names = place
    · simp [hnames]
    · simp [hnames, Ne.symm hnames]
  · simp [h.errors, Notice.shown, Notice.shownOf]
  · exact h.output
  · exact h.time
  · exact h.workingDirectory
  · exact h.workers

/-- One more notice is recorded behind the others. -/
theorem snoc (h : Recorded sink notices before world) (hopen : sink.Open before)
    (notice : Notice) :
    Recorded sink (notices ++ [notice]) before (notice.after sink world) := by
  cases notice with
  | warning line => exact h.snoc_print _ (.inr rfl)
  | audit event =>
    cases sink with
    | nowhere => exact h.snoc_print _ (.inl rfl)
    | stream => exact h.snoc_print _ (.inl rfl)
    | file path => exact h.snoc_log hopen event

/-- More notices are recorded behind the others, one by one. -/
theorem append (h : Recorded sink notices before world) (hopen : sink.Open before)
    (more : List Notice) :
    Recorded sink (notices ++ more) before (more.foldl (Notice.after sink) world) := by
  induction more generalizing notices world with
  | nil => rwa [List.append_nil]
  | cons notice more ih =>
    have hnext := ih (h.snoc hopen notice)
    rwa [List.append_assoc] at hnext

end Recorded

end Phrasebook
