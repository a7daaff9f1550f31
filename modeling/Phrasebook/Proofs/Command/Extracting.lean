-- SUMMARY: The parts of an extraction, and how it ends on a sandbox, whether a unit fails or none does.
import Phrasebook.Proofs.Command.Recording
import Phrasebook.Proofs.Scan.Findings

/-!
# Extracting on a sandbox

An extraction prepares, scans, records and delivers (`ExtractRequest.run_eq`). Preparing either fails
and leaves the sandbox as it is, or opens the audit (`ExtractRequest.prepare_run`); scanning changes
nothing (`scanInputs_run`). With what recording does (`collectUnits_run`) that says how every run
ends: a unit that fails keeps neither the units behind it from being recorded nor the run from
failing with the first failure, and nothing is delivered (`ExtractRequest.run_fails_or_delivers`).
-/
namespace Phrasebook

variable {α β : Type}

/-! ## Actions that only look -/

/-- The action leaves every sandbox as it is. -/
def Quiet (action : Action (StateM Sandbox) α) : Prop :=
  ∀ world, ∃ result, action.run world = (result, world)

theorem Quiet.bind {action : Action (StateM Sandbox) α} {next : α → Action (StateM Sandbox) β}
    (h : Quiet action) (hnext : ∀ a, Quiet (next a)) : Quiet (action >>= next) := by
  intro world
  obtain ⟨result, hresult⟩ := h world
  cases result with
  | error failure => exact ⟨_, run_bind_error hresult next⟩
  | ok a =>
    obtain ⟨result', hresult'⟩ := hnext a world
    exact ⟨result', (run_bind_ok hresult next).trans hresult'⟩

theorem quiet_pure (a : α) : Quiet (pure a) := fun _ => ⟨_, rfl⟩

theorem quiet_throw (failure : Failure) : Quiet (throw failure : Action (StateM Sandbox) α) :=
  fun _ => ⟨_, rfl⟩

theorem quiet_exists (path : Path) : Quiet (Host.exists? path) := fun _ => ⟨_, rfl⟩

theorem quiet_read (path : Path) : Quiet (Host.read path) := fun _ => ⟨_, rfl⟩

theorem quiet_loadSettings (environment : Environment) (given : Option Path) :
    Quiet (loadSettings environment given) := by
  unfold loadSettings
  dsimp only
  split
  · exact fun world => ⟨_, run_bind_error rfl _⟩
  split
  case' isTrue =>
    refine (quiet_exists _).bind fun found => ?_
    split
    · exact quiet_pure _
  -- a file that is named is read like the one that is found
  all_goals
    refine (quiet_read _).bind fun content => ?_
    cases content with
    | error reason => exact quiet_throw _
    | ok bytes =>
      dsimp only
      cases Settings.ofBytes bytes with
      | error error => exact quiet_throw _
      | ok settings => exact quiet_pure settings

theorem quiet_creationMoment (environment : Environment) (given : Option String) :
    Quiet (creationMoment environment given) := by
  intro world
  unfold creationMoment
  split
  · split <;> exact ⟨_, rfl⟩
  · split <;> exact ⟨_, rfl⟩
  · exact ⟨_, rfl⟩

/-! ## Preparing -/

/-- What a run knows before it looks at a document. -/
structure Preparation where
  settings : Settings
  created  : Moment
  sink     : AuditSink

/-- Load the settings, find the creation date and open the audit. -/
def ExtractRequest.prepare {m : Type → Type} [Monad m] [Host m] (environment : Environment)
    (config : Option Path) (request : ExtractRequest) : Action m Preparation := do
  let settings ← loadSettings environment config
  let created ← creationMoment environment request.creationDate
  let sink ← openAudit settings.audit
  return { settings, created, sink }

/-- Opening the audit fails and changes nothing, or the sink can take events and has taken none. -/
theorem openAudit_run (settings : AuditSettings) (world : Sandbox) :
    (∃ failure, (openAudit settings : Action (StateM Sandbox) AuditSink).run world =
        (.error failure, world)) ∨
      ∃ sink opened, (openAudit settings : Action (StateM Sandbox) AuditSink).run world =
          (.ok sink, opened) ∧ sink.Open world ∧ Recorded sink [] world opened := by
  have hclosed {sink : AuditSink} (h : ∀ path, sink ≠ .file path) : sink.Open world :=
    fun path hpath => absurd hpath (h path)
  unfold openAudit
  split
  · exact .inr ⟨.nowhere, world, rfl, hclosed (by simp), .refl rfl⟩
  · split
    · exact .inr ⟨.stream, world, rfl, hclosed (by simp), .refl rfl⟩
    · rename_i path _
      have happend : (Host.append path "" : Action (StateM Sandbox) _).run world =
          (.ok (world.update path fun content => content ++ "".toUTF8).1,
            (world.update path fun content => content ++ "".toUTF8).2) := rfl
      cases htarget : world.tree.target world.workingDirectory path with
      | error failure =>
        rw [Sandbox.update_eq_error htarget] at happend
        exact .inl ⟨_, run_bind_ok happend _⟩
      | ok place =>
        have hopened := Recorded.opened htarget
        rw [Sandbox.update_eq htarget] at happend hopened
        refine .inr ⟨.file path, _, run_bind_ok happend _, ?_, hopened⟩
        rintro _ ⟨⟩
        exact ⟨place, htarget⟩

/-- Preparing fails and changes nothing, or all it does is open the audit. -/
theorem ExtractRequest.prepare_run (environment : Environment) (config : Option Path)
    (request : ExtractRequest) (world : Sandbox) :
    (∃ failure, (request.prepare environment config : Action (StateM Sandbox) _).run world =
        (.error failure, world)) ∨
      ∃ preparation opened,
        (request.prepare environment config : Action (StateM Sandbox) _).run world =
          (.ok preparation, opened) ∧
        preparation.sink.Open world ∧ Recorded preparation.sink [] world opened := by
  obtain ⟨failure | settings, hsettings⟩ := quiet_loadSettings environment config world
  · exact .inl ⟨failure, run_bind_error hsettings _⟩
  obtain ⟨failure | created, hcreated⟩ := quiet_creationMoment environment request.creationDate world
  · exact .inl ⟨failure, (run_bind_ok hsettings _).trans (run_bind_error hcreated _)⟩
  have hprepare : (request.prepare environment config : Action (StateM Sandbox) _).run world =
      (openAudit settings.audit >>= fun sink => pure ⟨settings, created, sink⟩ :
        Action (StateM Sandbox) Preparation).run world := by
    rw [prepare, run_bind_ok hsettings, run_bind_ok hcreated]
  obtain ⟨failure, hsink⟩ | ⟨sink, opened, hsink, hopen, hrecorded⟩ :=
    openAudit_run settings.audit world
  · exact .inl ⟨failure, hprepare.trans (run_bind_error hsink _)⟩
  · exact .inr ⟨⟨settings, created, sink⟩, opened, hprepare.trans (run_bind_ok hsink _), hopen,
      hrecorded⟩

/-! ## Scanning -/

/-- What reading a document of at most `limit` bytes comes to in the sandbox. -/
def Sandbox.input (world : Sandbox) (limit : Nat) (path : Path) : Except Failure ByteArray :=
  match world.tree.sizeOf world.workingDirectory path with
  | .error reason => .error (.cannotRead .document path reason)
  | .ok size =>
    if size > limit then .error (.tooLarge .document path size limit)
    else
      match world.tree.read world.workingDirectory path with
      | .error reason => .error (.cannotRead .document path reason)
      | .ok bytes =>
        if bytes.size > limit then .error (.tooLarge .document path (limit + 1) limit)
        else .ok bytes

/-- What becomes of the unit whose document is read in the sandbox. -/
def Sandbox.outcome (world : Sandbox) (settings : ExtractSettings) (path : Path) : UnitOutcome :=
  scanInput settings.toScanOptions path (world.input settings.maxInputBytes path)

/-- Whether a document is small enough to be read. -/
def Sandbox.opens (world : Sandbox) (limit : Nat) (path : Path) : Bool :=
  match world.tree.sizeOf world.workingDirectory path with
  | .ok size => size ≤ limit
  | .error _ => false

section Runs

variable {σ : Type} {before sized opened : σ}

/-- An action behind another one starts in the state that this leaves. -/
theorem run_bind_eq {action : StateM σ α} {a : α} {after : σ} (h : action.run before = (a, after))
    (next : α → StateM σ β) : (action >>= next).run before = (next a).run after := by
  rw [StateT.run_bind, h]
  rfl

/-- Actions that leave the state as it is leave it so one after the other. -/
theorem mapM_run {action : α → StateM σ β} {result : α → β} {items : List α}
    (h : ∀ item ∈ items, (action item).run before = (result item, before)) :
    (items.mapM action).run before = (items.map result, before) := by
  induction items with
  | nil => rfl
  | cons item items ih =>
    obtain ⟨hitem, hitems⟩ := List.forall_mem_cons.1 h
    rw [List.mapM_cons, run_bind_eq hitem, run_bind_eq (ih hitems)]
    rfl

variable [Host (StateM σ)] {world : Sandbox} {path : Path}

/-- A host that has the files of a sandbox reads what the sandbox does, and is asked for the content
of a document only if the size permits. -/
theorem readInput_run (limit : Nat)
    (hsize : (Host.sizeOf path : StateM σ _).run before =
      (world.tree.sizeOf world.workingDirectory path, sized))
    (hread : (Host.read path : StateM σ _).run sized =
      (world.tree.read world.workingDirectory path, opened)) :
    (readInput .document path limit : StateM σ _).run before =
      (world.input limit path, if world.opens limit path then opened else sized) := by
  rw [readInput, run_bind_eq hsize, Sandbox.input, Sandbox.opens]
  cases world.tree.sizeOf world.workingDirectory path with
  | error reason => rfl
  | ok size =>
    dsimp only
    by_cases hlarge : size > limit
    · rw [if_pos hlarge, if_pos hlarge, if_neg (by simpa using hlarge)]
      rfl
    · rw [if_neg hlarge, if_neg hlarge, if_pos (by simpa using hlarge), run_bind_eq hread]
      cases world.tree.read world.workingDirectory path with
      | error reason => rfl
      | ok bytes =>
        dsimp only
        split <;> rfl

/-- Reading and scanning a document has the outcome that it has in the sandbox. -/
theorem scanFile_run (settings : ExtractSettings)
    (hsize : (Host.sizeOf path : StateM σ _).run before =
      (world.tree.sizeOf world.workingDirectory path, sized))
    (hread : (Host.read path : StateM σ _).run sized =
      (world.tree.read world.workingDirectory path, opened)) :
    (scanFile settings path : StateM σ _).run before =
      (world.outcome settings path,
        if world.opens settings.maxInputBytes path then opened else sized) :=
  run_bind_eq (readInput_run settings.maxInputBytes hsize hread) _

end Runs

/-- If no worker stops, the outcomes of the batches are put one behind the other. -/
theorem joinBatches_map_some (outcomes : α → List UnitOutcome) (batches : List α) :
    joinBatches (batches.map fun batch => some (outcomes batch)) = .ok (batches.flatMap outcomes) := by
  have hcount : (batches.map fun batch => some (outcomes batch)).countP Option.isNone = 0 := by
    simp [List.countP_map]
  rw [joinBatches, hcount]
  simp [List.flatMap_def, List.filterMap_map]

theorem Sandbox.scanFile_run (settings : ExtractSettings) (path : Path) (world : Sandbox) :
    (scanFile settings path : StateM Sandbox _).run world =
      (world.outcome settings path, world) := by
  have hsize : (Host.sizeOf path : StateM Sandbox _).run world =
      (world.tree.sizeOf world.workingDirectory path, world) := rfl
  have hread : (Host.read path : StateM Sandbox _).run world =
      (world.tree.read world.workingDirectory path, world) := rfl
  rw [Phrasebook.scanFile_run settings hsize hread, ite_self]

/-- Batches of jobs that leave the sandbox as it is have results, all of them. -/
theorem Sandbox.runBatches_run {work : α → StateM Sandbox β} {result : α → β} {world : Sandbox}
    (h : ∀ job, (work job).run world = (result job, world)) (jobs : List α) :
    (Batches.run work jobs).run world =
      ((Batches.ofList world.workers jobs).map fun batch => some (batch.map result), world) := by
  have hbatch (batch : List α) :
      (some <$> batch.mapM work).run world = (some (batch.map result), world) := by
    rw [StateT.run_map, mapM_run fun job _ => h job]
    rfl
  have hworkers : (Host.workers : StateM Sandbox Nat).run world = (world.workers, world) := rfl
  rw [Batches.run, run_bind_eq hworkers]
  change (((Batches.ofList world.workers jobs).map (List.mapM work)).mapM
    fun action => some <$> action).run world = _
  rw [List.mapM_map]
  exact mapM_run fun batch _ => hbatch batch

/-- On a sandbox the documents are read and scanned one by one, and the sandbox stays as it is. -/
theorem scanInputs_run (settings : ExtractSettings) (paths : List Path) (world : Sandbox) :
    (scanInputs settings paths : Action (StateM Sandbox) _).run world =
      (.ok (paths.map (world.outcome settings)), world) := by
  have hfile (path : Path) := Sandbox.scanFile_run settings path world
  refine (run_bind_eq (Sandbox.runBatches_run hfile paths) _).trans ?_
  rw [joinBatches_map_some, Batches.ofList_flatMap_map]
  rfl

/-- A scan fails only where the settings say so. -/
theorem onError_of_scan_error {options : ScanOptions} {path : Path}
    {content : Except Failure ByteArray} {error : LocatedError}
    (h : (scanInput options path content).result = .error (.scan error)) :
    options.onError = .abort := by
  cases hpolicy : options.onError with
  | abort => rfl
  | skipMessage =>
    have hoptions : { options with onError := .skipMessage } = options := by rw [← hpolicy]
    rw [← hoptions, scanInput] at h
    cases content with
    | error failure => cases h
    | ok bytes =>
      change (decodeInput .document path Markup.Document.ofJson? bytes).mapError
        UnitFailure.input >>= _ = _ at h
      cases hdecode : decodeInput .document path Markup.Document.ofJson? bytes with
      | error failure =>
        rw [hdecode] at h
        cases h
      | ok document =>
        rw [hdecode] at h
        change (scan path.spelling document.nodes _).mapError UnitFailure.scan = _ at h
        rw [scan_skipMessage] at h
        cases h

/-! ## Delivering -/

/-- Merge the catalogs of the units and write the result. -/
def ExtractRequest.deliver {m : Type → Type} [Monad m] [Host m] (session : Session)
    (request : ExtractRequest) (preparation : Preparation) (units : List UnitCatalog) :
    Action m Exit := do
  let settings := preparation.settings.catalog
  let catalog := mergeUnits settings.commentPolicy units
  let some header := Header.ofMoment? preparation.created | throw .noUtcForm
  let document := catalog.document header settings.seed
  let format := request.format.getD settings.format
  writeCatalog session request.output (document.toText format) catalog.size
  return .success

/-- A run prepares, scans the documents in the order of their paths, records what became of them,
and delivers. -/
theorem ExtractRequest.run_eq {m : Type → Type} [Monad m] [LawfulMonad m] [Host m]
    (session : Session) (environment : Environment) (config : Option Path)
    (request : ExtractRequest) :
    (request.run session environment config : Action m Exit) = (do
      let preparation ← request.prepare environment config
      let outcomes ←
        scanInputs preparation.settings.extract (Path.sortedDistinct request.inputs)
      let units ← collectUnits session preparation.sink outcomes
      request.deliver session preparation units) := by
  rw [prepare, bind_assoc]
  apply bind_congr
  intro settings
  rw [bind_assoc]
  apply bind_congr
  intro created
  rw [bind_assoc]
  apply bind_congr
  intro sink
  symm
  apply pure_bind

/-! ## How a run ends -/

namespace UnitOutcome

/-- The failure of the run that a unit causes. -/
def failure? (outcome : UnitOutcome) : Option Failure :=
  match outcome.result with
  | .ok _ => none
  | .error failure => some failure.toFailure

/-- The catalog of a unit, for merging. -/
def catalog? (outcome : UnitOutcome) : Option UnitCatalog :=
  outcome.result.toOption.map Report.toUnitCatalog

/-- The first unit that fails decides; if there is none, all catalogs are delivered. -/
theorem mapM_delivery (outcomes : List UnitOutcome) :
    (outcomes.map delivery).mapM id =
      match outcomes.findSome? failure? with
      | some failure => .error failure
      | none => .ok (outcomes.filterMap catalog?) := by
  induction outcomes with
  | nil => rfl
  | cons outcome outcomes ih =>
    obtain ⟨unit, failure | report⟩ := outcome
    · rfl
    · rw [List.map_cons, List.mapM_cons, ih]
      simp only [List.findSome?_cons, failure?]
      cases outcomes.findSome? failure? <;> rfl

end UnitOutcome

/-- What becomes of the units of a request whose documents are read in the sandbox, in the order of
their paths. -/
def ExtractRequest.outcomes (request : ExtractRequest) (settings : ExtractSettings)
    (world : Sandbox) : List UnitOutcome :=
  (Path.sortedDistinct request.inputs).map (world.outcome settings)

/-- A run that is not prepared changes nothing. Any other run records what became of every unit,
and if a unit failed it ends there, with the first failure: no catalog is written and nothing is
printed, and no file but the audit log has changed. Only if no unit failed does it deliver. -/
theorem ExtractRequest.run_fails_or_delivers (session : Session) (environment : Environment)
    (config : Option Path) (request : ExtractRequest) (world : Sandbox) :
    (∃ failure,
      (request.prepare environment config : Action (StateM Sandbox) _).run world =
        (.error failure, world) ∧
      (request.run session environment config : Action (StateM Sandbox) _).run world =
        (.error failure, world)) ∨
    ∃ preparation opened recorded, ∃ outcomes,
      (request.prepare environment config : Action (StateM Sandbox) _).run world =
        (.ok preparation, opened) ∧
      Recorded preparation.sink [] world opened ∧
      outcomes = request.outcomes preparation.settings.extract opened ∧
      (∀ outcome ∈ outcomes, ∀ error, outcome.result = .error (.scan error) →
        preparation.settings.extract.onError = .abort) ∧
      Notice.events (outcomes.flatMap (·.notices session)) =
        outcomes.flatMap (·.events session) ∧
      Recorded preparation.sink (outcomes.flatMap (·.notices session)) world recorded ∧
      (∀ path names content,
        world.tree.resolve world.workingDirectory path = .ok (names, .file content) →
        preparation.sink.place? world ≠ some names →
        recorded.tree.read recorded.workingDirectory path = .ok content) ∧
      (request.run session environment config : Action (StateM Sandbox) _).run world =
        match outcomes.findSome? UnitOutcome.failure? with
        | some failure => (.error failure, recorded)
        | none =>
          (request.deliver session preparation (outcomes.filterMap UnitOutcome.catalog?) :
            Action (StateM Sandbox) _).run recorded := by
  rw [run_eq]
  obtain ⟨failure, hfailure⟩ | ⟨preparation, opened, hprepare, hopen, hopened⟩ :=
    request.prepare_run environment config world
  · exact .inl ⟨failure, hfailure, run_bind_error hfailure _⟩
  refine .inr ⟨preparation, opened, _, _, hprepare, hopened, rfl, ?_, ?_,
    hopened.append hopen _, ?_, ?_⟩
  · intro outcome houtcome error herror
    obtain ⟨path, -, rfl⟩ := List.mem_map.1 houtcome
    exact onError_of_scan_error herror
  · simp only [Notice.events_flatMap, UnitOutcome.events_notices]
  · intro path names content hresolve hother
    exact (hopened.append hopen _).read hresolve hother
  · rw [run_bind_ok hprepare, run_bind_ok (scanInputs_run _ _ opened)]
    have hcollect := @collectUnits_run session preparation.sink
      (request.outcomes preparation.settings.extract opened) opened
    rw [UnitOutcome.mapM_delivery] at hcollect
    revert hcollect
    cases (request.outcomes preparation.settings.extract opened).findSome?
      UnitOutcome.failure? with
    | some failure => exact fun hcollect => run_bind_error hcollect _
    | none => exact fun hcollect => run_bind_ok hcollect _

/-- Whether a run ended with a failure can be decided. -/
instance decidableEqError (result : Except Failure α) (failure : Failure) :
    Decidable (result = .error failure) :=
  match result with
  | .error other => decidable_of_iff (other = failure) ⟨congrArg _, Except.error.inj⟩
  | .ok _ => .isFalse nofun

/-- The audit log is the file that a catalog is to be written to. -/
def logAtOutput : Sandbox where
  tree := .directory
    [("markup-msg.toml", .file "[audit]\nenabled = true\npath = \"out.po\"\n".toUTF8),
      ("out.po", .file "old\n".toUTF8)]

/-- A document that is not there. -/
def absentInput : ExtractRequest where
  inputs := [⟨"absent.json"⟩]
  output := some ⟨"out.po"⟩

/-- The run fails and writes no catalog, but the file gets the event of the failure; and with a bad
creation date the run fails before it looks for the document. -/
theorem run_logAtOutput :
    (logAtOutput.tree.read [] ⟨"out.po"⟩).toOption.map ByteArray.size = some 4 ∧
      ((absentInput.run { complaint := "" } {} none : Action (StateM Sandbox) Exit).run
        logAtOutput).1 = .error (.cannotRead .document ⟨"absent.json"⟩ .notFound) ∧
      (((absentInput.run { complaint := "" } {} none : Action (StateM Sandbox) Exit).run
        logAtOutput).2.tree.read [] ⟨"out.po"⟩).toOption.any (4 < ·.size) = true ∧
      (({ absentInput with
        creationDate := some "noon" }.run { complaint := "" } {} none :
          Action (StateM Sandbox) Exit).run logAtOutput).1 = .error (.badCreationDate "noon") := by
  have hinputs : Path.sortedDistinct absentInput.inputs = [⟨"absent.json"⟩] := by
    rw [absentInput, Path.sortedDistinct, List.mergeSort_singleton]
    rfl
  refine ⟨by decide +kernel, ?_, ?_, ?_⟩
  · simp only [ExtractRequest.run, hinputs]
    decide +kernel
  · simp only [ExtractRequest.run, hinputs]
    decide +kernel
  · decide +kernel

end Phrasebook
