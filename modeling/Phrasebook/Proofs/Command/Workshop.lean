-- SUMMARY: A sandbox that keeps a record of its workers, any of which may stop, and what scanning does on it.
import Phrasebook.Proofs.Command.Extracting

/-!
# Workshops

A `Workshop` has the files of a sandbox and keeps a record of who looks at what: the accesses of every
worker that was started, and those of the run itself. Any of the workers may stop unexpectedly, and
then has no result.

An action that only looks has one result and one list of accesses on every workshop with the same
files (`Looks`). Scanning a document only looks, and so does scanning a batch of them
(`Looks.scanFile`, `Looks.mapM`). Workers that only look leave one shift each, in the order in which
they are started (`Workshop.concurrently_run`).
-/
namespace Phrasebook

/-- A look at the files. -/
inductive Access where
  | presence (path : Path)
  | size (path : Path)
  | content (path : Path)
deriving DecidableEq, Repr

/-- The looks that it takes to read a document of at most `limit` bytes. -/
def Sandbox.accesses (world : Sandbox) (limit : Nat) (path : Path) : List Access :=
  .size path :: if world.opens limit path then [.content path] else []

structure Workshop where
  sandbox  : Sandbox
  /-- Which workers stop unexpectedly when they have looked, by their numbers in the order in which
  they are started. -/
  stops    : Nat → Bool := fun _ => false
  /-- The accesses of the worker that is at work, or else of the run itself. -/
  accesses : List Access := []
  /-- The accesses of each worker that was started. -/
  shifts   : List (List Access) := []

namespace Workshop

variable {α β : Type}

/-! ## The host -/

/-- Put accesses on record. -/
def record (workshop : Workshop) (accesses : List Access) : Workshop :=
  { workshop with accesses := workshop.accesses ++ accesses }

@[simp] theorem record_nil (workshop : Workshop) : workshop.record [] = workshop := by
  simp [record]

@[simp] theorem record_record (workshop : Workshop) (xs ys : List Access) :
    (workshop.record xs).record ys = workshop.record (xs ++ ys) := by
  simp [record]

/-- Do in the workshop what a sandbox does. -/
def onSandbox (action : StateM Sandbox α) : StateM Workshop α := fun workshop =>
  let (a, sandbox) := action.run workshop.sandbox
  (a, { workshop with sandbox })

/-- Look at the files of the sandbox, which is put on record. -/
def look (access : Access) (action : StateM Sandbox α) : StateM Workshop α := fun workshop =>
  (onSandbox action).run (workshop.record [access])

/-- Let a new worker do an action. -/
def employ (action : StateM Workshop α) : StateM Workshop (Option α) := do
  let before ← get
  set { before with accesses := [] }
  let a ← action
  let left ← get
  set { left with
    accesses := before.accesses
    shifts := left.shifts ++ [left.accesses] }
  return if before.stops before.shifts.length then none else some a

instance : Host (StateM Workshop) where
  exists? path := look (.presence path) (Host.exists? path)
  sizeOf path := look (.size path) (Host.sizeOf path)
  read path := look (.content path) (Host.read path)
  write path text := onSandbox (Host.write path text)
  append path text := onSandbox (Host.append path text)
  print stream text := onSandbox (Host.print stream text)
  clock := onSandbox Host.clock
  workers := onSandbox Host.workers
  -- the workers take turns, which makes no difference to workers that only look
  concurrently actions := actions.mapM employ

end Workshop

/-! ## Looking -/

/-- On every workshop with the files of the sandbox, the action has the result and makes the
accesses, and does nothing else. -/
def Looks (world : Sandbox) (action : StateM Workshop α) (a : α) (accesses : List Access) : Prop :=
  ∀ workshop : Workshop, workshop.sandbox = world →
    action.run workshop = (a, workshop.record accesses)

namespace Looks

variable {α β : Type} {world : Sandbox}

theorem pure (a : α) : Looks world (pure a) a [] := by
  intro workshop _
  rw [Workshop.record_nil]
  rfl

theorem bind {action : StateM Workshop α} {next : α → StateM Workshop β} {a : α} {b : β}
    {xs ys : List Access} (h : Looks world action a xs) (hnext : Looks world (next a) b ys) :
    Looks world (action >>= next) b (xs ++ ys) := by
  intro workshop hworkshop
  have hrecorded : (workshop.record xs).sandbox = world := hworkshop
  rw [run_bind_eq (h workshop hworkshop), hnext _ hrecorded, Workshop.record_record]

/-- Each action may look, one after the other. -/
theorem mapM {action : α → StateM Workshop β} {result : α → β} {accesses : α → List Access}
    (h : ∀ item, Looks world (action item) (result item) (accesses item)) (items : List α) :
    Looks world (items.mapM action) (items.map result) (items.flatMap accesses) := by
  induction items with
  | nil => exact .pure []
  | cons item items ih =>
    have hrest : Looks world (do return result item :: (← items.mapM action))
        ((item :: items).map result) (items.flatMap accesses ++ []) :=
      ih.bind (.pure (result item :: items.map result))
    rw [List.append_nil] at hrest
    rw [List.mapM_cons]
    exact (h item).bind hrest

theorem scanFile (world : Sandbox) (settings : ExtractSettings) (path : Path) :
    Looks world (scanFile settings path) (world.outcome settings path)
      (world.accesses settings.maxInputBytes path) := by
  rintro workshop rfl
  have hsize : (Host.sizeOf path : StateM Workshop _).run workshop =
      (workshop.sandbox.tree.sizeOf workshop.sandbox.workingDirectory path,
        workshop.record [.size path]) := rfl
  have hread : (Host.read path : StateM Workshop _).run (workshop.record [.size path]) =
      (workshop.sandbox.tree.read workshop.sandbox.workingDirectory path,
        (workshop.record [.size path]).record [.content path]) := rfl
  rw [scanFile_run settings hsize hread, Sandbox.accesses]
  split
  · rw [Workshop.record_record]
    rfl
  · rfl

end Looks

/-! ## Workers -/

namespace Workshop

variable {α β : Type} {world : Sandbox} {workshop : Workshop}

/-- A worker that looks leaves its shift, and nothing on the record of the run. -/
theorem employ_run {action : StateM Workshop α} {a : α} {accesses : List Access}
    (h : Looks world action a accesses) (hworkshop : workshop.sandbox = world) :
    (employ action).run workshop =
      (if workshop.stops workshop.shifts.length then none else some a,
        { workshop with shifts := workshop.shifts ++ [accesses] }) := by
  have hrun := h { workshop with accesses := [] } hworkshop
  have hget : (get : StateM Workshop _).run workshop = (workshop, workshop) := rfl
  have hset : (set { workshop with accesses := [] } : StateM Workshop _).run workshop =
      ((), { workshop with accesses := [] }) := rfl
  rw [employ, run_bind_eq hget, run_bind_eq hset, run_bind_eq hrun]
  rfl

/-- Workers that look leave their shifts in the order in which they are started. -/
theorem concurrently_run {action : α → StateM Workshop β} {result : α → β}
    {accesses : α → List Access}
    (h : ∀ item, Looks world (action item) (result item) (accesses item))
    (hworkshop : workshop.sandbox = world) (items : List α) :
    (Host.concurrently (items.map action) : StateM Workshop _).run workshop =
      ((items.zipIdx workshop.shifts.length).map fun (item, number) =>
          if workshop.stops number then none else some (result item),
        { workshop with shifts := workshop.shifts ++ items.map accesses }) := by
  change ((items.map action).mapM employ).run workshop = _
  rw [List.mapM_map]
  induction items generalizing workshop with
  | nil =>
    rw [List.map_nil, List.append_nil]
    rfl
  | cons item items ih =>
    have hfirst := employ_run (h item) hworkshop
    have hnext : { workshop with shifts := workshop.shifts ++ [accesses item] }.sandbox = world :=
      hworkshop
    have hrest := ih hnext
    rw [List.length_append, List.append_assoc] at hrest
    rw [List.mapM_cons, Function.comp_apply, run_bind_eq hfirst, run_bind_eq hrest]
    rfl

end Workshop

end Phrasebook
