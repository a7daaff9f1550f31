-- SUMMARY: Working through a list in batches that run at the same time.
import Phrasebook.Command.Host

/-!
# Batches

A list of jobs is cut into at most as many batches as there are workers, all of one size but
perhaps the last. A worker does the jobs of a batch in their order, and the results come batch by
batch.
-/
namespace Phrasebook.Batches

/-- Cut a list into pieces of a positive size, the last one perhaps shorter. `piece` is the piece
under way, reversed. -/
def cutFrom (size : Nat) (piece : List α) : List α → List (List α)
  | [] => if piece.isEmpty then [] else [piece.reverse]
  | item :: items =>
    if piece.length + 1 < size then cutFrom size (item :: piece) items
    else (item :: piece).reverse :: cutFrom size [] items

/-- Cut a list into pieces of a positive size. -/
def cut (size : Nat) (items : List α) : List (List α) := cutFrom size [] items

/-- How many workers there is work for. -/
def crew (workers jobs : Nat) : Nat := max 1 (min workers jobs)

/-- The size of the batches for a number of jobs, rounded up. -/
def size (workers jobs : Nat) : Nat :=
  (jobs + crew workers jobs - 1) / crew workers jobs

/-- The batches of a list of jobs. -/
def ofList (workers : Nat) (jobs : List α) : List (List α) := cut (size workers jobs.length) jobs

/-- Do every job, one worker for each batch. There is a list of results for every batch, unless its
worker stopped. -/
def run {m : Type → Type} [Monad m] [Host m] (work : α → m β) (jobs : List α) :
    m (List (Option (List β))) := do
  let batches := ofList (← Host.workers) jobs
  Host.concurrently (batches.map fun batch => batch.mapM work)

theorem cutFrom_flatten (size : Nat) (piece items : List α) :
    (cutFrom size piece items).flatten = piece.reverse ++ items := by
  induction items generalizing piece with
  | nil => cases piece <;> simp [cutFrom]
  | cons item items ih => rw [cutFrom]; split <;> simp [ih]

theorem ofList_flatten (workers : Nat) (jobs : List α) : (ofList workers jobs).flatten = jobs :=
  cutFrom_flatten _ [] jobs

/-- What comes of each job comes of them batch by batch. -/
theorem ofList_flatMap_flatMap (workers : Nat) (f : α → List β) (jobs : List α) :
    (ofList workers jobs).flatMap (List.flatMap f) = jobs.flatMap f := by
  have hflatten : (ofList workers jobs).flatMap id = jobs := by
    rw [List.flatMap_id, ofList_flatten]
  calc (ofList workers jobs).flatMap (List.flatMap f)
    _ = ((ofList workers jobs).flatMap id).flatMap f := List.flatMap_assoc.symm
    _ = jobs.flatMap f := by rw [hflatten]

theorem ofList_flatMap_map (workers : Nat) (f : α → β) (jobs : List α) :
    (ofList workers jobs).flatMap (List.map f) = jobs.map f := by
  rw [List.flatMap_def, ← List.map_flatten, ofList_flatten]

end Phrasebook.Batches
