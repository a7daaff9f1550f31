-- SUMMARY: How jobs are split among workers, and that scanning in batches is scanning one by one.
import Mathlib.Logic.ExistsUnique
import Phrasebook.Proofs.Command.Workshop

/-!
# Scanning in batches

Jobs are split by their number alone: all batches but the last have one size, so job `j` is in batch
`j / size` (`mem_numbers_iff`), and the size is rounded up just so far that there are not more batches
than workers (`size_le_iff`, `length_ofList_le`). On a workshop every batch is the shift of one worker
(`Workshop.runBatches_run`). The outcomes are joined in the order of the batches, which is the order of
the documents, so that scanning in batches comes to what scanning one by one does
(`scanInputs_eq_oneByOne`).
-/
namespace Phrasebook

namespace Batches

variable {α β : Type} {size workers : Nat} {items : List α}

/-! ## Cutting -/

/-- The piece under way is filled up to its size before the next one begins. -/
theorem cutFrom_eq {piece : List α} (hpiece : piece.length < size)
    (hne : piece.reverse ++ items ≠ []) :
    cutFrom size piece items =
      (piece.reverse ++ items).take size :: cut size ((piece.reverse ++ items).drop size) := by
  induction items generalizing piece with
  | nil =>
    have hempty : piece ≠ [] := by simpa using hne
    have hshort : piece.reverse.length ≤ size := by simpa using Nat.le_of_lt hpiece
    rw [List.append_nil, List.take_of_length_le hshort, List.drop_of_length_le hshort]
    simp [cutFrom, hempty, cut]
  | cons item items ih =>
    have happend : piece.reverse ++ item :: items = (item :: piece).reverse ++ items := by simp
    rw [cutFrom, happend]
    split
    · rename_i hroom
      exact ih hroom (by simp)
    · have hfull : (item :: piece).reverse.length = size := by simp; omega
      rw [List.take_left' hfull, List.drop_left' hfull]
      rfl

theorem cut_eq (hsize : 0 < size) (hne : items ≠ []) :
    cut size items = items.take size :: cut size (items.drop size) :=
  cutFrom_eq hsize hne

/-- Piece `k` is what stands behind `k` pieces of full size, up to its own size. -/
theorem getElem?_cut (hsize : 0 < size) (items : List α) (k : Nat) :
    (cut size items)[k]? =
      if k * size < items.length then some ((items.drop (k * size)).take size) else none := by
  induction k generalizing items with
  | zero =>
    cases items with
    | nil => rfl
    | cons item items => simp [cut_eq hsize]
  | succ k ih =>
    cases items with
    | nil => simp [cut, cutFrom]
    | cons item items =>
      have hplace : k * size < ((item :: items).drop size).length ↔
          (k + 1) * size < (item :: items).length := by
        rw [List.length_drop, Nat.succ_mul]
        omega
      have hdrop : ((item :: items).drop size).drop (k * size) =
          (item :: items).drop ((k + 1) * size) := by
        rw [List.drop_drop, Nat.succ_mul, Nat.add_comm]
      rw [cut_eq hsize (List.cons_ne_nil item items), List.getElem?_cons_succ, ih, hdrop]
      simp only [hplace]

theorem cutFrom_map (f : α → β) (piece items : List α) :
    cutFrom size (piece.map f) (items.map f) = (cutFrom size piece items).map (List.map f) := by
  induction items generalizing piece with
  | nil => cases piece <;> simp [cutFrom]
  | cons item items ih =>
    have hnext := ih (item :: piece)
    have hfirst := ih []
    simp only [List.map_cons, List.map_nil] at hnext hfirst
    simp only [List.map_cons, cutFrom, List.length_map, hnext, hfirst]
    split <;> simp

/-! ## The size of the batches -/

theorem crew_eq {jobs : Nat} (hworkers : 1 ≤ workers) (hjobs : 1 ≤ jobs) :
    crew workers jobs = min workers jobs := by
  rw [crew]
  omega

theorem size_pos {jobs : Nat} (workers : Nat) (hjobs : 1 ≤ jobs) : 1 ≤ Batches.size workers jobs := by
  have hcrew : 1 ≤ crew workers jobs := Nat.le_max_left ..
  refine Nat.div_pos ?_ hcrew
  omega

/-- The size is the least with which the batches of all workers have room for all jobs. -/
theorem size_le_iff {jobs s : Nat} :
    Batches.size workers jobs ≤ s ↔ jobs ≤ crew workers jobs * s := by
  have hcrew : 0 < crew workers jobs := Nat.le_max_left ..
  rw [Batches.size, Nat.div_le_iff_le_mul_add_pred hcrew]
  omega

/-- Batch `k` is what stands behind `k` batches of full size, up to its own size. -/
theorem getElem?_ofList (workers : Nat) {jobs : List α} (hjobs : 1 ≤ jobs.length) (k : Nat) :
    (ofList workers jobs)[k]? =
      if k * Batches.size workers jobs.length < jobs.length then
        some ((jobs.drop (k * Batches.size workers jobs.length)).take
          (Batches.size workers jobs.length))
      else none :=
  getElem?_cut (size_pos workers hjobs) jobs k

/-- There are not more batches than workers, nor more than jobs. -/
theorem length_ofList_le {jobs : List α} (hworkers : 1 ≤ workers) (hjobs : jobs ≠ []) :
    (ofList workers jobs).length ≤ min workers jobs.length := by
  have hlength : 1 ≤ jobs.length := List.length_pos_iff.2 hjobs
  rw [← crew_eq hworkers hlength, ← List.getElem?_eq_none_iff, getElem?_ofList workers hlength]
  exact if_neg (Nat.not_lt.2 (size_le_iff.1 (Nat.le_refl _)))

/-! ## Who does which job -/

/-- The numbers of the jobs in each batch. -/
def numbers (workers jobs : Nat) : List (List Nat) := ofList workers (List.range jobs)

/-- A window of the first numbers. -/
theorem mem_window_iff {n start size j : Nat} :
    j ∈ ((List.range n).drop start).take size ↔ (start ≤ j ∧ j < start + size) ∧ j < n := by
  rw [List.mem_iff_getElem?]
  constructor
  · rintro ⟨i, hi⟩
    rw [List.getElem?_take, List.getElem?_drop] at hi
    obtain ⟨hsize, hj⟩ := Option.ite_none_right_eq_some.1 hi
    obtain ⟨hn, rfl⟩ := List.getElem?_eq_some_iff.1 hj
    simp only [List.length_range, List.getElem_range] at hn ⊢
    omega
  · rintro ⟨⟨hstart, hend⟩, hn⟩
    have hplace : start + (j - start) = j := by omega
    refine ⟨j - start, ?_⟩
    rw [List.getElem?_take, List.getElem?_drop, hplace, List.getElem?_range hn, if_pos (by omega)]

/-- Batch `k` has the jobs whose number divided by the size is `k`. -/
theorem mem_numbers_iff {jobs j k : Nat} (hjobs : 1 ≤ jobs) :
    (∃ batch, (numbers workers jobs)[k]? = some batch ∧ j ∈ batch) ↔
      j < jobs ∧ j / Batches.size workers jobs = k := by
  have hsize := size_pos workers hjobs
  have hlength : 1 ≤ (List.range jobs).length := List.length_range.symm ▸ hjobs
  have hbatch := getElem?_ofList workers hlength k
  rw [List.length_range] at hbatch
  rw [Nat.div_eq_iff hsize, numbers, hbatch]
  constructor
  · rintro ⟨batch, htaken, hj⟩
    obtain ⟨-, htaken⟩ := Option.ite_none_right_eq_some.1 htaken
    obtain rfl := Option.some.inj htaken
    obtain ⟨⟨hstart, hend⟩, hn⟩ := mem_window_iff.1 hj
    exact ⟨hn, hstart, Nat.le_sub_one_of_lt hend⟩
  · rintro ⟨hn, hstart, hend⟩
    refine ⟨_, if_pos (Nat.lt_of_le_of_lt hstart hn), mem_window_iff.2 ⟨⟨hstart, ?_⟩, hn⟩⟩
    omega

/-- Every job is in one batch, and in no other. -/
theorem existsUnique_batch {jobs j : Nat} (hj : j < jobs) :
    ∃! k : Nat, ∃ batch : List Nat, (numbers workers jobs)[k]? = some batch ∧ j ∈ batch := by
  have hjobs : 1 ≤ jobs := Nat.one_le_of_lt hj
  refine ⟨j / Batches.size workers jobs, (mem_numbers_iff hjobs).2 ⟨hj, rfl⟩, ?_⟩
  intro k hk
  exact ((mem_numbers_iff hjobs).1 hk).2.symm

theorem flatten_numbers (workers jobs : Nat) : (numbers workers jobs).flatten = List.range jobs :=
  cutFrom_flatten _ [] _

theorem ofList_map (f : α → β) (jobs : List α) :
    ofList workers (jobs.map f) = (ofList workers jobs).map (List.map f) := by
  rw [ofList, List.length_map]
  exact cutFrom_map f [] jobs

/-- A batch has the jobs of its numbers. -/
theorem ofList_eq_map_numbers (workers : Nat) (jobs : List α) :
    ofList workers jobs = (numbers workers jobs.length).map (List.filterMap (jobs[·]?)) := by
  have hnumbered : jobs.map some = (List.range jobs.length).map (jobs[·]?) := by
    refine List.ext_getElem (by simp) fun i hi _ => ?_
    have hi : i < jobs.length := by simpa using hi
    simp [hi]
  have hbatches : (ofList workers jobs).map (List.map some) =
      (numbers workers jobs.length).map (List.map (jobs[·]?)) := by
    rw [← ofList_map, hnumbered, ofList_map]
    rfl
  have hback := congrArg (List.map (List.filterMap id)) hbatches
  simpa [Function.comp_def] using hback

end Batches

/-! ## Scanning -/

namespace Workshop

variable {α β : Type} {world : Sandbox} {workshop : Workshop}

/-- Every batch is the shift of a worker of its own. -/
theorem runBatches_run {work : α → StateM Workshop β} {result : α → β}
    {accesses : α → List Access}
    (h : ∀ job, Looks world (work job) (result job) (accesses job))
    (hworkshop : workshop.sandbox = world) (jobs : List α) :
    (Batches.run work jobs).run workshop =
      (((Batches.ofList world.workers jobs).zipIdx workshop.shifts.length).map
          fun (batch, number) =>
            if workshop.stops number then none else some (batch.map result),
        { workshop with
          shifts := workshop.shifts ++
            (Batches.ofList world.workers jobs).map (List.flatMap accesses) }) := by
  have hworkers : (Host.workers : StateM Workshop Nat).run workshop =
      (world.workers, workshop) := by
    rw [← hworkshop]
    rfl
  rw [Batches.run, run_bind_eq hworkers]
  exact concurrently_run (.mapM h) hworkshop _

end Workshop

/-- A worker that stops fails the run, and another one breaks it off. If none stops, the outcomes of
the batches are put one behind the other. -/
theorem joinBatches_zipIdx {α : Type} (outcomes : α → List UnitOutcome) (stops : Nat → Bool)
    (batches : List α) :
    joinBatches (batches.zipIdx.map fun (batch, number) =>
        if stops number then none else some (outcomes batch)) =
      match (List.range batches.length).countP stops with
      | 0 => .ok (batches.flatMap outcomes)
      | 1 => .error .workerFailed
      | _ => .error .workersFailed := by
  let result (worker : α × Nat) : Option (List UnitOutcome) :=
    if stops worker.2 then none else some (outcomes worker.1)
  have hnumbers : batches.zipIdx.map Prod.snd = List.range batches.length := by
    rw [List.zipIdx_map_snd, List.range_eq_range']
  have hnone (worker : α × Nat) : (result worker).isNone = stops worker.2 := by
    cases hstops : stops worker.2 <;> simp [result, hstops]
  have hcount : (batches.zipIdx.map result).countP Option.isNone =
      (List.range batches.length).countP stops := by
    rw [← hnumbers, List.countP_map, List.countP_map]
    exact congrArg (List.countP · _) (funext hnone)
  change joinBatches (batches.zipIdx.map result) = _
  cases hstops : (List.range batches.length).countP stops with
  | zero =>
    have hresult : ∀ worker ∈ batches.zipIdx, result worker = some (outcomes worker.1) := by
      intro worker hworker
      have hnumber : worker.2 ∈ List.range batches.length :=
        hnumbers ▸ List.mem_map_of_mem hworker
      exact if_neg (List.countP_eq_zero.1 hstops _ hnumber)
    have hresults : batches.zipIdx.map result =
        batches.map fun batch => some (outcomes batch) := by
      calc batches.zipIdx.map result
        _ = batches.zipIdx.map fun worker => some (outcomes worker.1) :=
          List.map_congr_left hresult
        _ = (batches.zipIdx.map Prod.fst).map fun batch => some (outcomes batch) := by
          simp only [List.map_map, Function.comp_def]
        _ = batches.map fun batch => some (outcomes batch) := by rw [List.zipIdx_map_fst]
    rw [hresults]
    exact joinBatches_map_some outcomes batches
  | succ n =>
    rw [joinBatches, hcount, hstops]
    cases n <;> rfl

/-- On a workshop that has not started a worker yet, each batch is scanned by a worker of its own. -/
theorem scanInputs_workshop (settings : ExtractSettings) (paths : List Path) {begun : Workshop}
    {world : Sandbox} (hworld : begun.sandbox = world) (hshifts : begun.shifts = []) :
    (scanInputs settings paths : Action (StateM Workshop) _).run begun =
      (match (List.range (Batches.ofList world.workers paths).length).countP begun.stops with
        | 0 => .ok (paths.map (world.outcome settings))
        | 1 => .error .workerFailed
        | _ => .error .workersFailed,
        { begun with
          shifts := (Batches.ofList world.workers paths).map
            (List.flatMap (world.accesses settings.maxInputBytes)) }) := by
  have hrun := Workshop.runBatches_run (Looks.scanFile world settings) hworld paths
  rw [hshifts, List.nil_append, List.length_nil] at hrun
  have hjoin := joinBatches_zipIdx (List.map (world.outcome settings)) begun.stops
    (Batches.ofList world.workers paths)
  rw [Batches.ofList_flatMap_map] at hjoin
  exact (run_bind_eq hrun _).trans (congrArg (·, _) hjoin)

/-- Scanning documents in batches is scanning them one by one, for every number of workers.

The size of the batches is positive, and it is the least with which one batch for each worker, or for
each document if these are fewer, has room for all; more workers than that are never started. Document
`j` is in batch `j / size` and in no other, and one behind the other the batches have the documents in
their order. Each worker looks at what it takes to read the documents of its batch, and the run itself
looks at nothing; scanning one by one takes the same looks in the same order. If no worker stops, the
outcomes are those of scanning one by one. A worker that stops fails the run, and several break it
off. -/
theorem scanInputs_eq_oneByOne (settings : ExtractSettings) {paths : List Path}
    (hpaths : paths ≠ []) {world : Sandbox} (hworkers : 1 ≤ world.workers) (stops : Nat → Bool) :
    let size := Batches.size world.workers paths.length
    let numbers := Batches.numbers world.workers paths.length
    let batches := numbers.map (List.filterMap (paths[·]?))
    let begun : Workshop := { sandbox := world, stops }
    let run := (scanInputs settings paths : Action (StateM Workshop) _).run begun
    let oneByOne := (paths.mapM (scanFile settings) : StateM Workshop _).run begun
    1 ≤ size ∧
      (∀ s, size ≤ s ↔ paths.length ≤ min world.workers paths.length * s) ∧
      run.2.shifts.length ≤ min world.workers paths.length ∧
      (∀ j k : Nat, (∃ batch, numbers[k]? = some batch ∧ j ∈ batch) ↔
        j < paths.length ∧ j / size = k) ∧
      (∀ j < paths.length,
        ∃! k : Nat, ∃ batch : List Nat, numbers[k]? = some batch ∧ j ∈ batch) ∧
      numbers.flatten = List.range paths.length ∧
      run.2 = { begun with
        shifts := batches.map (List.flatMap (world.accesses settings.maxInputBytes)) } ∧
      oneByOne = (paths.map (world.outcome settings), begun.record run.2.shifts.flatten) ∧
      run.1 =
        match (List.range run.2.shifts.length).countP stops with
        | 0 => .ok oneByOne.1
        | 1 => .error .workerFailed
        | _ => .error .workersFailed := by
  intro size numbers batches begun run oneByOne
  have hlength : 1 ≤ paths.length := List.length_pos_iff.2 hpaths
  have hbatches : Batches.ofList world.workers paths = batches :=
    Batches.ofList_eq_map_numbers world.workers paths
  have hrun : run = _ := scanInputs_workshop settings paths rfl rfl
  have honeByOne : oneByOne = (paths.map (world.outcome settings),
      begun.record (paths.flatMap (world.accesses settings.maxInputBytes))) :=
    Looks.mapM (Looks.scanFile world settings) paths begun rfl
  have hstarted : run.2.shifts.length = (Batches.ofList world.workers paths).length := by
    rw [hrun, List.length_map]
  have haccesses : run.2.shifts.flatten =
      paths.flatMap (world.accesses settings.maxInputBytes) := by
    rw [hrun, ← List.flatMap_def, Batches.ofList_flatMap_flatMap]
  refine ⟨Batches.size_pos _ hlength, fun s => ?_, ?_, fun j k => Batches.mem_numbers_iff hlength,
    fun j hj => Batches.existsUnique_batch hj, Batches.flatten_numbers _ _, ?_, ?_, ?_⟩
  · rw [← Batches.crew_eq hworkers hlength]
    exact Batches.size_le_iff
  · rw [hstarted]
    exact Batches.length_ofList_le hworkers hpaths
  · rw [hrun, hbatches]
  · rw [honeByOne, haccesses]
  · rw [hstarted, hrun, honeByOne]

/-- Five documents keep three of four workers busy. Only one of the documents can be opened. -/
theorem scanInputs_eq_oneByOne_five :
    let paths : List Path := ["a.json", "b.json", "c.json", "d.json", "e.json"].map Path.mk
    let world : Sandbox := { tree := .directory [("b.json", .file "[]".toUTF8)], workers := 4 }
    let begun : Workshop := { sandbox := world }
    let run := (scanInputs {} paths : Action (StateM Workshop) _).run begun
    let halted := (scanInputs {} paths : Action (StateM Workshop) _).run
      { begun with stops := (· == 1) }
    paths ≠ [] ∧ 1 ≤ world.workers ∧
      Batches.numbers world.workers paths.length = [[0, 1], [2, 3], [4]] ∧
      run.2.shifts =
        [[.size ⟨"a.json"⟩, .size ⟨"b.json"⟩, .content ⟨"b.json"⟩],
          [.size ⟨"c.json"⟩, .size ⟨"d.json"⟩], [.size ⟨"e.json"⟩]] ∧
      run.1 = .ok ((paths.mapM (scanFile {}) : StateM Workshop _).run begun).1 ∧
      halted.1 = .error .workerFailed := by
  intro paths world begun run halted
  have hpaths : paths ≠ [] := by simp [paths]
  have hworkers : 1 ≤ world.workers := by decide
  obtain ⟨-, -, -, -, -, -, hafter, -, hresult⟩ :=
    scanInputs_eq_oneByOne {} hpaths hworkers begun.stops
  obtain ⟨-, -, -, -, -, -, hstopped, -, hfailure⟩ :=
    scanInputs_eq_oneByOne {} hpaths hworkers (· == 1)
  refine ⟨hpaths, hworkers, by decide, ?_, ?_, ?_⟩
  · exact (congrArg Workshop.shifts hafter).trans (by decide +kernel)
  · have hnone : (List.range run.2.shifts.length).countP begun.stops = 0 := by simp [begun]
    rw [hnone] at hresult
    exact hresult
  · have hstarted : halted.2.shifts.length = 3 :=
      (congrArg (·.shifts.length) hstopped).trans (by decide +kernel)
    rw [hstarted] at hfailure
    exact hfailure

end Phrasebook
