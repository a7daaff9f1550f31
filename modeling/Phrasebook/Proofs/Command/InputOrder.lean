-- SUMMARY: What the order of the input files on the command line has to do with a run.
import Phrasebook.Command.Extract
import Phrasebook.Proofs.Files.Order

/-!
# The order of inputs

A run sorts its inputs, so their order has no part in it but for the spelling in which a path is
given first. That spelling names the unit, and it is the one that is read (`ExtractRequest.run_of_perm`).
-/
namespace Phrasebook

/-- Inputs in another order are the same paths. They are spelled as before if every path is given
in the same spelling first, as it is where no path is given in two spellings; then the run is the
same. -/
theorem ExtractRequest.run_of_perm {request : ExtractRequest} {inputs : List Path}
    (hperm : request.inputs.Perm inputs) :
    (Path.sortedDistinct request.inputs).map Path.components =
        (Path.sortedDistinct inputs).map Path.components ∧
      ((∀ a ∈ request.inputs, ∀ b ∈ request.inputs, a.same b = true → a = b) →
        Path.SpelledAlike request.inputs inputs) ∧
      (Path.sortedDistinct request.inputs = Path.sortedDistinct inputs ↔
        Path.SpelledAlike request.inputs inputs) ∧
      (Path.SpelledAlike request.inputs inputs →
        ∀ (m : Type → Type) [Monad m] [Host m] (session : Session) (environment : Environment)
          (config : Option Path),
          ({ request with inputs } : ExtractRequest).run session environment config =
            (request.run session environment config : Action m Exit)) := by
  refine ⟨Path.components_sortedDistinct_of_perm hperm, Path.spelledAlike_of_perm hperm,
    Path.sortedDistinct_eq_iff, ?_⟩
  intro halike m _ _ session environment config
  simp only [run, Path.sortedDistinct_eq_iff.2 halike]

/-- The order of two files does not count. -/
theorem run_of_perm_swapped :
    [Path.mk "a.json", ⟨"b.json"⟩].Perm [⟨"b.json"⟩, ⟨"a.json"⟩] ∧
      ({ inputs := [⟨"b.json"⟩, ⟨"a.json"⟩] } : ExtractRequest).run { complaint := "" } {} none =
        (({ inputs := [⟨"a.json"⟩, ⟨"b.json"⟩] } : ExtractRequest).run { complaint := "" } {} none :
          Action (StateM Sandbox) Exit) := by
  let request : ExtractRequest := { inputs := [⟨"a.json"⟩, ⟨"b.json"⟩] }
  have hperm : request.inputs.Perm [⟨"b.json"⟩, ⟨"a.json"⟩] := .swap _ _ _
  have hspelled : ∀ a ∈ request.inputs, ∀ b ∈ request.inputs, a.same b = true → a = b := by
    decide +kernel
  obtain ⟨-, halike, -, hrun⟩ := ExtractRequest.run_of_perm hperm
  exact ⟨hperm, hrun (halike hspelled) _ _ _ _⟩

/-- A document that can be read. -/
def oneDocument : Sandbox where
  tree := .directory [("e.json", .file
    r#"{"nodes":[{"kind":"text","value":"Save"}]}"#.toUTF8)]

/-- The document, first as if it were a directory. -/
def slashedFirst : ExtractRequest where
  inputs := [⟨"e.json/"⟩, ⟨"e.json"⟩]

/-- The same inputs in the other order. -/
def slashedLast : ExtractRequest where
  inputs := [⟨"e.json"⟩, ⟨"e.json/"⟩]

/-- In one order the run fails, in the other it does not. -/
theorem run_slashed :
    slashedFirst.inputs.Perm slashedLast.inputs ∧
      ((slashedFirst.run { complaint := "" } {} none : Action (StateM Sandbox) Exit).run
        oneDocument).1 = .error (.cannotRead .document ⟨"e.json/"⟩ .notDirectory) ∧
      ((slashedLast.run { complaint := "" } {} none : Action (StateM Sandbox) Exit).run
        oneDocument).1.toOption = some .success := by
  have hfirst : Path.sortedDistinct slashedFirst.inputs = [⟨"e.json/"⟩] := by
    rw [slashedFirst, Path.sortedDistinct, List.mergeSort_of_pairwise (by decide +kernel)]
    decide +kernel
  have hlast : Path.sortedDistinct slashedLast.inputs = [⟨"e.json"⟩] := by
    rw [slashedLast, Path.sortedDistinct, List.mergeSort_of_pairwise (by decide +kernel)]
    decide +kernel
  refine ⟨.swap _ _ _, ?_, ?_⟩
  · simp only [ExtractRequest.run, hfirst]
    rfl
  · simp only [ExtractRequest.run, hlast]
    decide +kernel

end Phrasebook
