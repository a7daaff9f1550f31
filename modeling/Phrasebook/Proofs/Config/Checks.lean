-- SUMMARY: What the checks on settings let pass.
import Phrasebook.Config.Validation

/-!
# Checks

A check that lets settings pass has let them pass at each of its steps (`check_then_iff`,
`check_each_iff`), and a step lets pass what it does not refuse (`refuseIf_iff`). Settings that pass
therefore keep the attributes with a meaning of their own apart (`ExtractSettings.attributes_apart`).
-/
namespace Phrasebook

theorem check_then_iff {first : Except Violation Unit} {next : Unit → Except Violation Unit} :
    first >>= next = .ok () ↔ first = .ok () ∧ next () = .ok () := by
  cases first with
  | ok => simp [bind, Except.bind]
  | error violation => simp [bind, Except.bind]

theorem check_each_iff {names : List String} {check : String → Except Violation Unit} :
    names.forM check = .ok () ↔ ∀ name ∈ names, check name = .ok () := by
  induction names with
  | nil => simp [List.forM, pure, Except.pure]
  | cons name names ih => rw [List.forM, check_then_iff, ih, List.forall_mem_cons]

theorem refuseIf_iff {condition : Bool} {violation : Violation} :
    refuseIf condition violation = .ok () ↔ condition = false := by
  cases condition <;> simp [refuseIf]

/-- The comment attribute is neither the message attribute nor translatable. -/
theorem ExtractSettings.attributes_apart {settings : ExtractSettings}
    (h : settings.check = .ok ()) :
    settings.messageAttribute ≠ settings.commentAttribute ∧
      settings.commentAttribute ∉ settings.translatableAttributes := by
  simp only [check, check_then_iff, check_each_iff, refuseIf_iff] at h
  obtain ⟨-, -, -, -, -, -, hdiffer, hreserved, -⟩ := h
  have htranslatable := hreserved settings.commentAttribute (by simp)
  exact ⟨by simpa using hdiffer, by simpa using htranslatable⟩

end Phrasebook
