-- SUMMARY: What trimming does to a text put together from parts.
import Phrasebook.Text.Blank

/-!
# Trimming

Trimming stops at the first character that is not blank, so it leaves alone what lies behind such a
character or in front of one (`trimEnd_append_cons`).
-/
namespace Phrasebook.Text

/-- The text is empty or starts with a character that is not blank. -/
def StartsTight (cs : List Char) : Prop := ∀ c ∈ cs.head?, isBlank c = false

/-- The text is empty or ends in a character that is not blank. -/
def EndsTight (cs : List Char) : Prop := ∀ c ∈ cs.getLast?, isBlank c = false

@[simp] theorem StartsTight.nil : StartsTight [] := by simp [StartsTight]
@[simp] theorem EndsTight.nil : EndsTight [] := by simp [EndsTight]

@[simp] theorem StartsTight.cons_iff {c : Char} {cs : List Char} :
    StartsTight (c :: cs) ↔ isBlank c = false := by
  simp [StartsTight]

theorem StartsTight.of_append {cs ds : List Char} (h : StartsTight (cs ++ ds)) :
    StartsTight cs := by
  cases cs with
  | nil => exact .nil
  | cons c cs => exact h

theorem EndsTight.of_cons {c : Char} {cs : List Char} (h : EndsTight (c :: cs)) :
    EndsTight cs := by
  cases cs with
  | nil => exact .nil
  | cons d cs => simpa [EndsTight] using h

theorem EndsTight.append_cons {cs ds : List Char} {c : Char} (h : EndsTight (c :: ds)) :
    EndsTight (cs ++ c :: ds) := by
  simpa [EndsTight, List.getLast?_append] using h

theorem EndsTight.append {cs ds : List Char} (hcs : EndsTight cs) (hds : EndsTight ds) :
    EndsTight (cs ++ ds) := by
  cases ds with
  | nil => simpa using hcs
  | cons d ds => exact hds.append_cons

theorem isBlank_of_mem_takeWhile {c : Char} {cs : List Char} (h : c ∈ cs.takeWhile isBlank) :
    isBlank c = true :=
  List.all_eq_true.1 List.all_takeWhile c h

theorem trimStart_cons_blank {c : Char} {cs : List Char} (hc : isBlank c = true) :
    trimStart (c :: cs) = trimStart cs := by
  simp [trimStart, hc]

theorem trimStart_blanks_append {blanks cs : List Char} (h : ∀ b ∈ blanks, isBlank b = true) :
    trimStart (blanks ++ cs) = trimStart cs :=
  List.dropWhile_append_of_pos h

theorem trimStart_eq_nil_iff {cs : List Char} :
    trimStart cs = [] ↔ ∀ c ∈ cs, isBlank c = true := by
  constructor
  · intro h c hc
    rw [← takeWhile_append_trimStart cs, h, List.append_nil] at hc
    exact isBlank_of_mem_takeWhile hc
  · intro h
    have hnil : trimStart (cs ++ []) = trimStart [] := trimStart_blanks_append h
    rwa [List.append_nil] at hnil

theorem trimStart_eq_self {cs : List Char} (h : StartsTight cs) : trimStart cs = cs := by
  cases cs with
  | nil => rfl
  | cons c cs => simp [trimStart, h c rfl]

theorem takeWhile_eq_nil {cs : List Char} (h : StartsTight cs) : cs.takeWhile isBlank = [] := by
  cases cs with
  | nil => rfl
  | cons c cs => simp [h c rfl]

theorem startsTight_trimStart (cs : List Char) : StartsTight (trimStart cs) := by
  intro c hc
  have := List.head?_dropWhile_not isBlank cs
  rw [show (cs.dropWhile isBlank).head? = some c from hc] at this
  simpa using this

theorem trimEnd_eq_self {cs : List Char} (h : EndsTight cs) : trimEnd cs = cs := by
  have htight : StartsTight cs.reverse := by simpa [StartsTight, EndsTight] using h
  have hdrop : cs.reverse.dropWhile isBlank = cs.reverse := trimStart_eq_self htight
  rw [trimEnd, hdrop, List.reverse_reverse]

theorem endsTight_trimEnd (cs : List Char) : EndsTight (trimEnd cs) := by
  have h := startsTight_trimStart cs.reverse
  simpa [EndsTight, StartsTight, trimEnd, trimStart] using h

theorem trimEnd_append_blanks {cs blanks : List Char} (h : ∀ c ∈ blanks, isBlank c = true) :
    trimEnd (cs ++ blanks) = trimEnd cs := by
  rw [trimEnd, List.reverse_append,
    List.dropWhile_append_of_pos fun c hc => h c (List.mem_reverse.1 hc), trimEnd]

/-- The blanks that trimming takes off the end. -/
theorem exists_trimEnd_append (cs : List Char) :
    ∃ blanks, (∀ c ∈ blanks, isBlank c = true) ∧ trimEnd cs ++ blanks = cs := by
  refine ⟨_, ?_, trimEnd_append_takeWhile cs⟩
  intro c hc
  exact isBlank_of_mem_takeWhile (List.mem_reverse.1 hc)

/-- Trimming leaves nothing at the end of a text only where there was nothing at its front. -/
theorem eq_nil_of_trimEnd {cs : List Char} (h : StartsTight cs) (hend : trimEnd cs = []) :
    cs = [] := by
  obtain ⟨blanks, hblanks, hcs⟩ := exists_trimEnd_append cs
  rw [hend, List.nil_append] at hcs
  cases cs with
  | nil => rfl
  | cons c cs => cases (h c rfl).symm.trans (hblanks c (by simp [hcs]))

theorem startsTight_trim (cs : List Char) : StartsTight (trim cs) := by
  obtain ⟨blanks, -, hcs⟩ := exists_trimEnd_append (trimStart cs)
  have htight := startsTight_trimStart cs
  rw [← hcs] at htight
  exact htight.of_append

/-- Trimming the end does not reach past a character that is not blank. -/
theorem trimEnd_append_cons {cs ds : List Char} {c : Char} (hc : isBlank c = false) :
    trimEnd (cs ++ c :: ds) = cs ++ c :: trimEnd ds := by
  obtain ⟨blanks, hblanks, hds⟩ := exists_trimEnd_append ds
  have htight : EndsTight (cs ++ ([c] ++ trimEnd ds)) := by
    have hchar : EndsTight [c] := by simpa [EndsTight] using hc
    exact (hchar.append (endsTight_trimEnd ds)).append_cons
  calc trimEnd (cs ++ c :: ds)
      = trimEnd (cs ++ ([c] ++ trimEnd ds) ++ blanks) := by simp [hds]
    _ = trimEnd (cs ++ ([c] ++ trimEnd ds)) := trimEnd_append_blanks hblanks
    _ = cs ++ c :: trimEnd ds := trimEnd_eq_self htight

end Phrasebook.Text
