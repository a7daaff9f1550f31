-- SUMMARY: Texts cut at their line feeds: the pieces hold none, and put together they are cut again.
import Phrasebook.Text.Lines

/-!
# Lines of a text

Two ways of cutting a text stand beside each other. `List.splitOn` drops the line feeds and gives
one piece more than there are feeds; `Text.lines` gives no piece behind a last feed. No piece of
either holds a line feed (`not_mem_of_mem_splitOn`, `not_mem_of_mem_lines`).
-/
namespace Phrasebook.Text

/-! ## Pieces between line feeds -/

theorem not_mem_of_mem_splitOn {c : Char} {cs piece : List Char} (h : piece ∈ cs.splitOn c) :
    c ∉ piece := by
  induction cs generalizing piece with
  | nil =>
    rw [List.splitOn_nil, List.mem_singleton] at h
    simp [h]
  | cons d cs ih =>
    rw [List.splitOn_cons_eq_if_modifyHead] at h
    split at h
    · rcases List.mem_cons.1 h with rfl | h
      · exact List.not_mem_nil
      · exact ih h
    · rename_i hd
      obtain ⟨first, rest, hsplit⟩ := List.exists_cons_of_ne_nil (List.splitOn_ne_nil c cs)
      rw [hsplit, List.modifyHead_cons] at h
      rcases List.mem_cons.1 h with rfl | h
      · have hfirst : c ∉ first := ih (hsplit ▸ List.mem_cons_self)
        have hne : ¬ c = d := fun heq => hd (beq_iff_eq.2 heq.symm)
        simp [hne, hfirst]
      · exact ih (hsplit ▸ List.mem_cons_of_mem _ h)

/-- Texts one below the other are cut as each of them is. -/
theorem splitOn_intercalate_eq_flatMap {c : Char} {texts : List (List Char)} (h : texts ≠ []) :
    ([c].intercalate texts).splitOn c = texts.flatMap (·.splitOn c) := by
  induction texts with
  | nil => exact absurd rfl h
  | cons first rest ih =>
    cases rest with
    | nil => simp
    | cons second rest =>
      rw [List.flatMap_cons, List.intercalate_cons_cons, List.append_assoc, List.singleton_append,
        List.splitOn_append_cons_self, ih (List.cons_ne_nil _ _)]

/-- Texts that each end with a line feed leave an empty piece at the end. -/
theorem splitOn_flatMap_append_singleton {c : Char} {texts : List (List Char)} :
    (texts.flatMap (· ++ [c])).splitOn c = texts.flatMap (·.splitOn c) ++ [[]] := by
  induction texts with
  | nil => rfl
  | cons first rest ih =>
    rw [List.flatMap_cons, List.append_assoc, List.singleton_append, List.splitOn_append_cons_self,
      ih, List.flatMap_cons, List.append_assoc]

/-- What stands in front of the first piece goes with it. -/
theorem splitOn_append_of_not_mem {c : Char} {front : List Char} (h : c ∉ front)
    (cs : List Char) : (front ++ cs).splitOn c = (cs.splitOn c).modifyHead (front ++ ·) := by
  induction front with
  | nil =>
    cases hsplit : cs.splitOn c <;> simp [hsplit]
  | cons d front ih =>
    have hd : (d == c) = false := beq_eq_false_iff_ne.2 fun heq => h (heq ▸ List.mem_cons_self)
    have hfront : c ∉ front := fun hmem => h (List.mem_cons_of_mem d hmem)
    rw [List.cons_append, List.splitOn_cons_eq_if_modifyHead, hd, ih hfront]
    cases cs.splitOn c <;> simp

theorem tail_splitOn_eq_nil_iff {c : Char} {cs : List Char} :
    (cs.splitOn c).tail = [] ↔ c ∉ cs := by
  constructor
  · intro h
    obtain ⟨first, rest, hsplit⟩ := List.exists_cons_of_ne_nil (List.splitOn_ne_nil c cs)
    rw [hsplit, List.tail_cons] at h
    subst h
    have hcs : [c].intercalate (cs.splitOn c) = cs := List.intercalate_splitOn c
    rw [hsplit, List.intercalate_singleton] at hcs
    exact hcs ▸ not_mem_of_mem_splitOn (hsplit ▸ List.mem_singleton_self first)
  · intro h
    rw [List.splitOn_eq_singleton h]
    rfl

/-! ## Lines without their ends -/

theorem exists_of_mem_segmentsFrom {line cs segment : List Char} (hline : '\n' ∉ line)
    (h : segment ∈ segmentsFrom line cs) :
    ∃ body, '\n' ∉ body ∧ (segment = body ∨ segment = body ++ ['\n']) := by
  induction cs generalizing line with
  | nil =>
    rw [segmentsFrom] at h
    split at h
    · cases h
    · rw [List.mem_singleton.1 h]
      exact ⟨line.reverse, by simpa using hline, Or.inl rfl⟩
  | cons c cs ih =>
    rw [segmentsFrom] at h
    split at h
    · rename_i hc
      rcases List.mem_cons.1 h with rfl | h
      · exact ⟨line.reverse, by simpa using hline, Or.inr (by rw [hc, List.reverse_cons])⟩
      · exact ih List.not_mem_nil h
    · rename_i hc
      have hnew : '\n' ∉ c :: line := by
        rw [List.mem_cons, not_or]
        exact ⟨Ne.symm hc, hline⟩
      exact ih hnew h

theorem not_mem_chomp {body : List Char} (hbody : '\n' ∉ body) :
    '\n' ∉ chomp body ∧ '\n' ∉ chomp (body ++ ['\n']) := by
  have hreverse : '\n' ∉ body.reverse := by simpa using hbody
  constructor
  · unfold chomp
    split
    · rename_i hsegment
      simp [hsegment] at hreverse
    · rename_i hsegment
      simp [hsegment] at hreverse
    · simpa using hreverse
  · unfold chomp
    rw [List.reverse_append, List.reverse_singleton, List.singleton_append]
    split
    · rename_i line hsegment
      rw [(List.cons.inj hsegment).2] at hreverse
      simpa using fun hmem => hreverse (List.mem_cons_of_mem _ hmem)
    · rename_i line _ hsegment
      rw [(List.cons.inj hsegment).2] at hreverse
      simpa using hreverse
    · rename_i hother
      exact absurd rfl (hother _)

theorem not_mem_of_mem_lines {cs line : List Char} (h : line ∈ lines cs) : '\n' ∉ line := by
  obtain ⟨segment, hsegment, rfl⟩ := List.mem_map.1 h
  obtain ⟨body, hbody, rfl | rfl⟩ := exists_of_mem_segmentsFrom List.not_mem_nil hsegment
  · exact (not_mem_chomp hbody).1
  · exact (not_mem_chomp hbody).2

end Phrasebook.Text
