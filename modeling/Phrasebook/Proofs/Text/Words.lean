-- SUMMARY: The words of a text, which its layout leaves alone and which collapsed text spells out.
import Phrasebook.Proofs.Text.Collapse

/-!
# Words

The words of a text are what is left of the pieces between its blanks when the empty pieces are
taken out (`words_eq_filter_splitOnP`). Trimming and collapsing do not change them (`words_trim`,
`words_collapse`), and a text that is trimmed and collapsed is its words with single spaces between
them (`collapse_trim`).
-/
namespace Phrasebook.Text

variable {c : Char} {cs word blanks : List Char}

/-! ## Reading words -/

/-- A blank ends the word under way. -/
theorem wordsFrom_blank (hc : isBlank c = true) :
    wordsFrom word (c :: cs) = wordsFrom word [] ++ words cs := by
  simp only [wordsFrom, if_pos hc, words]
  split <;> rfl

theorem wordsFrom_cons (hc : isBlank c = false) :
    wordsFrom word (c :: cs) = wordsFrom (c :: word) cs := by
  simp [wordsFrom, hc]

/-- The words are the pieces between blanks, without the empty pieces. -/
theorem words_eq_filter_splitOnP (cs : List Char) :
    words cs = (cs.splitOnP isBlank).filter (!·.isEmpty) := by
  have hwhole (pieces : List (List Char)) : pieces.modifyHead (fun piece => piece) = pieces := by
    cases pieces <;> rfl
  -- the word under way belongs to the first piece
  have hfrom (word cs : List Char) : wordsFrom word cs =
      ((cs.splitOnP isBlank).modifyHead (word.reverse ++ ·)).filter (!·.isEmpty) := by
    induction cs generalizing word with
    | nil => cases word <;> simp [wordsFrom, List.splitOnP_nil]
    | cons c cs ih =>
      rw [List.splitOnP_cons_eq_if_modifyHead]
      cases hc : isBlank c with
      | true =>
        rw [wordsFrom_blank hc, if_pos rfl, words, ih]
        cases word <;> simp [wordsFrom, hwhole]
      | false =>
        rw [wordsFrom_cons hc, ih, if_neg nofun, List.modifyHead_modifyHead]
        simp [Function.comp_def]
  simpa [words, hwhole] using hfrom [] cs

theorem wordsFrom_eq_nil_iff :
    wordsFrom word cs = [] ↔ word = [] ∧ ∀ c ∈ cs, isBlank c = true := by
  induction cs generalizing word with
  | nil => cases word <;> simp [wordsFrom]
  | cons c cs ih =>
    cases hc : isBlank c with
    | true =>
      have hend : wordsFrom word [] = [] ↔ word = [] := by cases word <;> simp [wordsFrom]
      simp [wordsFrom_blank hc, words, ih, hend, hc]
    | false => simp [wordsFrom_cons hc, ih, hc]

/-- Only a blank text has no words. -/
theorem words_eq_nil_iff : words cs = [] ↔ ∀ c ∈ cs, isBlank c = true := by
  simp [words, wordsFrom_eq_nil_iff]

/-- There is a word in a text that ends in one. -/
theorem words_ne_nil (hne : cs ≠ []) (h : EndsTight cs) : words cs ≠ [] := by
  intro hnone
  have hlast := h _ (List.getLast?_eq_some_getLast hne)
  rw [words_eq_nil_iff.1 hnone _ (List.getLast_mem hne)] at hlast
  cases hlast

/-! ## Layout -/

theorem words_blanks_append (h : ∀ b ∈ blanks, isBlank b = true) (cs : List Char) :
    words (blanks ++ cs) = words cs := by
  induction blanks with
  | nil => rfl
  | cons b blanks ih =>
    obtain ⟨hb, hrest⟩ := List.forall_mem_cons.1 h
    exact (wordsFrom_blank hb).trans (ih hrest)

theorem wordsFrom_append_blanks (h : ∀ b ∈ blanks, isBlank b = true) (word cs : List Char) :
    wordsFrom word (cs ++ blanks) = wordsFrom word cs := by
  induction cs generalizing word with
  | nil =>
    cases blanks with
    | nil => rfl
    | cons b blanks =>
      obtain ⟨hb, hrest⟩ := List.forall_mem_cons.1 h
      rw [List.nil_append, wordsFrom_blank hb, words_eq_nil_iff.2 hrest, List.append_nil]
  | cons c cs ih =>
    rw [List.cons_append]
    cases hc : isBlank c with
    | true => rw [wordsFrom_blank hc, wordsFrom_blank hc, words, ih, words]
    | false => rw [wordsFrom_cons hc, wordsFrom_cons hc, ih]

/-- Blanks at the ends of a text belong to no word. -/
theorem words_trim (cs : List Char) : words (trim cs) = words cs := by
  obtain ⟨blanks, hblanks, htrim⟩ := exists_trimEnd_append (trimStart cs)
  calc words (trim cs)
      = words (trim cs ++ blanks) := (wordsFrom_append_blanks hblanks [] (trim cs)).symm
    _ = words (trimStart cs) := by rw [trim, htrim]
    _ = words (cs.takeWhile isBlank ++ trimStart cs) :=
        (words_blanks_append (fun _ => isBlank_of_mem_takeWhile) _).symm
    _ = words cs := by rw [takeWhile_append_trimStart]

theorem wordsFrom_squeeze {spaced : Bool} (h : spaced = true → word = []) (cs : List Char) :
    wordsFrom word (squeeze spaced cs) = wordsFrom word cs := by
  induction cs generalizing spaced word with
  | nil => rfl
  | cons c cs ih =>
    cases hc : isBlank c with
    | true =>
      have hrest : words (squeeze true cs) = words cs := ih fun _ => rfl
      rw [squeeze_blank hc, wordsFrom_blank hc]
      cases spaced with
      | true => rw [h rfl]; exact hrest
      | false => exact (wordsFrom_blank isBlank_space).trans (by rw [hrest])
    | false =>
      rw [squeeze_cons hc, wordsFrom_cons hc, wordsFrom_cons hc]
      exact ih nofun

/-- Collapsing keeps words and their order. -/
theorem words_collapse (cs : List Char) : words (collapse cs) = words cs := by
  rw [collapse_eq_squeeze]
  exact wordsFrom_squeeze (fun _ => rfl) cs

/-! ## Spelling out words -/

/-- A text that ends in a word collapses to its words with spaces between them. -/
theorem intercalate_wordsFrom (h : EndsTight cs) (word : List Char) :
    [' '].intercalate (wordsFrom word cs) = word.reverse ++ squeeze word.isEmpty cs := by
  induction cs generalizing word with
  | nil => cases word <;> simp [wordsFrom, squeeze]
  | cons c cs ih =>
    have hcs : EndsTight cs := h.of_cons
    cases hc : isBlank c with
    | true =>
      have hrest : [' '].intercalate (words cs) = squeeze true cs := ih hcs []
      rw [wordsFrom_blank hc, squeeze_blank hc]
      cases word with
      | nil => simpa [wordsFrom] using hrest
      | cons d word =>
        -- the text does not end in the blank, so a space and another word follow
        have hne : cs ≠ [] := by
          rintro rfl
          cases (h c rfl).symm.trans hc
        obtain ⟨next, others, hwords⟩ := List.exists_cons_of_ne_nil (words_ne_nil hne hcs)
        rw [hwords] at hrest
        simp [wordsFrom, hwords, hrest]
    | false =>
      rw [wordsFrom_cons hc, squeeze_cons hc, ih hcs]
      simp

/-- A text without layout is its words with single spaces between them. -/
theorem collapse_trim (cs : List Char) : collapse (trim cs) = [' '].intercalate (words cs) := by
  calc collapse (trim cs)
      = squeeze false (trim cs) := collapse_eq_squeeze _
    _ = squeeze true (trim cs) := squeeze_spaced (startsTight_trim cs) false true
    _ = [' '].intercalate (words (trim cs)) := (intercalate_wordsFrom (endsTight_trimEnd _) []).symm
    _ = [' '].intercalate (words cs) := by rw [words_trim]

end Phrasebook.Text
