-- SUMMARY: Collapsed text in reading order, and which changes of a text collapsing does not notice.
import Phrasebook.Proofs.Text.Blank

/-!
# Collapsing

Collapsing writes onto a reversed text. `squeeze` is the same text in reading order
(`collapse_eq_squeeze`), and nothing is left in it to collapse (`collapse_collapse`). The blanks at
the ends of a text collapse by themselves (`collapse_append_append`). Two texts that collapse alike
still do so with text behind them (`collapse_append_congr`), and blanks collapse like any other
blanks (`collapse_blanks`).
-/
namespace Phrasebook.Text

/-- The text with one space for each run of blanks, and none for a run at the front if a space
stands before the text. -/
def squeeze (spaced : Bool) : List Char → List Char
  | [] => []
  | c :: cs =>
    if isBlank c then
      if spaced then squeeze true cs else ' ' :: squeeze true cs
    else c :: squeeze false cs

variable {c : Char} {cs ds out : List Char} {spaced : Bool}

theorem squeeze_blank (hc : isBlank c = true) :
    squeeze spaced (c :: cs) = if spaced then squeeze true cs else ' ' :: squeeze true cs := by
  rw [squeeze, if_pos hc]

theorem squeeze_cons (hc : isBlank c = false) : squeeze spaced (c :: cs) = c :: squeeze false cs := by
  rw [squeeze, if_neg (by simp [hc])]

theorem collapseOnto_eq (out cs : List Char) :
    collapseOnto out cs = (squeeze (out.head? == some ' ') cs).reverse ++ out := by
  induction cs generalizing out with
  | nil => rfl
  | cons c cs ih =>
    rw [collapseOnto]
    by_cases hc : isBlank c = true
    · rw [if_pos hc, squeeze_blank hc]
      by_cases hspace : out.head? = some ' '
      · simp [hspace, ih]
      · simp [hspace, ih]
    · have hne : (c == ' ') = false := by
        rw [beq_eq_false_iff_ne]
        rintro rfl
        exact hc rfl
      rw [if_neg hc, ih, squeeze_cons (by simpa using hc)]
      simp [hne]

theorem collapse_eq_squeeze (cs : List Char) : collapse cs = squeeze false cs := by
  rw [collapse, collapseOnto_eq, List.append_nil, List.reverse_reverse]
  rfl

/-- Collapsing changes nothing in collapsed text, unless a space is taken to stand before it the
second time only. -/
theorem squeeze_squeeze {spaced spaced' : Bool} (h : spaced' = true → spaced = true)
    (cs : List Char) : squeeze spaced' (squeeze spaced cs) = squeeze spaced cs := by
  induction cs generalizing spaced spaced' with
  | nil => rfl
  | cons c cs ih =>
    by_cases hc : isBlank c = true
    · rw [squeeze_blank hc]
      cases spaced with
      | true => exact ih (fun _ => rfl)
      | false =>
        have hspaced' : spaced' = false := by
          cases spaced' with
          | true => cases h rfl
          | false => rfl
        simp [hspaced', squeeze_blank isBlank_space, ih (fun _ => rfl)]
    · have hc' : isBlank c = false := by simpa using hc
      rw [squeeze_cons hc', squeeze_cons hc', ih (fun h => h)]

theorem collapse_collapse (cs : List Char) : collapse (collapse cs) = collapse cs := by
  simp only [collapse_eq_squeeze]
  exact squeeze_squeeze (fun h => h) cs

/-! ## Parts of a text -/

/-- In front of a text that does not start with a blank, a space makes no difference. -/
theorem squeeze_spaced (h : StartsTight cs) (spaced spaced' : Bool) :
    squeeze spaced cs = squeeze spaced' cs := by
  cases cs with
  | nil => rfl
  | cons c cs => rw [squeeze_cons (h c rfl), squeeze_cons (h c rfl)]

/-- Behind a text, blanks at the front are left out if the text ends in a blank. -/
theorem squeeze_append (spaced : Bool) (cs ds : List Char) :
    squeeze spaced (cs ++ ds) =
      squeeze spaced cs ++ squeeze (cs.getLast?.elim spaced isBlank) ds := by
  induction cs generalizing spaced with
  | nil => rfl
  | cons c cs ih =>
    have hlast : (c :: cs).getLast?.elim spaced isBlank =
        cs.getLast?.elim (isBlank c) isBlank := by
      rw [List.getLast?_cons]
      cases cs.getLast? <;> rfl
    rw [hlast, List.cons_append]
    by_cases hc : isBlank c = true
    · rw [squeeze_blank hc, squeeze_blank hc, ih, hc]
      cases spaced <;> rfl
    · have hc' : isBlank c = false := by simpa using hc
      rw [squeeze_cons hc', squeeze_cons hc', ih, hc', List.cons_append]

/-- The blanks at the ends of a text collapse by themselves. -/
theorem collapse_append_append {front core back : List Char} (hstart : StartsTight (core ++ back))
    (hend : EndsTight core) :
    collapse (front ++ (core ++ back)) = collapse front ++ (collapse core ++ collapse back) := by
  have hunspaced : core.getLast?.elim false isBlank = false := by
    cases hlast : core.getLast? with
    | none => rfl
    | some c => exact hend c hlast
  simp only [collapse_eq_squeeze]
  rw [squeeze_append, squeeze_spaced hstart _ false, squeeze_append, hunspaced]

theorem startsTight_collapse (h : StartsTight cs) : StartsTight (collapse cs) := by
  rw [collapse_eq_squeeze]
  cases cs with
  | nil => exact .nil
  | cons c cs =>
    have hc : isBlank c = false := h c rfl
    simpa [squeeze_cons hc] using hc

theorem endsTight_collapse (h : EndsTight cs) : EndsTight (collapse cs) := by
  rw [collapse_eq_squeeze]
  rcases List.eq_nil_or_concat cs with rfl | ⟨front, c, rfl⟩
  · exact .nil
  · have hc : isBlank c = false := h c (by simp)
    have hlast : EndsTight [c] := by simpa [EndsTight] using hc
    rw [List.concat_eq_append, squeeze_append, squeeze_cons hc]
    exact hlast.append_cons

theorem collapse_eq_nil_iff : collapse cs = [] ↔ cs = [] := by
  rw [collapse_eq_squeeze]
  cases cs with
  | nil => simp [squeeze]
  | cons c cs =>
    rw [squeeze]
    split <;> simp

/-! ## Texts that collapse alike -/

theorem collapseOnto_append (out cs ds : List Char) :
    collapseOnto out (cs ++ ds) = collapseOnto (collapseOnto out cs) ds := by
  induction cs generalizing out with
  | nil => rfl
  | cons c cs ih =>
    simp only [List.cons_append, collapseOnto, ih]
    split <;> rfl

theorem collapse_append_congr (h : collapse cs = collapse ds) (tail : List Char) :
    collapse (cs ++ tail) = collapse (ds ++ tail) := by
  have honto : collapseOnto [] cs = collapseOnto [] ds := List.reverse_inj.1 h
  rw [collapse, collapse, collapseOnto_append, collapseOnto_append, honto]

/-- A run of blanks writes a space, unless there is one. -/
theorem collapseOnto_blanks {blanks : List Char} (hne : blanks ≠ [])
    (hblanks : ∀ b ∈ blanks, isBlank b = true) :
    collapseOnto out blanks = if out.head? = some ' ' then out else ' ' :: out := by
  induction blanks generalizing out with
  | nil => exact absurd rfl hne
  | cons b blanks ih =>
    obtain ⟨hb, hrest⟩ := List.forall_mem_cons.1 hblanks
    rw [collapseOnto, if_pos hb]
    cases blanks with
    | nil => rfl
    | cons b' blanks =>
      rw [ih (by simp) hrest]
      by_cases hspace : out.head? = some ' '
      · simp [hspace]
      · simp [hspace]

theorem collapse_blanks (front : List Char) {blanks blanks' : List Char} (hne : blanks ≠ [])
    (hblanks : ∀ b ∈ blanks, isBlank b = true) (hne' : blanks' ≠ [])
    (hblanks' : ∀ b ∈ blanks', isBlank b = true) :
    collapse (front ++ blanks) = collapse (front ++ blanks') := by
  rw [collapse, collapse, collapseOnto_append, collapseOnto_append,
    collapseOnto_blanks hne hblanks, collapseOnto_blanks hne' hblanks']

end Phrasebook.Text
