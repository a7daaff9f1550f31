-- SUMMARY: How literal text is written into a template, read from it, filled and trimmed.
import Phrasebook.Message.Extraction
import Phrasebook.Proofs.Template.Segments
import Phrasebook.Proofs.Text.Blank

/-!
# Writing text

Extraction writes text onto a reversed template. `written` is the same text in reading order, with
a flag for a space that stands before (`writeText_eq`). The brace of a literal reference is escaped
by a look at the text alone, while filling looks ahead into what follows; `Breaks` is the condition
under which the two agree (`nameAt_written`): behind the text comes nothing that a reference begun
in it could go on with. Under it written text is a run, holds no reference, and fills back to
itself, whatever follows. Where blanks do not collapse it is read as its own characters
(`ofRun_written_append`), and for that it is enough that no reference begun before ends behind it.
-/
namespace Phrasebook.Template

open Text (isBlank)

/-! ## Text in reading order -/

/-- Text as extraction writes it, where `spaced` says whether a space stands before it. -/
def written (collapse spaced : Bool) : List Char → List Char
  | [] => []
  | c :: cs =>
    if collapse && isBlank c then
      if spaced then written collapse true cs else ' ' :: written collapse true cs
    else if isReserved c || (c == '{' && (nameAt cs).isSome) then
      '\\' :: c :: written collapse false cs
    else c :: written collapse false cs

variable {collapse spaced : Bool} {c x : Char} {cs ds tail : List Char}

@[simp] theorem written_nil : written collapse spaced [] = [] := rfl

theorem written_blank (hc : isBlank c = true) :
    written true spaced (c :: cs) =
      if spaced then written true true cs else ' ' :: written true true cs := by
  simp [written, hc]

/-- A character that does not collapse stands for itself, with a backslash where one is needed. -/
theorem written_cons (hc : (collapse && isBlank c) = false) :
    written collapse spaced (c :: cs) =
      if isReserved c || (c == '{' && (nameAt cs).isSome) then
        '\\' :: c :: written collapse false cs
      else c :: written collapse false cs := by
  simp [written, hc]

/-- A flag for a space makes no difference in front of a character that does not collapse. -/
theorem written_spaced (h : collapse = true → Text.StartsTight cs) (spaced' : Bool) :
    written collapse spaced cs = written collapse spaced' cs := by
  cases cs with
  | nil => rfl
  | cons c cs =>
    have hc : (collapse && isBlank c) = false := by
      cases collapse with
      | false => rfl
      | true => exact h rfl c rfl
    rw [written_cons hc, written_cons hc]

/-- Extraction writes text in this way behind what it has written. -/
theorem writeText_eq (spaced : Bool) (out : List Char)
    (hspaced : collapse = true → spaced = (out.head? == some ' ')) :
    writeText collapse out cs = (written collapse spaced cs).reverse ++ out := by
  induction cs generalizing out spaced with
  | nil => rfl
  | cons c cs ih =>
    by_cases hc : (collapse && isBlank c) = true
    · obtain ⟨rfl, hblank⟩ := Bool.and_eq_true_iff.1 hc
      rw [writeText, if_pos hc, written_blank hblank, hspaced rfl]
      by_cases hspace : out.head? = some ' '
      · simp [hspace, ih true out (by simp [hspace])]
      · simp [hspace, ih true (' ' :: out) (by simp)]
    · have hspaceless (out : List Char) :
          collapse = true → false = ((c :: out).head? == some ' ') := by
        rintro rfl
        have : c ≠ ' ' := by rintro rfl; exact hc rfl
        simpa using this
      rw [writeText, if_neg hc, written_cons (by simpa using hc)]
      split
      · rw [ih false (c :: '\\' :: out) (hspaceless _)]; simp
      · rw [ih false (c :: out) (hspaceless out)]; simp

/-- What is written for a character: at most a space for a blank that collapses, an escape pair, or
the character itself, which then is neither reserved nor the brace of a reference. -/
theorem written_cons_cases (collapse spaced : Bool) (c : Char) (cs : List Char) :
    (isBlank c = true ∧ (written collapse spaced (c :: cs) = written collapse true cs ∨
      written collapse spaced (c :: cs) = ' ' :: written collapse true cs)) ∨
    written collapse spaced (c :: cs) = '\\' :: c :: written collapse false cs ∨
    (isReserved c = false ∧ (c = '{' → nameAt cs = none) ∧
      written collapse spaced (c :: cs) = c :: written collapse false cs) := by
  by_cases hc : (collapse && isBlank c) = true
  · obtain ⟨rfl, hblank⟩ := Bool.and_eq_true_iff.1 hc
    refine .inl ⟨hblank, ?_⟩
    rw [written_blank hblank]
    cases spaced with
    | true => exact .inl rfl
    | false => exact .inr rfl
  · rw [written_cons (by simpa using hc)]
    split
    · exact .inr (.inl rfl)
    · rename_i hplain
      obtain ⟨hreserved, hnone⟩ : isReserved c = false ∧ (c = '{' → nameAt cs = none) := by
        simpa using hplain
      exact .inr (.inr ⟨hreserved, hnone, rfl⟩)

/-- Written text is a text run. -/
theorem RunText.written (collapse spaced : Bool) (cs : List Char) :
    RunText (written collapse spaced cs) := by
  induction cs generalizing spaced with
  | nil => exact .nil
  | cons c cs ih =>
    rcases written_cons_cases collapse spaced c cs with ⟨-, h | h⟩ | h | ⟨hreserved, -, h⟩
    · rw [h]
      exact ih true
    · rw [h]
      exact .plain (by decide) (ih true)
    · rw [h]
      exact .pair (ih false)
    · rw [h]
      exact .plain hreserved (ih false)

/-! ## References begun in written text -/

/-- A character by which a reference goes on was written from the same character. -/
theorem written_append_eq_cons_iff (hx : isNameChar x = true ∨ x = '}') (htail : Breaks tail) :
    written collapse false cs ++ tail = x :: ds ↔
      ∃ es, cs = x :: es ∧ written collapse false es ++ tail = ds := by
  obtain ⟨hblank, hreserved, hbrace⟩ : isBlank x = false ∧ isReserved x = false ∧ x ≠ '{' := by
    obtain hname | rfl := hx
    · obtain ⟨hblank, hreserved, hbrace, -⟩ := isNameChar_plain hname
      exact ⟨hblank, hreserved, hbrace⟩
    · decide
  have hslash : '\\' ≠ x := by rintro rfl; cases hreserved
  have hspace : ' ' ≠ x := by rintro rfl; cases hblank
  cases cs with
  | nil =>
    constructor
    · rintro rfl
      exact absurd htail (Breaks.not_cons hx)
    · simp
  | cons c cs =>
    by_cases hc : (collapse && isBlank c) = true
    · obtain ⟨rfl, hcblank⟩ := Bool.and_eq_true_iff.1 hc
      have hne : c ≠ x := by rintro rfl; rw [hcblank] at hblank; cases hblank
      simp [written_blank hcblank, hspace, hne]
    · rw [written_cons (by simpa using hc)]
      split
      · rename_i hescaped
        have hne : c ≠ x := by rintro rfl; simp [hreserved, hbrace] at hescaped
        simp [hslash, hne]
      · simp [and_assoc]

theorem written_append_eq_reference_iff {name : List Char}
    (hname : ∀ c ∈ name, isNameChar c = true) (htail : Breaks tail) :
    (∃ rest, written collapse false cs ++ tail = name ++ '}' :: rest) ↔
      ∃ rest, cs = name ++ '}' :: rest := by
  induction name generalizing cs with
  | nil =>
    simp only [List.nil_append, written_append_eq_cons_iff (.inr rfl) htail]
    exact ⟨fun ⟨_, es, h, _⟩ => ⟨es, h⟩, fun ⟨es, h⟩ => ⟨_, es, h, rfl⟩⟩
  | cons c name ih =>
    obtain ⟨hc, hrest⟩ := List.forall_mem_cons.1 hname
    simp only [List.cons_append, written_append_eq_cons_iff (.inl hc) htail]
    constructor
    · rintro ⟨rest, es, rfl, h⟩
      obtain ⟨rest', rfl⟩ := (ih hrest).1 ⟨rest, h⟩
      exact ⟨rest', rfl⟩
    · rintro ⟨rest, rfl⟩
      obtain ⟨rest', h⟩ := (ih hrest).2 ⟨rest, rfl⟩
      exact ⟨rest', _, rfl, h⟩

/-- Written text completes the same reference as the text itself. -/
theorem nameAt_written (htail : Breaks tail) :
    nameAt (written collapse false cs ++ tail) = nameAt cs := by
  refine Option.ext fun name => ?_
  rw [nameAt_eq_some_iff, nameAt_eq_some_iff]
  exact and_congr_right fun hname =>
    written_append_eq_reference_iff (isNameChar_of_isName hname) htail

/-- It does so in front of any text in which no reference begun before ends. -/
theorem nameAt_written_append (htail : ¬ EndsReference tail) (cs : List Char) :
    nameAt (written collapse false cs ++ tail) = nameAt cs := by
  have halone : nameAt (written collapse false cs ++ []) = nameAt cs := nameAt_written .nil
  rw [nameAt_append_of_not_endsReference htail, ← halone, List.append_nil]

/-! ## References found -/

/-- Text, as it is written, holds no reference, and nothing behind it becomes one through it. -/
theorem referencesIn_written (htail : Breaks tail) (cs : List Char) :
    referencesIn (written collapse spaced cs ++ tail) = referencesIn tail := by
  induction cs generalizing spaced with
  | nil => rfl
  | cons c cs ih =>
    rcases written_cons_cases collapse spaced c cs with ⟨-, h | h⟩ | h | ⟨hreserved, hnone, h⟩
    · rw [h, ih]
    · rw [h, List.cons_append, referencesIn_cons (by decide) (by decide), ih]
    · rw [h]
      simp [referencesIn, ih]
    · rw [h, List.cons_append]
      by_cases hbrace : c = '{'
      · subst hbrace
        simp [referencesIn, nameAt_written htail, hnone rfl, ih]
      · rw [referencesIn_cons (isReserved_eq_false.1 hreserved).2.2 hbrace, ih]

/-! ## Filling -/

/-- Text, as it is written, is read as its characters, and what follows it as it is read alone. -/
theorem ofRun_written_append (htail : ¬ EndsReference tail) (spaced : Bool) (cs : List Char) :
    Segment.ofRun 0 (written false spaced cs ++ tail) =
      cs.map .literal ++ Segment.ofRun 0 tail := by
  induction cs generalizing spaced with
  | nil => rfl
  | cons c cs ih =>
    rw [written_cons rfl, List.map_cons, List.cons_append, ← ih false]
    split
    · exact Segment.ofRun_pair
    · rename_i hplain
      obtain ⟨hreserved, hnone⟩ : isReserved c = false ∧ (c = '{' → nameAt cs = none) := by
        simpa using hplain
      by_cases hbrace : c = '{'
      · subst hbrace
        exact Segment.ofRun_brace ((nameAt_written_append htail cs).trans (hnone rfl))
      · exact Segment.ofRun_cons (isReserved_eq_false.1 hreserved).2.2 hbrace

/-- Text fills back to itself. -/
theorem fillOnto_written (htail : Breaks tail) (resolve : Resolver) (out cs : List Char) :
    fillOnto resolve out 0 (written false spaced cs ++ tail) =
      fillOnto resolve (cs.reverse ++ out) 0 tail := by
  rw [fillOnto_eq, fillOnto_eq, ofRun_written_append htail.not_endsReference, List.filterMap_append,
    names_literals, List.nil_append, List.flatMap_append, shown_literals, List.reverse_append,
    List.append_assoc]

/-! ## Blank edges -/

/-- Where blanks do not collapse, they stand for themselves. -/
theorem written_blanks_append {blanks : List Char} (h : ∀ b ∈ blanks, isBlank b = true)
    (cs : List Char) :
    written false spaced (blanks ++ cs) = blanks ++ written false spaced cs := by
  induction blanks generalizing spaced with
  | nil => rfl
  | cons b blanks ih =>
    obtain ⟨hb, hrest⟩ := List.forall_mem_cons.1 h
    obtain ⟨-, hreserved, hbrace, -⟩ := isBlank_plain hb
    have hcs : ∀ s, written false s cs = written false spaced cs := fun s =>
      written_spaced (by simp) spaced
    simp [written_cons, hreserved, hbrace, ih hrest, hcs]

/-- Text is written in parts, where no reference goes on from one part into the next. -/
theorem exists_written_append (collapse spaced : Bool) (cs : List Char) (hds : Breaks ds) :
    ∃ spaced', written collapse spaced (cs ++ ds) =
      written collapse spaced cs ++ written collapse spaced' ds := by
  induction cs generalizing spaced with
  | nil => exact ⟨spaced, rfl⟩
  | cons c cs ih =>
    by_cases hc : (collapse && isBlank c) = true
    · obtain ⟨rfl, hblank⟩ := Bool.and_eq_true_iff.1 hc
      obtain ⟨spaced', h⟩ := ih true
      refine ⟨spaced', ?_⟩
      simp only [List.cons_append, written_blank hblank, h]
      split <;> simp
    · obtain ⟨spaced', h⟩ := ih false
      refine ⟨spaced', ?_⟩
      simp only [List.cons_append, written_cons (by simpa using hc), nameAt_append hds, h]
      split <;> simp

/-- Blanks are written as blanks. -/
theorem isBlank_of_mem_written {blanks : List Char} (h : ∀ b ∈ blanks, isBlank b = true) :
    ∀ b ∈ written collapse spaced blanks, isBlank b = true := by
  induction blanks generalizing spaced with
  | nil => simp
  | cons b blanks ih =>
    obtain ⟨hb, hrest⟩ := List.forall_mem_cons.1 h
    obtain ⟨-, hreserved, hbrace, -⟩ := isBlank_plain hb
    cases collapse with
    | true =>
      rw [written_blank hb]
      split
      · exact ih hrest
      · exact List.forall_mem_cons.2 ⟨by decide, ih hrest⟩
    | false =>
      simp only [written_cons, hreserved, beq_false_of_ne hbrace, Bool.false_and, Bool.or_self]
      exact List.forall_mem_cons.2 ⟨hb, ih hrest⟩

/-- Blanks are written as one space at most. -/
theorem written_blanks {blanks : List Char} (h : ∀ b ∈ blanks, isBlank b = true)
    (spaced : Bool) :
    written true spaced blanks = [] ∨ written true spaced blanks = [' '] := by
  have hspaced : ∀ {blanks}, (∀ b ∈ blanks, isBlank b = true) → written true true blanks = [] := by
    intro blanks h
    induction blanks with
    | nil => rfl
    | cons b blanks ih =>
      obtain ⟨hb, hrest⟩ := List.forall_mem_cons.1 h
      rw [written_blank hb, if_pos rfl, ih hrest]
  cases blanks with
  | nil => exact .inl rfl
  | cons b blanks =>
    obtain ⟨hb, hrest⟩ := List.forall_mem_cons.1 h
    rw [written_blank hb, hspaced hrest]
    cases spaced with
    | true => exact .inl rfl
    | false => exact .inr rfl

theorem getLast?_written (hcs : Text.EndsTight cs) :
    (written collapse spaced cs).getLast? = cs.getLast? := by
  induction cs generalizing spaced with
  | nil => rfl
  | cons c cs ih =>
    cases cs with
    | nil =>
      have hc : isBlank c = false := hcs c rfl
      rw [written_cons (by simp [hc])]
      split <;> rfl
    | cons d ds =>
      have hlast (front : List Char) (spaced : Bool) :
          (front ++ written collapse spaced (d :: ds)).getLast? = (c :: d :: ds).getLast? := by
        rw [List.getLast?_append, ih (by simpa [Text.EndsTight] using hcs)]
        simp [List.getLast?_cons]
      rcases written_cons_cases collapse spaced c (d :: ds) with ⟨-, h | h⟩ | h | ⟨-, -, h⟩
      · rw [h]
        exact hlast [] true
      · rw [h]
        exact hlast [' '] true
      · rw [h]
        exact hlast ['\\', c] false
      · rw [h]
        exact hlast [c] false

/-- Blanks taken off the front of what is written are taken off the front of the text. -/
theorem trimStart_written (htail : Text.StartsTight tail) :
    Text.trimStart (written collapse spaced cs ++ tail) =
      written collapse spaced (Text.trimStart cs) ++ tail := by
  induction cs generalizing spaced with
  | nil => exact Text.trimStart_eq_self htail
  | cons c cs ih =>
    by_cases hblank : isBlank c = true
    · have hspaced : ∀ s, written collapse s (Text.trimStart cs) =
          written collapse spaced (Text.trimStart cs) := fun s =>
        written_spaced (fun _ => Text.startsTight_trimStart cs) spaced
      obtain ⟨-, hreserved, hbrace, -⟩ := isBlank_plain hblank
      rw [Text.trimStart_cons_blank hblank]
      cases collapse with
      | true =>
        rw [written_blank hblank]
        split
        · rw [ih, hspaced]
        · rw [List.cons_append, Text.trimStart_cons_blank Text.isBlank_space, ih, hspaced]
      | false =>
        rw [written_cons rfl, if_neg (by simp [hreserved, hbrace]), List.cons_append,
          Text.trimStart_cons_blank hblank, ih, hspaced]
    · have hc : isBlank c = false := by simpa using hblank
      have htight : Text.StartsTight (c :: cs) := by simpa using hc
      rw [Text.trimStart_eq_self htight, written_cons (by simp [hc])]
      split
      · exact Text.trimStart_eq_self (by simpa using (by decide : isBlank '\\' = false))
      · exact Text.trimStart_eq_self (by simpa using hc)

/-- Blanks taken off the end of what is written are taken off the end of the text. -/
theorem trimEnd_written {front : List Char} (hfront : Text.EndsTight front) :
    Text.trimEnd (front ++ written collapse spaced cs) =
      front ++ written collapse spaced (Text.trimEnd cs) := by
  obtain ⟨blanks, hblanks, hcs⟩ := Text.exists_trimEnd_append cs
  obtain ⟨spaced', hwritten⟩ := exists_written_append collapse spaced (Text.trimEnd cs)
    (Breaks.of_blanks hblanks)
  have htight : Text.EndsTight (front ++ written collapse spaced (Text.trimEnd cs)) :=
    hfront.append (by
      rw [Text.EndsTight, getLast?_written (Text.endsTight_trimEnd cs)]
      exact Text.endsTight_trimEnd cs)
  rw [← hcs, hwritten, ← List.append_assoc,
    Text.trimEnd_append_blanks (isBlank_of_mem_written hblanks), hcs, Text.trimEnd_eq_self htight]

end Phrasebook.Template
