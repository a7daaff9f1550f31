-- SUMMARY: Blanks at the two ends of a content, and how splitting them off its template takes them.
import Phrasebook.Proofs.Message.Content
import Phrasebook.Proofs.Message.Identity

/-!
# Edges

The id of a message is its template without the blanks at both ends. These blanks belong to the
first and the last text of the content: `Content.trimmed` takes them off there, and its template is
the trimmed template (`print_trimmed`). Where blanks do not collapse, what was split off is what
`Content.surround` has to put back (`exists_split`). Where they collapse, there is a space at most to
split off at either end (`shrinkEdges_split_print`).
-/
namespace Phrasebook

open Markup Template

namespace Content

/-! ## The first and the last text -/

/-- The first text of a run. -/
def Run.firstText : Run → List Char
  | ⟨[], rest⟩ => rest
  | ⟨part :: _, _⟩ => part.1

def Run.mapFirst (f : List Char → List Char) : Run → Run
  | ⟨[], rest⟩ => ⟨[], f rest⟩
  | ⟨part :: parts, rest⟩ => ⟨(f part.1, part.2) :: parts, rest⟩

/-- The first text of the content, in front of any expression and element. -/
def firstText : Content → List Char
  | .last run => run.firstText
  | .element before .. => before.firstText

/-- Change the first text. -/
def mapFirst (f : List Char → List Char) : Content → Content
  | .last run => .last (run.mapFirst f)
  | .element before index tag inner after => .element (before.mapFirst f) index tag inner after

/-- The last text of the content, behind any expression and element. -/
def lastText : Content → List Char
  | .last run => run.rest
  | .element _ _ _ _ after => after.lastText

/-- Change the last text. -/
def mapLast (f : List Char → List Char) : Content → Content
  | .last run => .last { run with rest := f run.rest }
  | .element before index tag inner after => .element before index tag inner (after.mapLast f)

/-- The content without the blanks at its ends. -/
def trimmed (content : Content) : Content := (content.mapFirst Text.trimStart).mapLast Text.trimEnd

/-- The content with text put in front of its first text and behind its last. -/
def surround (front back : List Char) (content : Content) : Content :=
  (content.mapLast (· ++ back)).mapFirst (front ++ ·)

variable {f g : List Char → List Char} {slots : List Element}

@[simp] theorem Run.positions_mapFirst (run : Run) : (run.mapFirst f).positions = run.positions := by
  obtain ⟨_ | ⟨part, parts⟩, rest⟩ := run <;> rfl

theorem Run.mapFirst_mapFirst (run : Run) : (run.mapFirst f).mapFirst g = run.mapFirst (g ∘ f) := by
  obtain ⟨_ | ⟨part, parts⟩, rest⟩ := run <;> rfl

theorem Run.mapFirst_eq_self (run : Run) (h : f run.firstText = run.firstText) :
    run.mapFirst f = run := by
  obtain ⟨_ | ⟨part, parts⟩, rest⟩ := run <;> simp_all [mapFirst, firstText]

theorem mapFirst_mapFirst (content : Content) :
    (content.mapFirst f).mapFirst g = content.mapFirst (g ∘ f) := by
  cases content <;> simp [mapFirst, Run.mapFirst_mapFirst]

theorem mapFirst_eq_self (content : Content) (h : f content.firstText = content.firstText) :
    content.mapFirst f = content := by
  cases content with
  | last run => rw [mapFirst, run.mapFirst_eq_self h]
  | element before index tag inner after => rw [mapFirst, before.mapFirst_eq_self h]

theorem mapLast_mapLast (content : Content) :
    (content.mapLast f).mapLast g = content.mapLast (g ∘ f) := by
  induction content with
  | last run => rfl
  | element before index tag inner after _ ih => simp [mapLast, ih]

theorem mapLast_eq_self (content : Content) (h : f content.lastText = content.lastText) :
    content.mapLast f = content := by
  induction content with
  | last run => rw [mapLast, show f run.rest = run.rest from h]
  | element before index tag inner after _ ih => rw [mapLast, ih h]

/-! ## What does not change with the texts -/

@[simp] theorem outline_mapFirst (content : Content) :
    (content.mapFirst f).outline = content.outline := by
  cases content <;> rfl

@[simp] theorem outline_mapLast (content : Content) :
    (content.mapLast f).outline = content.outline := by
  induction content with
  | last run => rfl
  | element before index tag inner after _ ih => simp [mapLast, outline, ih]

@[simp] theorem positions_mapFirst (content : Content) :
    (content.mapFirst f).positions = content.positions := by
  cases content <;> simp [mapFirst, positions]

@[simp] theorem positions_mapLast (content : Content) :
    (content.mapLast f).positions = content.positions := by
  induction content with
  | last run => rfl
  | element before index tag inner after _ ih => simp [mapLast, positions, ih]

@[simp] theorem slotted_mapFirst (content : Content) :
    (content.mapFirst f).Slotted slots ↔ content.Slotted slots := by
  cases content <;> rfl

@[simp] theorem slotted_mapLast (content : Content) :
    (content.mapLast f).Slotted slots ↔ content.Slotted slots := by
  induction content with
  | last run => rfl
  | element before index tag inner after _ ih => simp [mapLast, Slotted, ih]

/-! ## Trimming -/

variable {options : ExtractionOptions} {collapse : Bool} {names : List String}

theorem Run.trimStart_print (run : Run) {tail : List Char} (htail : Text.StartsTight tail) :
    Text.trimStart (run.print collapse names ++ tail) =
      (run.mapFirst Text.trimStart).print collapse names ++ tail := by
  obtain ⟨_ | ⟨part, parts⟩, rest⟩ := run
  · simpa [print, mapFirst] using trimStart_written htail
  · have hreference : ∀ cs, Text.StartsTight (reference (names[part.2]?.getD "").toList ++ cs) :=
      fun cs => by simpa [reference] using (by decide : Text.isBlank '{' = false)
    simpa [print, mapFirst] using trimStart_written (hreference _)

/-- Blanks taken off the front of the template are taken off the first text. -/
theorem print_mapFirst_trimStart (content : Content) :
    (content.mapFirst Text.trimStart).print options collapse names =
      Text.trimStart (content.print options collapse names) := by
  cases content with
  | last run => simpa [print, mapFirst] using (run.trimStart_print .nil).symm
  | element before index tag inner after =>
    have htight : ∀ cs, Text.StartsTight ('[' :: cs) := fun cs => by
      simpa using (by decide : Text.isBlank '[' = false)
    simpa [print, mapFirst] using (before.trimStart_print (htight _)).symm

/-- What stands in front of the last text of a run ends in a reference. -/
theorem Run.endsTight_parts (run : Run) :
    Text.EndsTight (run.parts.flatMap fun part =>
      written collapse false part.1 ++ reference (names[part.2]?.getD "").toList) := by
  obtain ⟨parts, rest⟩ := run
  induction parts with
  | nil => exact .nil
  | cons part parts ih =>
    have hreference : Text.EndsTight (reference (names[part.2]?.getD "").toList) := by
      simpa [Text.EndsTight, reference, List.getLast?_cons] using
        (by decide : Text.isBlank '}' = false)
    rw [List.flatMap_cons, List.append_assoc]
    exact (hreference.append ih).append_cons

theorem Run.trimEnd_print (run : Run) :
    Text.trimEnd (run.print collapse names) =
      ({ run with rest := Text.trimEnd run.rest } : Run).print collapse names :=
  trimEnd_written run.endsTight_parts

/-- Blanks taken off the end of the template are taken off the last text. -/
theorem print_mapLast_trimEnd (content : Content) :
    (content.mapLast Text.trimEnd).print options collapse names =
      Text.trimEnd (content.print options collapse names) := by
  induction content with
  | last run => exact run.trimEnd_print.symm
  | element before index tag inner after _ ih =>
    have htrim : ∀ front, Text.trimEnd (front ++ ']' :: after.print options collapse names) =
        front ++ ']' :: Text.trimEnd (after.print options collapse names) := fun front =>
      Text.trimEnd_append_cons (by decide)
    have h := htrim (before.print collapse names ++ ('[' :: (toString index).toList ++ ':' ::
      inner.print options (collapse && !options.preserves tag) names))
    simpa [print, mapLast, ih] using h.symm

/-- The trimmed template is the template of the trimmed content. -/
theorem print_trimmed (content : Content) :
    content.trimmed.print options collapse names =
      Text.trim (content.print options collapse names) := by
  rw [trimmed, print_mapLast_trimEnd, print_mapFirst_trimStart, Text.trim]

/-! ## Putting blanks back -/

theorem print_mapFirst_append {front : List Char} (hfront : ∀ c ∈ front, Text.isBlank c = true)
    (content : Content) :
    (content.mapFirst (front ++ ·)).print options false names =
      front ++ content.print options false names := by
  have hrun : ∀ run : Run, (run.mapFirst (front ++ ·)).print false names =
      front ++ run.print false names := by
    rintro ⟨_ | ⟨part, parts⟩, rest⟩ <;>
      simp [Run.mapFirst, Run.print, written_blanks_append hfront]
  cases content <;> simp [mapFirst, print, hrun]

theorem print_mapLast_append {back : List Char} (hback : ∀ c ∈ back, Text.isBlank c = true)
    (content : Content) :
    (content.mapLast (· ++ back)).print options false names =
      content.print options false names ++ back := by
  induction content with
  | last run =>
    obtain ⟨spaced, h⟩ := exists_written_append false false run.rest (Breaks.of_blanks hback)
    have hwritten : written false spaced back = back := by
      simpa using written_blanks_append hback []
    simp [mapLast, print, Run.print, h, hwritten]
  | element before index tag inner after _ ih => simp [mapLast, print, ih]

/-- Splitting the template splits the content: the id is the template of the trimmed content, and
with what was split off around it this is the whole content. -/
theorem exists_split (content : Content) (options : ExtractionOptions) (names : List String) :
    ∃ front back,
      MessageId.split (String.ofList (content.print options false names)) =
        ⟨String.ofList front, String.ofList (content.trimmed.print options false names),
          String.ofList back⟩ ∧
      content = content.trimmed.surround front back := by
  let inner := content.mapFirst Text.trimStart
  let front := content.firstText.takeWhile Text.isBlank
  have hfront : ∀ c ∈ front, Text.isBlank c = true := fun _ => Text.isBlank_of_mem_takeWhile
  obtain ⟨back, hback, hlast⟩ := Text.exists_trimEnd_append inner.lastText
  have hcontent : inner.mapFirst (front ++ ·) = content := by
    rw [mapFirst_mapFirst]
    exact content.mapFirst_eq_self (Text.takeWhile_append_trimStart _)
  have hinner : content.trimmed.mapLast (· ++ back) = inner := by
    rw [trimmed, mapLast_mapLast]
    exact inner.mapLast_eq_self hlast
  have hprint : inner.print options false names =
      content.trimmed.print options false names ++ back := by
    rw [← hinner, print_mapLast_append hback]
  refine ⟨front, back, MessageId.split_eq ?_ ?_ ?_, by rw [surround, hinner, hcontent]⟩
  · rw [String.toList_ofList, ← hprint, ← print_mapFirst_append hfront, hcontent]
  · rw [String.toList_ofList, ← hprint, print_mapFirst_trimStart]
  · rw [← hprint, trimmed, print_mapLast_trimEnd]

/-! ## Edges that collapse -/

/-- The blanks in front of a template are one space at most. -/
theorem takeWhile_written_append {tail : List Char} (htail : Text.StartsTight tail)
    (spaced : Bool) (cs : List Char) :
    (written true spaced cs ++ tail).takeWhile Text.isBlank = [] ∨
      spaced = false ∧ (written true spaced cs ++ tail).takeWhile Text.isBlank = [' '] := by
  induction cs generalizing spaced with
  | nil => exact .inl (Text.takeWhile_eq_nil htail)
  | cons c cs ih =>
    by_cases hc : Text.isBlank c = true
    · have hafter : (written true true cs ++ tail).takeWhile Text.isBlank = [] := by
        simpa using ih true
      rw [written_blank hc]
      cases spaced with
      | true => exact .inl hafter
      | false =>
        refine .inr ⟨rfl, ?_⟩
        simpa [List.takeWhile_cons, Text.isBlank_space] using hafter
    · have hslash : Text.isBlank '\\' = false := by decide
      rw [written_cons (by simp [hc])]
      split <;> exact .inl (Text.takeWhile_eq_nil (by simp [hc, hslash]))

/-- A template begins with its first text. -/
theorem exists_print_eq_firstText (content : Content) (options : ExtractionOptions)
    (collapse : Bool) (names : List String) :
    ∃ tail, Text.StartsTight tail ∧
      content.print options collapse names = written collapse false content.firstText ++ tail := by
  have hbrace (cs : List Char) : Text.StartsTight ('{' :: cs) := by
    simpa using (by decide : Text.isBlank '{' = false)
  have hbracket (cs : List Char) : Text.StartsTight ('[' :: cs) := by
    simpa using (by decide : Text.isBlank '[' = false)
  have hrun (run : Run) {tail : List Char} (htail : Text.StartsTight tail) :
      ∃ tail', Text.StartsTight tail' ∧
        run.print collapse names ++ tail = written collapse false run.firstText ++ tail' := by
    obtain ⟨_ | ⟨part, parts⟩, rest⟩ := run
    · exact ⟨tail, htail, by simp [Run.print, Run.firstText]⟩
    · exact ⟨_, hbrace _, by simp [Run.print, Run.firstText, reference]; rfl⟩
  cases content with
  | last run => simpa [print, firstText] using hrun run .nil
  | element before index tag inner after => exact hrun before (hbracket _)

/-- A template ends with its last text. -/
theorem exists_print_eq_lastText (content : Content) (options : ExtractionOptions)
    (collapse : Bool) (names : List String) :
    ∃ front, Text.EndsTight front ∧
      content.print options collapse names = front ++ written collapse false content.lastText := by
  induction content with
  | last run => exact ⟨_, run.endsTight_parts, rfl⟩
  | element before index tag inner after _ ih =>
    obtain ⟨front, hfront, hprint⟩ := ih
    have hbracket : Text.EndsTight [']'] := by
      simpa [Text.EndsTight] using (by decide : Text.isBlank ']' = false)
    have htight (cs : List Char) : Text.EndsTight (cs ++ ']' :: front) :=
      (hbracket.append hfront).append_cons
    refine ⟨_, htight (before.print collapse names ++ '[' :: ((toString index).toList ++ ':' ::
      inner.print options (collapse && !options.preserves tag) names)), ?_⟩
    simp [print, hprint, lastText]

/-- The blanks at the end of a template are one space at most. -/
theorem takeWhile_reverse_print (content : Content) (options : ExtractionOptions)
    (names : List String) :
    (content.print options true names).reverse.takeWhile Text.isBlank = [] ∨
      (content.print options true names).reverse.takeWhile Text.isBlank = [' '] := by
  obtain ⟨front, hfront, hprint⟩ := content.exists_print_eq_lastText options true names
  obtain ⟨blanks, hblanks, hlast⟩ := Text.exists_trimEnd_append content.lastText
  obtain ⟨spaced, hwritten⟩ := exists_written_append true false (Text.trimEnd content.lastText)
    (Breaks.of_blanks hblanks)
  have htight : Text.EndsTight (front ++ written true false (Text.trimEnd content.lastText)) := by
    refine hfront.append ?_
    rw [Text.EndsTight, getLast?_written (Text.endsTight_trimEnd _)]
    exact Text.endsTight_trimEnd _
  -- in front of the blanks stands a character that is not blank, so taking stops there
  have htake : (content.print options true names).reverse.takeWhile Text.isBlank =
      (written true spaced blanks).reverse := by
    rw [hprint, ← hlast, hwritten, ← List.append_assoc, List.reverse_append,
      List.takeWhile_append_of_pos fun b hb =>
        isBlank_of_mem_written hblanks b (List.mem_reverse.1 hb),
      Text.takeWhile_eq_nil (by simpa [Text.StartsTight, Text.EndsTight] using htight),
      List.append_nil]
  rw [htake]
  rcases written_blanks hblanks spaced with h | h
  · exact .inl (by rw [h]; rfl)
  · exact .inr (by rw [h]; rfl)

/-- Where blanks collapse, the edges of a template are as short as shrinking makes them. -/
theorem shrinkEdges_split_print (content : Content) (options : ExtractionOptions)
    (names : List String) :
    (MessageId.split (String.ofList (content.print options true names))).shrinkEdges =
      MessageId.split (String.ofList (content.print options true names)) := by
  have hshrink {edge : List Char} (h : edge = [] ∨ edge = [' ']) :
      MessageId.shrinkEdge (String.ofList edge) = String.ofList edge := by
    rcases h with rfl | rfl <;> rfl
  obtain ⟨tail, htail, hprint⟩ := content.exists_print_eq_firstText options true names
  have hfront := (takeWhile_written_append htail false content.firstText).imp id And.right
  have hback := takeWhile_reverse_print (content.mapFirst Text.trimStart) options names
  rw [← hprint] at hfront
  rw [print_mapFirst_trimStart] at hback
  have hback' := hback.imp (congrArg List.reverse) (congrArg List.reverse)
  simp only [MessageId.shrinkEdges, MessageId.split, String.toList_ofList, hshrink hfront]
  rw [hshrink hback']

end Content

end Phrasebook
