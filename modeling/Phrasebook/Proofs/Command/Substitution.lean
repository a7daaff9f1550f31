-- SUMMARY: The slots of a phrase are filled as the references of a text run are.
import Phrasebook.Command.Phrase
import Phrasebook.Proofs.Template.Segments

/-!
# Substitution

Phrases and templates are filled by scanners of their own. A phrase takes whatever stands between an
opening brace and the next closing one for a slot, and asks for its value; a template takes a
reference for one only if a name stands there. Where slots go by the names of placeholders and no
escape gets in between, both find the same slots (`slotAt_eq_some_iff` against
`nameAt_eq_some_iff`), and a slot without a value is a reference that is filled with itself
(`substitute_eq_fillText`).
-/
namespace Phrasebook.Phrase

open Template

/-! ## Slots -/

theorem takeWhile_slot {name : List Char} (h : '}' ∉ name) (rest : List Char) :
    (name ++ '}' :: rest).takeWhile (· != '}') = name := by
  have hname : ∀ c ∈ name, (c != '}') = true := fun c hc => by
    simpa using ne_of_mem_of_not_mem hc h
  simp [List.takeWhile_append_of_pos hname]

/-- A slot ends at the first closing brace. -/
theorem slotAt_eq_some_iff {cs name : List Char} :
    slotAt cs = some name ↔ '}' ∉ name ∧ ∃ rest, cs = name ++ '}' :: rest := by
  constructor
  · intro h
    rw [slotAt] at h
    split at h
    · rename_i hclosed
      obtain ⟨front, rest, rfl, hfront⟩ :=
        List.eq_append_cons_of_mem (List.contains_iff_mem.1 hclosed)
      rw [takeWhile_slot hfront] at h
      obtain rfl := Option.some.inj h
      exact ⟨hfront, rest, rfl⟩
    · cases h
  · rintro ⟨hname, rest, rfl⟩
    rw [slotAt, takeWhile_slot hname]
    simp

/-- A slot of a placeholder's name is a reference. -/
theorem slotAt_eq_some_iff_nameAt {cs name : List Char} (hname : isName name = true) :
    slotAt cs = some name ↔ nameAt cs = some name := by
  have hbrace : '}' ∉ name := fun h =>
    (isNameChar_plain (isNameChar_of_isName hname '}' h)).2.2.2 rfl
  rw [slotAt_eq_some_iff, nameAt_eq_some_iff]
  exact and_congr_left fun _ => iff_of_true hbrace hname

/-! ## Steps of a substitution -/

variable {values : Arguments} {out cs tail name : List Char} {c : Char}

theorem substituteOnto_cons (h : c ≠ '{') :
    substituteOnto values out 0 (c :: cs) = substituteOnto values (c :: out) 0 cs := by
  simp [substituteOnto, h]

/-- A slot that has a value is passed over, and its value is not read. -/
theorem substituteOnto_valued {value : String} (hname : slotAt cs = some name)
    (hvalue : values.lookup (String.ofList name) = some value) :
    substituteOnto values out 0 ('{' :: cs) =
      substituteOnto values (value.toList.reverse ++ out) (name.length + 1) cs := by
  simp [substituteOnto, hname, hvalue]

/-- A brace that opens no slot with a value stays. -/
theorem substituteOnto_unvalued
    (h : ∀ name, slotAt cs = some name → values.lookup (String.ofList name) = none) :
    substituteOnto values out 0 ('{' :: cs) = substituteOnto values ('{' :: out) 0 cs := by
  cases hname : slotAt cs with
  | none => simp [substituteOnto, hname]
  | some name => simp [substituteOnto, hname, h name hname]

theorem substituteOnto_skip (values : Arguments) (out cs tail : List Char) :
    substituteOnto values out cs.length (cs ++ tail) = substituteOnto values out 0 tail := by
  induction cs with
  | nil => rfl
  | cons c cs ih => simpa [substituteOnto] using ih

/-- A text without an opening brace stays. -/
theorem substituteOnto_append (h : '{' ∉ cs) :
    substituteOnto values out 0 (cs ++ tail) = substituteOnto values (cs.reverse ++ out) 0 tail := by
  induction cs generalizing out with
  | nil => rfl
  | cons c cs ih =>
    obtain ⟨hc, hcs⟩ := not_or.1 (mt List.mem_cons.2 h)
    rw [List.cons_append, substituteOnto_cons (Ne.symm hc), ih hcs]
    simp

/-- Without values a text stays as it is. -/
theorem substituteOnto_nil : substituteOnto [] out 0 cs = cs.reverse ++ out := by
  induction cs generalizing out with
  | nil => rfl
  | cons c cs ih =>
    have hstep : substituteOnto [] out 0 (c :: cs) = substituteOnto [] (c :: out) 0 cs := by
      by_cases hc : c = '{'
      · rw [hc]
        exact substituteOnto_unvalued fun _ _ => rfl
      · exact substituteOnto_cons hc
    rw [hstep, ih]
    simp

/-! ## Slots as references -/

/-- The reference to a placeholder, as it is written in a text. -/
def written (name : String) : String := String.ofList (reference name.toList)

/-- What is put in the place of a reference: the value, or the reference itself. -/
def Arguments.shown (values : Arguments) (name : String) : String :=
  (values.lookup name).getD (written name)

/-- The slots go by names of placeholders. -/
def Arguments.Named (values : Arguments) : Prop :=
  ∀ entry ∈ values, isName entry.1.toList = true

theorem Arguments.Named.isName_of_lookup (h : values.Named) {key value : String}
    (hvalue : values.lookup key = some value) : isName key.toList = true := by
  obtain ⟨front, rest, rfl, -⟩ := List.lookup_eq_some_iff.1 hvalue
  exact h (key, value) (by simp)

/-- A brace that opens no reference opens no slot with a value. -/
theorem Arguments.Named.lookup_eq_none (h : values.Named) (hname : nameAt cs = none)
    (hslot : slotAt cs = some name) : values.lookup (String.ofList name) = none := by
  cases hvalue : values.lookup (String.ofList name) with
  | none => rfl
  | some value =>
    have hisName := h.isName_of_lookup hvalue
    rw [String.toList_ofList] at hisName
    rw [(slotAt_eq_some_iff_nameAt hisName).1 hslot] at hname
    cases hname

/-- A reference is passed over, or written as it stands. -/
theorem substituteOnto_reference (hname : nameAt cs = some name) :
    substituteOnto values out 0 ('{' :: cs) =
      substituteOnto values ((values.shown (String.ofList name)).toList.reverse ++ out)
        (name.length + 1) cs := by
  obtain ⟨hisName, rest, rfl⟩ := nameAt_eq_some_iff.1 hname
  have hslot : slotAt (name ++ '}' :: rest) = some name :=
    (slotAt_eq_some_iff_nameAt hisName).2 hname
  cases hvalue : values.lookup (String.ofList name) with
  | some value => rw [substituteOnto_valued hslot hvalue, Arguments.shown, hvalue]; rfl
  | none =>
    have hplain : '{' ∉ name ++ ['}'] := by
      rw [List.mem_append, not_or]
      exact ⟨fun h => (isNameChar_plain (isNameChar_of_isName hisName '{' h)).2.2.1 rfl, by decide⟩
    have hclosed : name ++ '}' :: rest = name ++ ['}'] ++ rest := by simp
    have hunvalued (other : List Char) (hother : slotAt (name ++ '}' :: rest) = some other) :
        values.lookup (String.ofList other) = none := by
      obtain rfl := Option.some.inj (hslot.symm.trans hother)
      exact hvalue
    have hskip := substituteOnto_skip values
      ((values.shown (String.ofList name)).toList.reverse ++ out) (name ++ ['}']) rest
    rw [substituteOnto_unvalued hunvalued, hclosed, substituteOnto_append hplain]
    rw [List.length_append, List.length_singleton] at hskip
    rw [hskip, Arguments.shown, hvalue]
    simp [written, reference]

/-- A text without escapes is filled segment by segment. -/
theorem substituteOnto_eq (h : values.Named) (out : List Char) (skip : Nat) (cs : List Char)
    (hplain : '\\' ∉ cs) :
    substituteOnto values out skip cs =
      ((Segment.ofRun skip cs).flatMap (Segment.shown values.shown)).reverse ++ out := by
  fun_induction Segment.ofRun skip cs generalizing out with
  | case1 => rfl
  | case2 c cs skip ih => exact ih out (List.not_mem_of_not_mem_cons hplain)
  | case3 => simp at hplain
  | case4 d cs ih => simp at hplain
  | case5 cs hnone _ ih =>
    rw [substituteOnto_unvalued fun _ => h.lookup_eq_none hnone,
      ih _ (List.not_mem_of_not_mem_cons hplain)]
    simp [Segment.shown]
  | case6 cs name hname _ ih =>
    rw [substituteOnto_reference hname, ih _ (List.not_mem_of_not_mem_cons hplain)]
    simp [Segment.shown]
  | case7 c cs hslash hbrace ih =>
    rw [substituteOnto_cons hbrace, ih _ (List.not_mem_of_not_mem_cons hplain)]
    simp [Segment.shown]

/-! ## Phrases as templates -/

variable {text : String}

theorem substitute_eq_join (h : values.Named) (hplain : '\\' ∉ text.toList) :
    substitute values text = join values.shown (segments text) := by
  rw [substitute, substituteOnto_eq h [] 0 text.toList hplain]
  simp [join, segments]

/-- A text is made of its segments, with the references written out. -/
theorem eq_join_written (hplain : '\\' ∉ text.toList) : text = join written (segments text) := by
  have hnone : Arguments.Named [] := by simp [Arguments.Named]
  have hwritten : Arguments.shown [] = written := rfl
  have hjoin := substitute_eq_join hnone hplain
  rw [substitute, substituteOnto_nil, hwritten] at hjoin
  simpa using hjoin

/-- A phrase without escapes is filled as a template of the same text is, with the reference itself
for a placeholder without a value. Of the characters and references that its text is made of, none
but the references with a value are replaced, and which those are does not depend on the values. -/
theorem substitute_eq_fillText (h : ∀ entry ∈ values, isName entry.1.toList = true)
    (hplain : '\\' ∉ text.toList) :
    fillText (fun name => some (values.shown name)) text = .ok (substitute values text) ∧
      text = join written (segments text) ∧
      substitute values text = join values.shown (segments text) := by
  have hjoin := substitute_eq_join h hplain
  refine ⟨?_, eq_join_written hplain, hjoin⟩
  have hfull : (referencesIn text.toList).find?
      (Resolver.lacks fun name => some (values.shown name)) = none := by
    simp [Resolver.lacks]
  rw [fillText_eq, hfull, hjoin]
  rfl

/-- Values of which the first looks like a slot and the last comes too late. -/
def bracedValues : Arguments := [("b", "{c}"), ("c", "1"), ("b", "2")]

/-- Nested, empty, unknown and unclosed braces. -/
def bracedText : String := r"{a{b}} {} {d} {c} {b"

/-- The text is filled with the values, and other braces stay. -/
theorem substitute_eq_fillText_braced :
    (∀ entry ∈ bracedValues, isName entry.1.toList = true) ∧ '\\' ∉ bracedText.toList ∧
      fillText (fun name => some (bracedValues.shown name)) bracedText =
        .ok r"{a{c}} {} {d} 1 {b" := by
  have hnamed : ∀ entry ∈ bracedValues, isName entry.1.toList = true := by decide
  have hplain : '\\' ∉ bracedText.toList := by decide
  exact ⟨hnamed, hplain, (substitute_eq_fillText hnamed hplain).1⟩

end Phrasebook.Phrase
