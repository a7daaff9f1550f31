-- SUMMARY: References in a text: where one begun goes on, which are found, and how they are filled.
import Phrasebook.Proofs.Template.Lexing
import Phrasebook.Template.Fill
import Phrasebook.Text.Blank

/-!
# References

A brace opens a reference only if a name and a closing brace follow, so it takes a look ahead to
tell. `Breaks` says of a text that no reference begun before goes on in it, `EndsReference` that one
would even end there; what follows matters only if one ends in it (`nameAt_append`). A reference is
found where it is written (`referencesIn_reference`) and filled with its value
(`fillOnto_reference`).
-/
namespace Phrasebook.Template

open Text (isBlank)

/-! ## Characters -/

/-- The characters of a name are letters, digits and the underscore of ASCII. -/
theorem isNameChar_code {c : Char} (hc : isNameChar c = true) :
    (65 ≤ c.toNat ∧ c.toNat ≤ 90) ∨ (97 ≤ c.toNat ∧ c.toNat ≤ 122) ∨
      (48 ≤ c.toNat ∧ c.toNat ≤ 57) ∨ c.toNat = 95 := by
  have hranges : ((decide ('A'.val ≤ c.val ∧ c.val ≤ 'Z'.val) ||
      (decide ('a'.val ≤ c.val) && decide (c.val ≤ 'z'.val))) ||
      (decide ('0'.val ≤ c.val) && decide (c.val ≤ '9'.val)) || c == '_') = true := hc
  simp only [Bool.or_eq_true, Bool.and_eq_true, decide_eq_true_eq, beq_iff_eq,
    UInt32.le_iff_toNat_le] at hranges
  obtain ((hupper | hlower) | hdigit) | rfl := hranges
  · exact .inl hupper
  · exact .inr (.inl hlower)
  · exact .inr (.inr (.inl hdigit))
  · exact .inr (.inr (.inr rfl))

/-- Nothing special is written for a blank. -/
theorem isBlank_plain {c : Char} (hc : isBlank c = true) :
    isNameChar c = false ∧ isReserved c = false ∧ c ≠ '{' ∧ c ≠ '}' := by
  refine ⟨?_, isReserved_eq_false.2 ⟨?_, ?_, ?_⟩, ?_, ?_⟩
  · rw [← Bool.not_eq_true]
    intro hname
    have hcode := isNameChar_code hname
    simp only [isBlank, Bool.or_eq_true, Bool.and_eq_true, decide_eq_true_eq, beq_iff_eq] at hc
    omega
  all_goals rintro rfl; revert hc; decide

/-- Nothing special is written for a character of a name. -/
theorem isNameChar_plain {c : Char} (hc : isNameChar c = true) :
    isBlank c = false ∧ isReserved c = false ∧ c ≠ '{' ∧ c ≠ '}' := by
  refine ⟨?_, isReserved_eq_false.2 ⟨?_, ?_, ?_⟩, ?_, ?_⟩
  · rw [← Bool.not_eq_true]
    intro hblank
    rw [(isBlank_plain hblank).1] at hc
    cases hc
  all_goals rintro rfl; revert hc; decide

/-- No reference begun before goes on in `tail`. -/
def Breaks (tail : List Char) : Prop := ∀ c ∈ tail.head?, isNameChar c = false ∧ c ≠ '}'

@[simp] theorem Breaks.nil : Breaks [] := by simp [Breaks]

@[simp] theorem Breaks.cons_iff {c : Char} {cs : List Char} :
    Breaks (c :: cs) ↔ isNameChar c = false ∧ c ≠ '}' := by
  simp [Breaks]

theorem Breaks.reference (name tail : List Char) : Breaks (reference name ++ tail) := by
  simpa [Template.reference] using (by decide : isNameChar '{' = false)

/-- Blanks break off a reference. -/
theorem Breaks.of_blanks {cs : List Char} (h : ∀ c ∈ cs, isBlank c = true) : Breaks cs := by
  cases cs with
  | nil => exact .nil
  | cons c cs =>
    obtain ⟨hname, -, -, hbrace⟩ := isBlank_plain (h c List.mem_cons_self)
    exact Breaks.cons_iff.2 ⟨hname, hbrace⟩

/-- A character by which a reference begun before goes on. -/
theorem Breaks.not_cons {c : Char} {cs : List Char} (hc : isNameChar c = true ∨ c = '}') :
    ¬ Breaks (c :: cs) := by
  rw [Breaks.cons_iff]
  rintro ⟨hname, hbrace⟩
  obtain hc | hc := hc
  · rw [hc] at hname
    cases hname
  · exact hbrace hc

theorem isNameChar_of_isName {name : List Char} (h : isName name = true) :
    ∀ c ∈ name, isNameChar c = true := by
  simpa [isName, List.all_eq_true] using (Bool.and_eq_true_iff.1 h).2

/-- A reference begun before would end in `tail`: only characters of names stand in front of its
first closing brace. -/
def EndsReference (tail : List Char) : Prop :=
  ∃ name rest, (∀ c ∈ name, isNameChar c = true) ∧ tail = name ++ '}' :: rest

theorem Breaks.not_endsReference {tail : List Char} (h : Breaks tail) : ¬ EndsReference tail := by
  rintro ⟨name, rest, hname, rfl⟩
  cases name with
  | nil => exact Breaks.not_cons (.inr rfl) h
  | cons c name => exact Breaks.not_cons (.inl (hname c List.mem_cons_self)) h

/-- What ends no reference begun before does not change which one a text completes. -/
theorem nameAt_append_of_not_endsReference {tail : List Char} (htail : ¬ EndsReference tail)
    (cs : List Char) : nameAt (cs ++ tail) = nameAt cs := by
  refine Option.ext fun name => ?_
  rw [nameAt_eq_some_iff, nameAt_eq_some_iff]
  refine and_congr_right fun hname => ⟨?_, ?_⟩
  · rintro ⟨rest, heq⟩
    obtain ⟨ds, rfl, hrest⟩ | ⟨ds, rfl, hrest⟩ := List.append_eq_append_iff.1 heq
    -- the reference would end in the tail
    · have hds : ∀ c ∈ ds, isNameChar c = true := fun c hc =>
        isNameChar_of_isName hname c (List.mem_append_right cs hc)
      exact absurd ⟨ds, rest, hds, hrest⟩ htail
    · cases ds with
      | nil => exact absurd ⟨[], rest, by simp, hrest.symm⟩ htail
      | cons d ds =>
        obtain ⟨rfl, -⟩ := List.cons.inj hrest
        exact ⟨ds, rfl⟩
  · rintro ⟨rest, rfl⟩
    exact ⟨rest ++ tail, by simp⟩

/-- What follows behind a break does not change which reference a text completes. -/
theorem nameAt_append {cs tail : List Char} (htail : Breaks tail) :
    nameAt (cs ++ tail) = nameAt cs :=
  nameAt_append_of_not_endsReference htail.not_endsReference cs

/-! ## References found -/

variable {c : Char} {cs tail : List Char}

/-- The names that a token refers to. -/
def Token.references : Token → List String
  | .text run => referencesIn run.toList
  | .opening _ => []
  | .closing => []

theorem referencesIn_cons (hslash : c ≠ '\\') (hbrace : c ≠ '{') :
    referencesIn (c :: cs) = referencesIn cs := by
  rw [referencesIn]
  · exact fun h _ => hslash h
  · exact fun _ _ h _ => hslash h
  · exact hbrace

theorem referencesIn_name {name : List Char} (hname : ∀ c ∈ name, isNameChar c = true) :
    referencesIn (name ++ tail) = referencesIn tail := by
  induction name with
  | nil => rfl
  | cons c name ih =>
    obtain ⟨hc, hrest⟩ := List.forall_mem_cons.1 hname
    obtain ⟨-, hreserved, hbrace, -⟩ := isNameChar_plain hc
    rw [List.cons_append, referencesIn_cons (isReserved_eq_false.1 hreserved).2.2 hbrace, ih hrest]

theorem nameAt_name {name : List Char} (hname : isName name = true) :
    nameAt (name ++ '}' :: tail) = some name :=
  nameAt_eq_some_iff.2 ⟨hname, tail, rfl⟩

/-- A reference is found where it is written. -/
theorem referencesIn_reference {name : List Char} (hname : isName name = true) :
    referencesIn (reference name ++ tail) = String.ofList name :: referencesIn tail := by
  have hbehind : referencesIn ('}' :: tail) = referencesIn tail :=
    referencesIn_cons (by decide) (by decide)
  simp [reference, referencesIn, nameAt_name hname,
    referencesIn_name (isNameChar_of_isName hname), hbehind]

/-- A reference belongs to the text run that it stands in. -/
theorem RunText.reference {name : List Char} (hname : ∀ c ∈ name, isNameChar c = true) :
    RunText (reference name) := by
  have hbehind : RunText (name ++ ['}']) := by
    induction name with
    | nil => exact .plain (by decide) .nil
    | cons c name ih =>
      obtain ⟨hc, hrest⟩ := List.forall_mem_cons.1 hname
      exact .plain (isNameChar_plain hc).2.1 (ih hrest)
  exact .plain (by decide) hbehind

/-! ## References filled -/

variable {resolve : Resolver} {out : List Char}

theorem fillOnto_pair :
    fillOnto resolve out 0 ('\\' :: c :: cs) = fillOnto resolve (c :: out) 0 cs := rfl

theorem fillOnto_brace :
    fillOnto resolve out 0 ('{' :: cs) =
      match nameAt cs with
      | none => fillOnto resolve ('{' :: out) 0 cs
      | some name =>
        match resolve (String.ofList name) with
        | none => .error (.missingExpression (String.ofList name))
        | some value => fillOnto resolve (value.toList.reverse ++ out) (name.length + 1) cs := by
  rw [fillOnto.eq_def]
  rfl

theorem fillOnto_cons (hslash : c ≠ '\\') (hbrace : c ≠ '{') :
    fillOnto resolve out 0 (c :: cs) = fillOnto resolve (c :: out) 0 cs := by
  rw [fillOnto.eq_def]
  simp [hslash, hbrace]

theorem fillOnto_skip (resolve : Resolver) (out cs tail : List Char) :
    fillOnto resolve out cs.length (cs ++ tail) = fillOnto resolve out 0 tail := by
  induction cs with
  | nil => rfl
  | cons c cs ih => simpa [fillOnto] using ih

/-- A reference fills to its value, which is not read again. -/
theorem fillOnto_reference {name : List Char} {value : String} (hname : isName name = true)
    (hvalue : resolve (String.ofList name) = some value) :
    fillOnto resolve out 0 (reference name ++ tail) =
      fillOnto resolve (value.toList.reverse ++ out) 0 tail := by
  have hskip := fillOnto_skip resolve (value.toList.reverse ++ out) (name ++ ['}']) tail
  simpa [reference, fillOnto_brace, nameAt_name hname, hvalue] using hskip

end Phrasebook.Template
