-- SUMMARY: Placeholder names, their references `{name}`, and the references inside a text run.

/-!
# Placeholders

A placeholder reference is a name in braces; a name is one or more ASCII letters, digits or
underscores. `nameAt` recognises a reference just behind its opening brace, `reference` writes
one, and `referencesIn` lists the references of a text run in which backslash escapes a character.
-/
namespace Phrasebook.Template

/-- A character that may stand in a placeholder name. -/
def isNameChar (c : Char) : Bool := c.isAlphanum || c == '_'

/-- A text that may name a placeholder. -/
def isName (cs : List Char) : Bool := !cs.isEmpty && cs.all isNameChar

/-- The name of the reference that `cs` completes, where `cs` is the text behind a `{`. -/
def nameAt (cs : List Char) : Option (List Char) :=
  match cs.takeWhile isNameChar, cs.dropWhile isNameChar with
  | c :: name, '}' :: _ => some (c :: name)
  | _, _ => none

/-- The reference to a placeholder. -/
def reference (name : List Char) : List Char := '{' :: name ++ ['}']

/-- The names referred to in a text run, in order and with repetitions. An escaped brace opens no
reference. -/
def referencesIn : List Char → List String
  | [] => []
  | ['\\'] => []
  | '\\' :: _ :: cs => referencesIn cs
  | '{' :: cs =>
    match nameAt cs with
    | some name => String.ofList name :: referencesIn cs
    | none => referencesIn cs
  | _ :: cs => referencesIn cs

theorem nameAt_eq_some_iff {cs name : List Char} :
    nameAt cs = some name ↔ isName name = true ∧ ∃ rest, cs = name ++ '}' :: rest := by
  constructor
  · intro h
    rw [nameAt] at h
    split at h
    · rename_i c n rest htake hdrop
      obtain rfl := Option.some.inj h
      refine ⟨?_, rest, ?_⟩
      · have := List.all_takeWhile (p := isNameChar) (l := cs)
        rw [htake] at this
        simpa [isName] using this
      · rw [← htake, ← hdrop, List.takeWhile_append_dropWhile]
    · cases h
  · rintro ⟨hname, rest, rfl⟩
    have hall : ∀ c ∈ name, isNameChar c = true := by
      simpa [isName, List.all_eq_true] using (Bool.and_eq_true_iff.1 hname).2
    have hne : name ≠ [] := by rintro rfl; simp [isName] at hname
    obtain ⟨c, n, rfl⟩ := List.exists_cons_of_ne_nil hne
    have hstop : isNameChar '}' = false := by decide
    rw [nameAt, List.takeWhile_append_of_pos hall, List.dropWhile_append_of_pos hall]
    simp [List.takeWhile, List.dropWhile, hstop]

end Phrasebook.Template
