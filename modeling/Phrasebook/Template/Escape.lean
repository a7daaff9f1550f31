-- SUMMARY: Reserved characters of templates, escaping and unescaping.

/-!
# Escaping

A template reserves three characters: `[` opens an element, `]` closes it, and `\` escapes the
character behind it. `escape` writes a backslash before each of them and `unescape` takes the
escapes out again; `unescape_escape_append` says that nothing is lost, whatever text follows.
-/
namespace Phrasebook.Template

/-- A character that literal text must escape. -/
def isReserved (c : Char) : Bool := c == '[' || c == ']' || c == '\\'

/-- A character as literal text writes it. -/
def escapeChar (c : Char) : List Char := if isReserved c then ['\\', c] else [c]

/-- Put a backslash before every reserved character. -/
def escape (cs : List Char) : List Char := cs.flatMap escapeChar

/-- Replace every pair of a backslash and a character by the character. A backslash with nothing
behind it stays. -/
def unescape : List Char → List Char
  | '\\' :: c :: cs => c :: unescape cs
  | c :: cs => c :: unescape cs
  | [] => []

@[simp]
theorem escape_append (s t : List Char) : escape (s ++ t) = escape s ++ escape t :=
  List.flatMap_append

theorem unescape_escapeChar_append (c : Char) (t : List Char) :
    unescape (escapeChar c ++ t) = c :: unescape t := by
  by_cases h : isReserved c = true
  · simp [escapeChar, h, unescape]
  · have hc : c ≠ '\\' := by rintro rfl; exact h rfl
    simp [escapeChar, h, unescape, hc]

/-- Escaped text reads back, in front of any other text. -/
theorem unescape_escape_append (s t : List Char) :
    unescape (escape s ++ t) = s ++ unescape t := by
  induction s with
  | nil => rfl
  | cons c s ih =>
    rw [← List.singleton_append, escape_append, List.append_assoc]
    simp [escape, unescape_escapeChar_append] at ih ⊢
    exact ih

end Phrasebook.Template
