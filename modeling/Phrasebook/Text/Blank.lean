-- SUMMARY: Blank characters (Unicode White_Space), trimming, and the collapsing of blank runs.

/-!
# Blank text

A character is blank when Unicode gives it the property `White_Space`. Texts are handled as lists
of characters: `trimStart`, `trimEnd` and `trim` drop blanks at the ends, `collapse` turns every
run of blanks into one space, and `words` lists what stands between the runs.
-/
namespace Phrasebook.Text

/-! ## Blank characters -/

/-- Unicode `White_Space`: the six ASCII blanks and nineteen others. -/
def isBlank (c : Char) : Bool :=
  let n := c.toNat
  (9 ≤ n && n ≤ 13) || n == 0x20 || n == 0x85 || n == 0xA0 || n == 0x1680 ||
    (0x2000 ≤ n && n ≤ 0x200A) || n == 0x2028 || n == 0x2029 || n == 0x202F ||
    n == 0x205F || n == 0x3000

theorem isBlank_space : isBlank ' ' = true := by decide

/-- A text without any character but blanks. -/
def isBlankText (cs : List Char) : Bool := cs.all isBlank

/-! ## Trimming -/

/-- Drop the blanks at the front. -/
def trimStart (cs : List Char) : List Char := cs.dropWhile isBlank

/-- Drop the blanks at the back. -/
def trimEnd (cs : List Char) : List Char := (cs.reverse.dropWhile isBlank).reverse

/-- Drop the blanks at both ends. -/
def trim (cs : List Char) : List Char := trimEnd (trimStart cs)

/-- `trim` on strings. -/
def trimmed (s : String) : String := String.ofList (trim s.toList)

theorem takeWhile_append_trimStart (cs : List Char) :
    cs.takeWhile isBlank ++ trimStart cs = cs :=
  List.takeWhile_append_dropWhile

theorem trimEnd_append_takeWhile (cs : List Char) :
    trimEnd cs ++ (cs.reverse.takeWhile isBlank).reverse = cs := by
  rw [trimEnd, ← List.reverse_append, List.takeWhile_append_dropWhile, List.reverse_reverse]

/-! ## Collapsing -/

/-- Write `cs` behind the reversed text `out`, a blank only as a space and never after one. -/
def collapseOnto (out : List Char) : List Char → List Char
  | [] => out
  | c :: cs =>
    if isBlank c then collapseOnto (if out.head? = some ' ' then out else ' ' :: out) cs
    else collapseOnto (c :: out) cs

/-- Replace every run of blanks by a single space. -/
def collapse (cs : List Char) : List Char := (collapseOnto [] cs).reverse

/-- `collapse` on strings. -/
def collapsed (s : String) : String := String.ofList (collapse s.toList)

/-! ## Words -/

/-- The maximal runs of characters that are not blank, in order. `word` holds the run under way,
reversed. -/
def wordsFrom (word : List Char) : List Char → List (List Char)
  | [] => if word.isEmpty then [] else [word.reverse]
  | c :: cs =>
    if isBlank c then
      if word.isEmpty then wordsFrom [] cs else word.reverse :: wordsFrom [] cs
    else wordsFrom (c :: word) cs

/-- The words of a text: its maximal runs without a blank. -/
def words (cs : List Char) : List (List Char) := wordsFrom [] cs

end Phrasebook.Text
