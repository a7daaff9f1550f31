-- SUMMARY: Splitting a text at its line feeds, with or without the feeds.

/-!
# Lines

`Text.lines` lists the lines of a text without their ends (`\n` or `\r\n`), and
`Text.segments` cuts a text after every line feed and keeps the feeds, so that nothing is lost.
-/
namespace Phrasebook.Text

/-- Cut a text after every line feed. `line` holds the line under way, reversed. -/
def segmentsFrom (line : List Char) : List Char → List (List Char)
  | [] => if line.isEmpty then [] else [line.reverse]
  | c :: cs =>
    if c = '\n' then (c :: line).reverse :: segmentsFrom [] cs else segmentsFrom (c :: line) cs

/-- The text in pieces that each end with a line feed, the last one perhaps without. -/
def segments (cs : List Char) : List (List Char) := segmentsFrom [] cs

theorem segmentsFrom_flatten (line cs : List Char) :
    (segmentsFrom line cs).flatten = line.reverse ++ cs := by
  induction cs generalizing line with
  | nil => cases line <;> simp [segmentsFrom]
  | cons c cs ih =>
    by_cases h : c = '\n' <;> simp [segmentsFrom, h, ih]

/-- Cutting loses nothing. -/
theorem segments_flatten (cs : List Char) : (segments cs).flatten = cs :=
  segmentsFrom_flatten [] cs

/-- A segment without its line end. A carriage return goes only with the line feed behind it. -/
def chomp (segment : List Char) : List Char :=
  match segment.reverse with
  | '\n' :: '\r' :: line => line.reverse
  | '\n' :: line => line.reverse
  | line => line.reverse

/-- The lines of a text, without their ends. -/
def lines (cs : List Char) : List (List Char) := (segments cs).map chomp

end Phrasebook.Text
