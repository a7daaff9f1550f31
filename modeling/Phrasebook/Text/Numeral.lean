-- SUMMARY: Decimal numerals: their value, bounded signed reading, and zero-padded writing.

/-!
# Decimal numerals

Numerals are lists of ASCII digits, most significant first. `value` reads one, `readSigned` reads
an optional sign and a numeral within bounds, and `padded` writes a number in a least width.
-/
namespace Phrasebook.Text.Numeral

/-- The number a digit stands for. -/
def digit (c : Char) : Nat := c.toNat - '0'.toNat

/-- The number a list of digits stands for, read behind a number already read. -/
def valueFrom (n : Nat) (ds : List Char) : Nat := ds.foldl (fun n c => 10 * n + digit c) n

/-- The number a list of digits stands for; the empty list stands for zero. -/
def value (ds : List Char) : Nat := valueFrom 0 ds

theorem valueFrom_append (n : Nat) (ds es : List Char) :
    valueFrom n (ds ++ es) = valueFrom (valueFrom n ds) es :=
  List.foldl_append

/-- One or more ASCII digits and nothing else. -/
def isNumeral (cs : List Char) : Bool := !cs.isEmpty && cs.all Char.isDigit

/-- The value of a text that is all digits. -/
def read? (cs : List Char) : Option Nat := if isNumeral cs then some (value cs) else none

/-- An integer with an optional sign, if it lies between `low` and `high`. -/
def readSigned? (low high : Int) (cs : List Char) : Option Int := do
  let n ← match cs with
    | '-' :: ds => (read? ds).map fun n => -(n : Int)
    | '+' :: ds => (read? ds).map fun n => (n : Int)
    | ds => (read? ds).map fun n => (n : Int)
  if low ≤ n ∧ n ≤ high then some n else none

/-- The least signed 64-bit integer. -/
def int64Min : Int := -9223372036854775808

/-- The greatest signed 64-bit integer. -/
def int64Max : Int := 9223372036854775807

/-- The greatest unsigned 64-bit integer. -/
def nat64Max : Nat := 18446744073709551615

/-- Zeros in front of `s` up to a least width. -/
def padLeft (width : Nat) (s : String) : String :=
  String.ofList (List.replicate (width - s.length) '0') ++ s

/-- A number in decimal, with zeros in front up to a least width. -/
def padded (width n : Nat) : String := padLeft width (toString n)

/-- An integer in decimal, its sign in front of the zeros and counted in the width. -/
def paddedInt (width : Nat) (n : Int) : String :=
  if n < 0 then "-" ++ padded (width - 1) n.natAbs else padded width n.natAbs

example : paddedInt 4 (-1) = "-001" := by decide +kernel
example : readSigned? int64Min int64Max ['+', '5'] = some 5 := by decide

end Phrasebook.Text.Numeral
