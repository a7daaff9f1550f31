-- SUMMARY: The shortest decimal that reads back as a binary64 magnitude, and its text.
import Phrasebook.Decimal.Binary64

/-!
# Shortest decimals

The decimals that round to a magnitude form an interval around it, with its ends if the
significand is even. `shortest` tries 1, 2, ... 17 digits and takes the first grid of decimals with
a point in the interval; only the two neighbours of the magnitude on the grid need a test. Of two
hits the nearer wins, and of two equally near the even one.

`Layout` collects the decisions of a text format: where positional notation ends.
-/
namespace Phrasebook.Decimal

/-- `digits * 10 ^ exponent`. -/
structure Scientific where
  digits   : Nat
  exponent : Int
deriving DecidableEq, Repr

namespace Scientific

/-- Move zeros at the end of the digits into the exponent; at most `fuel` of them. -/
def dropZeros (fuel : Nat) (x : Scientific) : Scientific :=
  match fuel with
  | 0 => x
  | fuel + 1 =>
    if x.digits ≠ 0 ∧ x.digits % 10 = 0 then dropZeros fuel ⟨x.digits / 10, x.exponent + 1⟩ else x

end Scientific

namespace Binary64

/-- A magnitude on the grid of the multiples of `10 ^ grid`: scaled to quarters of its last place,
and with the interval of what rounds to it. A point `n` of the grid lies at `n * step`. -/
structure Scaled where
  low   : Nat
  value : Nat
  high  : Nat
  step  : Nat

/-- Scale a magnitude to a grid. Just above a power of two the interval is shorter below. -/
def scale (x : Binary64) (grid : Int) : Scaled :=
  let (up, down) := powerOfTwo (x.exponent - 2)
  let unit := up * Nat.pow 10 (-grid).toNat
  let below :=
    if x.significand = significandBound / 2 ∧ x.exponent > minExponent then 1 else 2
  { low   := (4 * x.significand - below) * unit
    value := 4 * x.significand * unit
    high  := (4 * x.significand + 2) * unit
    step  := down * Nat.pow 10 grid.toNat }

/-- The exponent of the greatest power of ten that does not exceed a positive magnitude. -/
def log10 (x : Binary64) : Int :=
  let guess := (((Nat.log2 x.significand : Int) + x.exponent) * 30103) / 100000
  let reaches (exponent : Int) : Bool :=
    let scaled := x.scale exponent
    scaled.step ≤ scaled.value
  if reaches (guess + 1) then guess + 1 else if reaches guess then guess else guess - 1

/-- The point of the grid that is nearest among those that round to the magnitude. -/
def hit? (x : Binary64) (grid : Int) : Option Scientific :=
  let s := x.scale grid
  let inside (n : Nat) : Bool :=
    if x.significand % 2 = 0 then s.low ≤ n * s.step && n * s.step ≤ s.high
    else s.low < n * s.step && n * s.step < s.high
  let lower := s.value / s.step
  let upper := lower + 1
  let below := 2 * (s.value - lower * s.step)
  let lowerNearer := below < s.step || (below == s.step && lower % 2 == 0)
  match 0 < lower && inside lower, inside upper with
  | true, true => some ⟨if lowerNearer then lower else upper, grid⟩
  | true, false => some ⟨lower, grid⟩
  | false, true => some ⟨upper, grid⟩
  | false, false => none

/-- The shortest decimal that rounds to a positive magnitude. -/
def shortest (x : Binary64) : Scientific :=
  let top := x.log10
  let found := (List.range 17).findSome? fun (n : Nat) => x.hit? (top - n)
  (found.getD ⟨0, 0⟩).dropZeros 20

end Binary64

/-! ## Layout -/

/-- How decimals are written. -/
structure Layout where
  /-- Positional notation begins at this power of ten. -/
  least : Int
  /-- Positional notation ends before this power of ten. -/
  bound : Int

/-- Zeros. -/
def zeros (n : Int) : String := String.ofList (List.replicate n.toNat '0')

/-- A decimal without a sign. In positional notation a digit stands behind the point; elsewhere
the exponent shows its sign. -/
def Layout.write (layout : Layout) (x : Scientific) : String :=
  if x.digits = 0 then "0.0"
  else
    let ds := (toString x.digits).toList
    let power : Int := x.exponent + ds.length - 1
    if layout.least ≤ power ∧ power < layout.bound then
      if 0 ≤ x.exponent then String.ofList ds ++ zeros x.exponent ++ ".0"
      else if 0 ≤ power then
        String.ofList (ds.take (power + 1).toNat) ++ "." ++
          String.ofList (ds.drop (power + 1).toNat)
      else "0." ++ zeros (-power - 1) ++ String.ofList ds
    else
      let fraction := if ds.length ≤ 1 then "" else "." ++ String.ofList (ds.drop 1)
      let sign := if 0 ≤ power then "+" else "-"
      String.ofList (ds.take 1) ++ fraction ++ "e" ++ sign ++ toString power.natAbs

end Phrasebook.Decimal
