-- SUMMARY: Magnitudes of 64-bit binary floating point, rounding to them, and reading decimals.

/-!
# Binary64 magnitudes

A finite magnitude is `significand * 2 ^ exponent` with a significand below `2 ^ 53` and an
exponent of at least -1074, the significand being as large as that allows. `nearest?` rounds a
ratio of natural numbers to the nearest magnitude, a tie to the even significand; a ratio too
large for any has none. `isInRange` says whether a decimal rounds to one. `ofDecimal?` reads
`significand * 10 ^ exponent` by rounding the significand and then scaling, one rounded step at
a time.
-/
namespace Phrasebook.Decimal

structure Binary64 where
  significand : Nat
  exponent    : Int
deriving DecidableEq, Repr

namespace Binary64

/-- The least exponent. -/
def minExponent : Int := -1074

/-- The greatest exponent. -/
def maxExponent : Int := 971

/-- Significands stay below this. -/
def significandBound : Nat := Nat.pow 2 53

def zero : Binary64 := ⟨0, minExponent⟩

def isZero (x : Binary64) : Bool := x.significand == 0

/-- A power of two as a numerator and a denominator. -/
def powerOfTwo (exponent : Int) : Nat × Nat :=
  (Nat.pow 2 exponent.toNat, Nat.pow 2 (-exponent).toNat)

/-- The magnitude as a numerator and a denominator. -/
def ratio (x : Binary64) : Nat × Nat :=
  let (num, den) := powerOfTwo x.exponent
  (x.significand * num, den)

/-! ## Rounding -/

/-- The quotient rounded to the nearest natural number, a tie to the even one. -/
def divNearest (num den : Nat) : Nat :=
  let quotient := num / den
  let rest := num % den
  if 2 * rest < den then quotient
  else if 2 * rest > den then quotient + 1
  else quotient + quotient % 2

/-- The exponent of the greatest power of two that does not exceed a positive ratio. -/
def log2 (num den : Nat) : Int :=
  let guess : Int := (Nat.log2 num : Int) - Nat.log2 den
  let (up, down) := powerOfTwo guess
  if den * up ≤ num * down then guess else guess - 1

/-- The magnitude nearest to `num / den`. -/
def nearest? (num den : Nat) : Option Binary64 :=
  if num = 0 then some zero
  else
    let exponent := max (log2 num den - 52) minExponent
    let (up, down) := powerOfTwo exponent
    let significand := divNearest (num * down) (den * up)
    let rounded : Binary64 :=
      if significand = significandBound then ⟨significandBound / 2, exponent + 1⟩
      else ⟨significand, exponent⟩
    if rounded.exponent ≤ maxExponent then some rounded else none

def mul? (x y : Binary64) : Option Binary64 :=
  nearest? (x.ratio.1 * y.ratio.1) (x.ratio.2 * y.ratio.2)

def div? (x y : Binary64) : Option Binary64 :=
  nearest? (x.ratio.1 * y.ratio.2) (x.ratio.2 * y.ratio.1)

/-! ## Reading decimals -/

/-- The greatest power of ten in one scaling step. -/
def maxStep : Nat := 308

/-- The magnitude nearest to a power of ten, up to `maxStep`. -/
def powerOfTen? (n : Nat) : Option Binary64 := nearest? (Nat.pow 10 n) 1

/-- Divide by `10 ^ n`, in steps of at most `10 ^ maxStep`. -/
def scaleDown? (x : Binary64) (n : Nat) : Option Binary64 :=
  if n ≤ maxStep then do x.div? (← powerOfTen? n)
  else if x.isZero then some x
  else do
    let next ← x.div? (← powerOfTen? maxStep)
    next.scaleDown? (n - maxStep)
termination_by n
decreasing_by simp only [maxStep] at *; omega

/-- Multiply by `10 ^ n`, in one step. -/
def scaleUp? (x : Binary64) (n : Nat) : Option Binary64 :=
  if n ≤ maxStep then do x.mul? (← powerOfTen? n)
  else if x.isZero then some x
  else none

/-- The magnitude read for `significand * 10 ^ exponent`. -/
def ofDecimal? (significand : Nat) (exponent : Int) : Option Binary64 := do
  let x ← nearest? significand 1
  if 0 ≤ exponent then x.scaleUp? exponent.toNat else x.scaleDown? (-exponent).toNat

/-- Whether `significand * 10 ^ exponent` rounds to a magnitude. An exponent above the upper bound
makes it too large as the bound does, and one below the lower bound keeps it under one. -/
def isInRange (significand : Nat) (exponent : Int) : Bool :=
  let exponent := max (-(Nat.log2 significand + 1 : Int)) (min exponent 310)
  (nearest? (significand * Nat.pow 10 exponent.toNat) (Nat.pow 10 (-exponent).toNat)).isSome

example : isInRange 17976931348623158 292 ∧ ¬isInRange 17976931348623159 292 := by decide +kernel
example : isInRange 0 1000000 ∧ isInRange 1 (-1000000) ∧ ¬isInRange 1 1000000 := by decide +kernel
example : nearest? 1 1 = some ⟨2 ^ 52, -52⟩ := by decide +kernel
example : nearest? 1 10 = some ⟨7205759403792794, -56⟩ := by decide +kernel

end Binary64

end Phrasebook.Decimal
