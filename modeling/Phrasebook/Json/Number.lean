-- SUMMARY: JSON numerals: their grammar, the numbers they denote, and the text of numbers.
import Phrasebook.Decimal.Shortest
import Phrasebook.Json.Value
import Phrasebook.Text.Numeral

/-!
# JSON numbers

A numeral has a sign, digits without a superfluous leading zero, a fraction and an exponent. One
without fraction and exponent that fits into 64 bits, signed or unsigned, denotes an integer; minus
zero does not. Any other denotes a floating point number: of its digits, as many leading ones count
as fit into 64 bits without a sign, and the rest only shift the point. A numeral that denotes
neither is garbled.

A floating point number is written with the fewest digits that read back, in positional notation
from `1e-5` up to `1e16`.
-/
namespace Phrasebook.Json

open Text.Numeral (digit)

/-! ## Numerals -/

/-- A numeral taken apart. -/
structure Numeral where
  negative : Bool
  whole    : List Char
  /-- The digits behind the point, if there is a point. -/
  fraction : Option (List Char)
  /-- The exponent, if there is one. -/
  exponent : Option Int

namespace Numeral

/-- The digits at the front of a text; there is at least one. -/
def digits? (cs : List Char) : Option (List Char × List Char) :=
  match cs.takeWhile Char.isDigit with
  | [] => none
  | ds => some (ds, cs.dropWhile Char.isDigit)

/-- The digits in front of the point: a zero stands alone. -/
def whole? (cs : List Char) : Option (List Char × List Char) := do
  let (ds, cs) ← digits? cs
  match ds with
  | '0' :: _ :: _ => none
  | ds => some (ds, cs)

def fraction? (cs : List Char) : Option (Option (List Char) × List Char) :=
  match cs with
  | '.' :: cs => (digits? cs).map fun (ds, cs) => (some ds, cs)
  | cs => some (none, cs)

/-- The exponent ends the numeral. -/
def exponent? (cs : List Char) : Option (Option Int) :=
  let unsigned (cs : List Char) : Option Int := (Text.Numeral.read? cs).map fun n => (n : Int)
  match cs with
  | [] => some none
  | e :: cs =>
    if e = 'e' ∨ e = 'E' then
      match cs with
      | '+' :: cs => (unsigned cs).map some
      | '-' :: cs => (unsigned cs).map fun n => some (-n)
      | cs => (unsigned cs).map some
    else none

/-- Take a text apart that is a numeral from end to end. -/
def ofChars? (cs : List Char) : Option Numeral := do
  let (negative, cs) := match cs with
    | '-' :: cs => (true, cs)
    | cs => (false, cs)
  let (whole, cs) ← whole? cs
  let (fraction, cs) ← fraction? cs
  let exponent ← exponent? cs
  return { negative, whole, fraction, exponent }

/-! ## Values -/

/-- Read leading digits behind `n` while the number fits into 64 bits. Also gives the digits that
are left. -/
def significant (n : Nat) : List Char → Nat × List Char
  | [] => (n, [])
  | c :: cs =>
    let next := 10 * n + digit c
    if next ≤ Text.Numeral.nat64Max then significant next cs else (n, c :: cs)

/-- The number that a numeral denotes. -/
def number? (numeral : Numeral) : Option Number :=
  let (n, dropped) := significant 0 numeral.whole
  let real (n : Nat) (exponent : Int) : Option Number :=
    (Decimal.Binary64.ofDecimal? n exponent).map (Number.real numeral.negative)
  match numeral.fraction, numeral.exponent with
  | none, none =>
    if !dropped.isEmpty then real n dropped.length
    else if !numeral.negative then some (.int n)
    else if 0 < n ∧ n ≤ Nat.pow 2 63 then some (.int (-n))
    else real n 0
  | fraction, exponent =>
    let ds := fraction.getD []
    let (m, ignored) := significant n ds
    let shift : Int := dropped.length - (ds.length - ignored.length)
    real m (shift + exponent.getD 0)

end Numeral

/-! ## Text -/

/-- Where positional notation begins and ends. -/
def layout : Decimal.Layout := { least := -5, bound := 16 }

/-- The text of a number. -/
def Number.text : Number → String
  | .int n => toString n
  | .real negative magnitude =>
    let sign := if negative then "-" else ""
    if magnitude.isZero then sign ++ "0.0" else sign ++ layout.write magnitude.shortest

end Phrasebook.Json
