-- SUMMARY: TOML scalars that are no strings: booleans, numbers, dates and times.
import Phrasebook.Calendar.Date
import Phrasebook.Decimal.Binary64
import Phrasebook.Text.Numeral
import Phrasebook.Toml.Value

/-!
# TOML scalars

Booleans, integers in four bases, floating point numbers, dates and times. Underscores may stand
between digits, and a decimal integer has no superfluous leading zero. Numbers of any size can be
written, but the large ones are out of range.
-/
namespace Phrasebook.Toml

open Text

/-! ## Numbers -/

/-- Digits in groups with single underscores between them. -/
def grouped? (isDigit : Char → Bool) (cs : List Char) : Option (List Char) :=
  let groups := cs.splitOn '_'
  if groups.all fun group => !group.isEmpty && group.all isDigit then some groups.flatten else none

/-- Take a sign off the front. -/
def sign (cs : List Char) : Bool × List Char :=
  match cs with
  | '-' :: cs => (true, cs)
  | '+' :: cs => (false, cs)
  | cs => (false, cs)

/-- Decimal digits without a superfluous leading zero. -/
def decimal? (cs : List Char) : Option Nat := do
  let ds ← grouped? Char.isDigit cs
  match ds with
  | '0' :: _ :: _ => none
  | ds => some (Numeral.value ds)

/-- The value of digits in a base up to 16. -/
def baseValue (base : Nat) (ds : List Char) : Nat :=
  ds.foldl (fun n c =>
    base * n + if c.isDigit then c.toNat - '0'.toNat else c.toLower.toNat - 'a'.toNat + 10) 0

/-- Digits of a base, without a sign. -/
def based? (base : Nat) (isDigit : Char → Bool) (cs : List Char) : Option Nat :=
  (grouped? isDigit cs).map (baseValue base)

def isHexDigit (c : Char) : Bool :=
  c.isDigit || ('a' ≤ c && c ≤ 'f') || ('A' ≤ c && c ≤ 'F')

/-- Integers lie below this and not below its negation halved. -/
def integerBound : Int := Int.pow 2 128

/-- The value of an integer of any size. -/
def integer? (cs : List Char) : Option Value := do
  let n : Int ← match cs with
    | '0' :: 'x' :: ds => (based? 16 isHexDigit ds).map Int.ofNat
    | '0' :: 'o' :: ds => (based? 8 (fun c => '0' ≤ c && c ≤ '7') ds).map Int.ofNat
    | '0' :: 'b' :: ds => (based? 2 (fun c => c == '0' || c == '1') ds).map Int.ofNat
    | cs =>
      let (negative, ds) := sign cs
      (decimal? ds).map fun n => if negative then -(n : Int) else n
  return if -integerBound / 2 ≤ n ∧ n < integerBound then .integer n else .outOfRange

/-- A text cut at the first character that satisfies a test. The second part lacks it. -/
def cut (test : Char → Bool) (cs : List Char) : List Char × Option (List Char) :=
  match cs.dropWhile fun c => !test c with
  | [] => (cs, none)
  | _ :: rest => (cs.takeWhile fun c => !test c, some rest)

/-- The value of a floating point number of any size. -/
def float? (cs : List Char) : Option Value := do
  let asWritten : Value := .float (String.ofList cs)
  let body := (sign cs).2
  if body = ['i', 'n', 'f'] ∨ body = ['n', 'a', 'n'] then return asWritten
  let (mantissa, power) := cut (fun c => c == 'e' || c == 'E') body
  let (whole, point) := cut (· == '.') mantissa
  if point.isNone ∧ power.isNone then none
  let whole ← (decimal? whole).bind fun _ => grouped? Char.isDigit whole
  let fraction ← match point with
    | some ds => grouped? Char.isDigit ds
    | none => some []
  let exponent : Int ← match power with
    | some cs =>
      let (negative, ds) := sign cs
      (grouped? Char.isDigit ds).map fun ds =>
        if negative then -(Numeral.value ds : Int) else Numeral.value ds
    | none => some 0
  let significand := Numeral.value (whole ++ fraction)
  return if Decimal.Binary64.isInRange significand (exponent - fraction.length) then asWritten
    else .outOfRange

/-! ## Dates and times -/

/-- Two digits with a bound. -/
def twoDigits (bound : Nat) (a b : Char) : Bool :=
  a.isDigit && b.isDigit && decide (Numeral.value [a, b] ≤ bound)

def isDate (cs : List Char) : Bool :=
  match cs with
  | [a, b, c, d, '-', e, f, '-', g, h] =>
    [a, b, c, d, e, f, g, h].all Char.isDigit &&
      (⟨Numeral.value [a, b, c, d], Numeral.value [e, f], Numeral.value [g, h]⟩ : Date).isValid
  | _ => false

/-- A time of day, of which a fraction of a second is passed over. Gives what stands behind. -/
def time? (cs : List Char) : Option (List Char) :=
  match cs with
  | a :: b :: ':' :: c :: d :: ':' :: e :: f :: cs =>
    if twoDigits 23 a b && twoDigits 59 c d && twoDigits 60 e f then
      match cs with
      | '.' :: g :: cs => if g.isDigit then some (cs.dropWhile Char.isDigit) else none
      | cs => some cs
    else none
  | _ => none

/-- An offset from UTC, or nothing. -/
def isOffset (cs : List Char) : Bool :=
  match cs with
  | [] | ['Z'] | ['z'] => true
  | [s, a, b, ':', c, d] => (s == '+' || s == '-') && twoDigits 23 a b && twoDigits 59 c d
  | _ => false

/-- A date, a time of day, or both with an optional offset. -/
def isMoment (cs : List Char) : Bool :=
  if isDate cs || time? cs == some [] then true
  else
    match cs.drop 10 with
    | c :: rest =>
      isDate (cs.take 10) && (c == 'T' || c == 't' || c == ' ') && (time? rest).any isOffset
    | [] => false

/-! ## Scalars -/

/-- A character of a scalar that is no string. -/
def isScalarChar (c : Char) : Bool :=
  c.isAlphanum || c == '+' || c == '-' || c == '_' || c == '.' || c == ':'

/-- The characters of a scalar at the front of a text. A single space may stand between a date and
a time. -/
def scalarChars (cs : List Char) : List Char × List Char :=
  let first := cs.takeWhile isScalarChar
  let rest := cs.dropWhile isScalarChar
  match rest with
  | ' ' :: c :: more =>
    if isDate first && c.isDigit then
      (first ++ ' ' :: (c :: more).takeWhile isScalarChar, (c :: more).dropWhile isScalarChar)
    else (first, rest)
  | _ => (first, rest)

/-- The value of a scalar that is no string. -/
def scalarValue? (cs : List Char) : Option Value :=
  if cs = ['t', 'r', 'u', 'e'] then some (.boolean true)
  else if cs = ['f', 'a', 'l', 's', 'e'] then some (.boolean false)
  else
    (integer? cs).or <| (float? cs).or <|
      if isMoment cs then some (.moment (String.ofList cs)) else none

end Phrasebook.Toml
