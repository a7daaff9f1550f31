-- SUMMARY: Reading moments: internet timestamps and Unix seconds.
import Phrasebook.Calendar.Moment
import Phrasebook.Text.Blank

/-!
# Timestamps

`Moment.ofTimestamp?` reads `YYYY-MM-DD?HH:MM:SS` with an optional fraction of a second and an
offset, where `?` is any one-byte character, and checks every range. A leap second is accepted
where one may occur, at 23:59:60 UTC on the last day of a month, and counts as the second before.
`Moment.ofUnixText?` reads seconds since 1970.
-/
namespace Phrasebook.Moment

open Text

/-! ## Parts of a timestamp -/

/-- A numeral of exactly `width` digits at the front of the text. -/
def digits? (width : Nat) (cs : List Char) : Option (Nat × List Char) :=
  if (cs.take width).length = width then
    (Numeral.read? (cs.take width)).map fun n => (n, cs.drop width)
  else none

/-- A fixed character at the front of the text. -/
def expect? (c : Char) : List Char → Option (List Char)
  | d :: cs => if c = d then some cs else none
  | [] => none

/-- Pass over a fraction of a second: a point and one or more digits. -/
def fraction? (cs : List Char) : Option (List Char) :=
  match cs with
  | '.' :: c :: cs => if c.isDigit then some (cs.dropWhile Char.isDigit) else none
  | ['.'] => none
  | cs => some cs

/-- An offset from UTC that ends the text, in seconds. -/
def offset? (cs : List Char) : Option Int := do
  match cs with
  | ['Z'] | ['z'] => return 0
  | sign :: cs =>
    let (hour, cs) ← digits? 2 cs
    let cs ← expect? ':' cs
    let (minute, cs) ← digits? 2 cs
    if ¬ cs.isEmpty ∨ hour > 23 ∨ minute > 59 then none
    let seconds : Int := hour * 3600 + minute * 60
    if sign = '+' then return seconds
    if sign = '-' then return -seconds
    none
  | [] => none

/-- The last second of a month in UTC, where a leap second may follow. -/
def mayPrecedeLeapSecond (moment : Moment) : Bool :=
  inRange moment.toUnix && moment.toUnix % 86400 == 86399 &&
    (Date.ofDays (moment.toUnix / 86400)).isMonthEnd

/-! ## Reading -/

/-- The moment that a timestamp denotes. -/
def ofTimestamp? (text : String) : Option Moment := do
  let cs := text.toList
  let (year, cs) ← digits? 4 cs
  let cs ← expect? '-' cs
  let (month, cs) ← digits? 2 cs
  let cs ← expect? '-' cs
  let (day, cs) ← digits? 2 cs
  let (separator, cs) ← cs.head?.map fun c => (c, cs.tail)
  if separator.utf8Size ≠ 1 then none
  let (hour, cs) ← digits? 2 cs
  let cs ← expect? ':' cs
  let (minute, cs) ← digits? 2 cs
  let cs ← expect? ':' cs
  let (second, cs) ← digits? 2 cs
  let cs ← fraction? cs
  let offset ← offset? cs
  let date : Date := ⟨year, month, day⟩
  if ¬ date.isValid ∨ hour > 23 ∨ minute > 59 ∨ second > 60 then none
  let wall := date.toDays * 86400 + hour * 3600 + minute * 60 + min second 59
  let moment : Moment := { wall, offset }
  if second = 60 ∧ ¬ moment.mayPrecedeLeapSecond then none
  return moment

/-- The moment in UTC of a count of seconds since 1970, blanks around it ignored. -/
def ofUnixText? (text : String) : Option Moment := do
  let seconds ← Numeral.readSigned? Numeral.int64Min Numeral.int64Max (trim text.toList)
  ofUnix? seconds 0

example : (ofTimestamp? "2024-12-31T23:59:60Z").bind creationDate? =
    some "2024-12-31 23:59+0000" := by decide +kernel
example : ofTimestamp? "2100-02-29T00:00:00Z" = none := by decide +kernel

end Phrasebook.Moment
