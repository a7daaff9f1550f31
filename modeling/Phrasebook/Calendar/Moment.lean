-- SUMMARY: Moments with a UTC offset, their limits, and the creation date of a catalog.
import Phrasebook.Calendar.Date
import Phrasebook.Text.Numeral

/-!
# Moments

A moment is what a wall clock shows, in seconds since 1970-01-01 00:00 on that clock, together
with the clock's offset from UTC. Moments lie in the years from -9999 to 9999.
`Moment.creationDate` writes a moment in UTC to the minute, the way catalog headers show it.
-/
namespace Phrasebook

/-- A reading of a wall clock. Both fields are in seconds. -/
structure Moment where
  /-- What the clock shows. -/
  wall   : Int
  /-- How far the clock is ahead of UTC. -/
  offset : Int
deriving DecidableEq, Repr

namespace Moment

/-- The first second of the year -9999. -/
def earliest : Int := -377705116800

/-- The last second of the year 9999. -/
def latest : Int := 253402300799

/-- The second lies in the years that a moment can show. -/
def inRange (seconds : Int) : Bool := earliest ≤ seconds && seconds ≤ latest

/-- Offsets stay below 26 hours. -/
def maxOffset : Int := 93599

/-- The instant, in seconds since 1970-01-01 00:00 UTC. -/
def toUnix (moment : Moment) : Int := moment.wall - moment.offset

/-- The moment of an instant on a clock of the given offset, unless the instant, the clock or the
offset is out of range. -/
def ofUnix? (seconds offset : Int) : Option Moment :=
  if offset.natAbs ≤ maxOffset.toNat ∧ inRange seconds ∧ inRange (seconds + offset) then
    some { wall := seconds + offset, offset }
  else none

/-- A second written as a date and a time of day, `YYYY-MM-DD HH:MM+0000`. -/
def display (seconds : Int) : String :=
  let date := Date.ofDays (seconds / 86400)
  let minute := (seconds % 86400 / 60).toNat
  Text.Numeral.paddedInt 4 date.year ++ "-" ++ Text.Numeral.padded 2 date.month ++ "-" ++
    Text.Numeral.padded 2 date.day ++ " " ++ Text.Numeral.padded 2 (minute / 60) ++ ":" ++
    Text.Numeral.padded 2 (minute % 60) ++ "+0000"

/-- The moment in UTC, for the header of a catalog. A moment near the limits of its clock may have
no UTC form. -/
def creationDate? (moment : Moment) : Option String :=
  if inRange moment.toUnix then some (display moment.toUnix) else none

end Moment

end Phrasebook
