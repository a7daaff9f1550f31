-- SUMMARY: Day numbers count the dates of the Gregorian calendar, one after the other.
import Mathlib.Data.Int.Basic
import Phrasebook.Calendar.Date

/-!
# Day numbers

The calendar is a succession of dates: `Date.next` gives the date of the next day, and `Date.IsDay`
counts the days in both directions from 1970-01-01. The arithmetic of `toDays` and `ofDays` agrees
with the count. A year that starts in March begins on the day `yearStart`, and the leap day, if it
has one, comes last in it, so a next day adds one to the day number (`toDays_next`); the date can
be told from the number (`ofDays_toDays`); and every number is that of a date, since there is one
before it and the days after that are counted (`exists_toDays_eq`).
-/
namespace Phrasebook.Date

/-! ## Counting days -/

/-- The date of the next day. -/
def next (date : Date) : Date :=
  if date.day < daysInMonth date.year date.month then { date with day := date.day + 1 }
  else if date.month < 12 then { date with month := date.month + 1, day := 1 }
  else { year := date.year + 1, month := 1, day := 1 }

/-- The date of a day, counted day by day from 1970-01-01. -/
inductive IsDay : Int → Date → Prop where
  | epoch : IsDay 0 ⟨1970, 1, 1⟩
  | next {day : Int} {date : Date} (h : IsDay day date) : IsDay (day + 1) date.next
  | previous {day : Int} {date : Date} (hvalid : date.isValid = true)
      (h : IsDay (day + 1) date.next) : IsDay day date

/-! ## Months and years -/

theorem isLeapYear_iff (year : Int) :
    isLeapYear year = true ↔ year % 4 = 0 ∧ (year % 100 ≠ 0 ∨ year % 400 = 0) := by
  simp [isLeapYear]

theorem isValid_iff {date : Date} :
    date.isValid = true ↔ (1 ≤ date.month ∧ date.month ≤ 12) ∧
      1 ≤ date.day ∧ date.day ≤ daysInMonth date.year date.month := by
  simp [isValid, and_assoc]

theorem daysInMonth_bounds (year : Int) (month : Nat) :
    1 ≤ daysInMonth year month ∧ daysInMonth year month ≤ 31 := by
  unfold daysInMonth
  split
  · split <;> decide
  all_goals decide

theorem isValid_next {date : Date} (h : date.isValid = true) : date.next.isValid = true := by
  obtain ⟨hmonth, hday⟩ := isValid_iff.1 h
  rw [isValid_iff, next]
  split
  · exact ⟨hmonth, by simp, by simpa⟩
  · split
    · rename_i hbefore
      exact ⟨⟨Nat.succ_pos _, hbefore⟩, Nat.le_refl 1, (daysInMonth_bounds _ _).1⟩
    · exact ⟨⟨Nat.le_refl 1, by simp⟩, Nat.le_refl 1, (daysInMonth_bounds _ _).1⟩

/-- The extra day at the end of a year that starts in March. -/
def leapDay (year : Int) : Int := if isLeapYear (year + 1) then 1 else 0

/-- The days before the first of March of a year, from that of the year 0. -/
def yearStart (year : Int) : Int := 365 * year + year / 4 - year / 100 + year / 400

theorem yearStart_succ (year : Int) :
    yearStart (year + 1) = yearStart year + 365 + leapDay year := by
  -- a quotient grows when its divisor divides the next year
  have h4 : (year + 1) / 4 = year / 4 + if (year + 1) % 4 = 0 then 1 else 0 := by split <;> omega
  have h100 : (year + 1) / 100 = year / 100 + if (year + 1) % 100 = 0 then 1 else 0 := by
    split <;> omega
  have h400 : (year + 1) / 400 = year / 400 + if (year + 1) % 400 = 0 then 1 else 0 := by
    split <;> omega
  have hleap := isLeapYear_iff (year + 1)
  simp only [yearStart, leapDay, h4, h100, h400, hleap]
  split
  · omega
  · omega

/-- The year that starts in March and has the date in it. -/
def marchYear (date : Date) : Int := if date.month ≤ 2 then date.year - 1 else date.year

/-- The months since March. -/
def marchMonth (date : Date) : Int := if date.month ≤ 2 then date.month + 9 else date.month - 3

/-- The days since the first of March. -/
def dayOfYear (date : Date) : Int := (153 * date.marchMonth + 2) / 5 + date.day - 1

theorem toDays_eq (date : Date) :
    date.toDays = yearStart date.marchYear + date.dayOfYear - epochShift := by
  simp only [toDays, yearStart, dayOfYear, marchYear, marchMonth, periodDays]
  omega

/-- The months from March to January last until the next ones begin. -/
theorem daysInMonth_eq {date : Date} (hmonth : 1 ≤ date.month ∧ date.month ≤ 12)
    (hne : date.month ≠ 2) :
    (daysInMonth date.year date.month : Int) =
      (153 * (date.marchMonth + 1) + 2) / 5 - (153 * date.marchMonth + 2) / 5 := by
  have hcases : date.month = 1 ∨ date.month = 3 ∨ date.month = 4 ∨ date.month = 5 ∨
      date.month = 6 ∨ date.month = 7 ∨ date.month = 8 ∨ date.month = 9 ∨ date.month = 10 ∨
      date.month = 11 ∨ date.month = 12 := by
    omega
  rcases hcases with h | h | h | h | h | h | h | h | h | h | h <;>
    simp [daysInMonth, marchMonth, h]

theorem daysInMonth_february (year : Int) :
    (daysInMonth year 2 : Int) = 28 + leapDay (year - 1) := by
  rw [daysInMonth, leapDay, Int.sub_add_cancel]
  split <;> rfl

/-- The day behind the last one of a month is the first of the next month. -/
theorem next_monthEnd {date : Date} (hmonth : 1 ≤ date.month ∧ date.month ≤ 12)
    (hend : date.day = daysInMonth date.year date.month) :
    date.next.day = 1 ∧
      (date.month = 2 → date.next.marchYear = date.marchYear + 1 ∧ date.next.marchMonth = 0) ∧
      (date.month ≠ 2 → date.next.marchYear = date.marchYear ∧
        date.next.marchMonth = date.marchMonth + 1) := by
  rw [next, if_neg (by omega)]
  split
  · refine ⟨rfl, fun h => ?_, fun h => ?_⟩
    · simp [marchYear, marchMonth, h]
    · simp only [marchYear, marchMonth]
      split <;> split <;> omega
  · refine ⟨rfl, fun h => absurd h (by omega), fun _ => ?_⟩
    simp only [marchYear, marchMonth]
    split <;> split <;> omega

/-- The next day has the next number. -/
theorem toDays_next {date : Date} (h : date.isValid = true) :
    date.next.toDays = date.toDays + 1 := by
  obtain ⟨hmonth, hday⟩ := isValid_iff.1 h
  rw [toDays_eq, toDays_eq]
  by_cases hlast : date.day < daysInMonth date.year date.month
  · -- the next day of the month
    simp only [next, if_pos hlast, dayOfYear, marchYear, marchMonth]
    omega
  · have hend : date.day = daysInMonth date.year date.month := by omega
    obtain ⟨hfirst, hfebruary, hother⟩ := next_monthEnd hmonth hend
    by_cases hmonth2 : date.month = 2
    · -- the end of February, and with it of the year that starts in March
      obtain ⟨hyear, hmarch⟩ := hfebruary hmonth2
      have hlength := daysInMonth_february date.year
      have hstart := yearStart_succ date.marchYear
      have hyear' : date.marchYear = date.year - 1 := by simp [marchYear, hmonth2]
      have hmonth' : date.marchMonth = 11 := by simp [marchMonth, hmonth2]
      rw [← hmonth2, ← hend, ← hyear'] at hlength
      simp only [dayOfYear, hyear, hmarch, hfirst, hmonth']
      omega
    · obtain ⟨hyear, hmarch⟩ := hother hmonth2
      have hlength := daysInMonth_eq hmonth hmonth2
      rw [← hend] at hlength
      simp only [dayOfYear, hyear, hmarch, hfirst]
      omega

/-! ## Dates from day numbers -/

/-- The day is one of a year that starts in March. -/
def InYear (year dayOfYear : Int) : Prop := 0 ≤ dayOfYear ∧ dayOfYear < 365 + leapDay year

theorem leapDay_le_one (year : Int) : leapDay year ≤ 1 := by
  unfold leapDay
  split <;> decide

theorem inYear_dayOfYear {date : Date} (h : date.isValid = true) :
    InYear date.marchYear date.dayOfYear := by
  obtain ⟨hmonth, hday⟩ := isValid_iff.1 h
  unfold InYear dayOfYear
  by_cases hfebruary : date.month = 2
  · have hlength := daysInMonth_february date.year
    have hmonth' : date.marchMonth = 11 := by simp [marchMonth, hfebruary]
    have hyear : date.marchYear = date.year - 1 := by simp [marchYear, hfebruary]
    rw [← hfebruary, ← hyear] at hlength
    rw [hmonth']
    omega
  · have hlength := daysInMonth_eq hmonth hfebruary
    have hlow : 0 ≤ date.marchMonth := by unfold marchMonth; split <;> omega
    have hhigh : date.marchMonth ≤ 10 := by unfold marchMonth; split <;> omega
    have hleap : 0 ≤ leapDay date.marchYear := by unfold leapDay; split <;> decide
    omega

/-- The date of a day of a year that starts in March. -/
def ofMarch (year dayOfYear : Int) : Date :=
  let month := (5 * dayOfYear + 2) / 153
  let day := dayOfYear - (153 * month + 2) / 5 + 1
  if month < 10 then { year, month := (month + 3).toNat, day := day.toNat }
  else { year := year + 1, month := (month - 9).toNat, day := day.toNat }

theorem ofMarch_dayOfYear {date : Date} (h : date.isValid = true) :
    ofMarch date.marchYear date.dayOfYear = date := by
  obtain ⟨hmonth, hday⟩ := isValid_iff.1 h
  have hbounds : 0 ≤ date.marchMonth ∧ date.marchMonth ≤ 11 := by
    unfold marchMonth
    split <;> omega
  have hmarch : (5 * date.dayOfYear + 2) / 153 = date.marchMonth := by
    unfold dayOfYear
    by_cases hfebruary : date.month = 2
    · have hinside := (inYear_dayOfYear h).2
      have hmonth' : date.marchMonth = 11 := by simp [marchMonth, hfebruary]
      have hleap := leapDay_le_one date.marchYear
      simp only [dayOfYear, hmonth'] at hinside ⊢
      omega
    · have hlength := daysInMonth_eq hmonth hfebruary
      omega
  have hday' : date.dayOfYear - (153 * date.marchMonth + 2) / 5 + 1 = date.day := by
    unfold dayOfYear
    omega
  simp only [ofMarch, hmarch, hday', Int.toNat_natCast]
  by_cases hearly : date.month ≤ 2
  · have hmonth' : date.marchMonth = date.month + 9 := if_pos hearly
    have hyear : date.marchYear = date.year - 1 := if_pos hearly
    rw [if_neg (by omega), hmonth', hyear]
    simp
  · have hmonth' : date.marchMonth = date.month - 3 := if_neg hearly
    have hyear : date.marchYear = date.year := if_neg hearly
    rw [if_pos (by omega), hmonth', hyear]
    simp

/-- The year by its period of 400 years, its century in that, its cycle of four years in the
century, and its place in the cycle. -/
structure Placed (year period century cycle place : Int) : Prop where
  eq      : year = 400 * period + (100 * century + 4 * cycle + place)
  century : 0 ≤ century ∧ century ≤ 3
  cycle   : 0 ≤ cycle ∧ cycle ≤ 24
  place   : 0 ≤ place ∧ place ≤ 3

theorem placed (year : Int) :
    Placed year (year / 400) (year % 400 / 100) (year % 100 / 4) (year % 4) := by
  constructor <;> omega

namespace Placed

variable {year period century cycle place day n : Int}

theorem yearStart_eq (h : Placed year period century cycle place) :
    yearStart year = 146097 * period + (36524 * century + 1461 * cycle + 365 * place) := by
  obtain ⟨rfl, hcentury, hcycle, hplace⟩ := h
  unfold yearStart
  omega

/-- Only the last year of a cycle has a leap day, and of a century only if it is the last one. -/
theorem of_leapDay (h : Placed year period century cycle place) (hday : InYear year 365) :
    place = 3 ∧ (cycle = 24 → century = 3) := by
  have hleap := isLeapYear_iff (year + 1)
  obtain ⟨heq, hcentury, hcycle, hplace⟩ := h
  obtain ⟨-, hinside⟩ := hday
  unfold leapDay at hinside
  split at hinside
  · rename_i hextra
    rw [hleap] at hextra
    omega
  · omega

/-- The place of the year can be told from the number of a day of it within the period. -/
theorem yearOfPeriod_eq (h : Placed year period century cycle place) (hday : InYear year day)
    (hn : n = 36524 * century + 1461 * cycle + 365 * place + day) :
    (n - n / 1460 + n / 36524 - n / 146096) / 365 = 100 * century + 4 * cycle + place := by
  have hlength : 0 ≤ day ∧ day ≤ 365 := by
    have hextra := leapDay_le_one year
    unfold InYear at hday
    omega
  have hleap : day = 365 → place = 3 ∧ (cycle = 24 → century = 3) := by
    rintro rfl
    exact h.of_leapDay hday
  obtain ⟨-, hcentury, hcycle, hplace⟩ := h
  have hcycles : n / 1460 = 25 * century + cycle +
      (24 * century + cycle + 365 * place + day) / 1460 := by
    omega
  -- a leap day that this quotient counts too early is made up for by the day itself
  have hrest : 0 ≤ day - (24 * century + cycle + 365 * place + day) / 1460 ∧
      day - (24 * century + cycle + 365 * place + day) / 1460 < 365 := by
    omega
  have hcenturies : n / 36524 - n / 146096 = century := by
    by_cases hlast : n = 146096
    · omega
    · have hperiod : n / 146096 = 0 := by omega
      have hquotient : n / 36524 = century := by omega
      omega
  generalize n / 1460 = cycles, n / 36524 = centuries, n / 146096 = periods,
    (24 * century + cycle + 365 * place + day) / 1460 = early at *
  omega

/-- The number of a day within the period is less than the number of days in the period. -/
theorem dayOfPeriod_lt (h : Placed year period century cycle place) (hday : InYear year day) :
    36524 * century + 1461 * cycle + 365 * place + day < periodDays := by
  have hextra := leapDay_le_one year
  obtain ⟨-, hcentury, hcycle, hplace⟩ := h
  unfold InYear at hday
  unfold periodDays
  omega

end Placed

/-- The day number is split into the year and the day of it. -/
theorem ofDays_eq {year day : Int} (h : InYear year day) :
    ofDays (yearStart year + day - epochShift) = ofMarch year day := by
  have hplaced := placed year
  generalize year / 400 = period, year % 400 / 100 = century, year % 100 / 4 = cycle,
    year % 4 = place at hplaced
  obtain ⟨n, hn⟩ : ∃ n, n = 36524 * century + 1461 * cycle + 365 * place + day := ⟨_, rfl⟩
  have hlow : 0 ≤ n := by
    obtain ⟨-, hcentury, hcycle, hplace⟩ := hplaced
    unfold InYear at h
    omega
  have hhigh : n < periodDays := hn ▸ hplaced.dayOfPeriod_lt h
  have hshifted : yearStart year + day - epochShift + epochShift = n + periodDays * period := by
    rw [hplaced.yearStart_eq, periodDays]
    omega
  have hperiod : (n + periodDays * period) / periodDays = period := by
    unfold periodDays at hhigh ⊢
    omega
  have hdayOfPeriod : (n + periodDays * period) % periodDays = n := by
    unfold periodDays at hhigh ⊢
    omega
  have hyear := hplaced.yearOfPeriod_eq h hn
  obtain ⟨heq, hcentury, hcycle, hplace⟩ := hplaced
  have hday : n - (365 * (100 * century + 4 * cycle + place) +
      (100 * century + 4 * cycle + place) / 4 - (100 * century + 4 * cycle + place) / 100) =
      day := by
    have hcycles : (100 * century + 4 * cycle + place) / 4 = 25 * century + cycle := by omega
    have hcenturies : (100 * century + 4 * cycle + place) / 100 = century := by omega
    rw [hcycles, hcenturies]
    omega
  have hback : 100 * century + 4 * cycle + place + period * 400 = year := by omega
  simp only [ofDays, hshifted, hperiod, hdayOfPeriod, hyear, hday, hback]
  rfl

/-- The date can be told from the day number. -/
theorem ofDays_toDays {date : Date} (h : date.isValid = true) : ofDays date.toDays = date := by
  rw [toDays_eq, ofDays_eq (inYear_dayOfYear h), ofMarch_dayOfYear h]

/-- The days from some day on have dates. -/
theorem exists_toDays_eq_add {first : Date} (h : first.isValid = true) (n : Nat) :
    ∃ date : Date, date.isValid = true ∧ date.toDays = first.toDays + n := by
  induction n with
  | zero => exact ⟨first, h, by simp⟩
  | succ n ih =>
    obtain ⟨date, hvalid, hdays⟩ := ih
    refine ⟨date.next, isValid_next hvalid, ?_⟩
    rw [toDays_next hvalid, hdays]
    omega

/-- Every day has a date. -/
theorem exists_toDays_eq (day : Int) : ∃ date : Date, date.isValid = true ∧ date.toDays = day := by
  -- a first of January so many periods back that the day lies behind it
  have hfirst : (Date.mk (1970 - 400 * day.natAbs) 1 1).toDays = -146097 * day.natAbs := by
    simp only [toDays_eq, yearStart, marchYear, dayOfYear, marchMonth, epochShift]
    omega
  have hvalid : (Date.mk (1970 - 400 * day.natAbs) 1 1).isValid = true := rfl
  obtain ⟨date, hvalid, hdays⟩ :=
    exists_toDays_eq_add hvalid (day + 146097 * day.natAbs).toNat
  exact ⟨date, hvalid, by omega⟩

theorem isValid_ofDays (day : Int) : (ofDays day).isValid = true := by
  obtain ⟨date, hvalid, rfl⟩ := exists_toDays_eq day
  rwa [ofDays_toDays hvalid]

theorem day_ofDays_le (day : Int) : (ofDays day).day ≤ 31 :=
  Nat.le_trans (isValid_iff.1 (isValid_ofDays day)).2.2 (daysInMonth_bounds _ _).2

theorem toDays_ofDays (day : Int) : (ofDays day).toDays = day := by
  obtain ⟨date, hvalid, rfl⟩ := exists_toDays_eq day
  rw [ofDays_toDays hvalid]

theorem next_ofDays (day : Int) : (ofDays day).next = ofDays (day + 1) := by
  have hvalid := isValid_ofDays day
  rw [← ofDays_toDays (isValid_next hvalid), toDays_next hvalid, toDays_ofDays]

/-- The count of days agrees with the arithmetic. -/
theorem isDay_iff {day : Int} {date : Date} : IsDay day date ↔ date = ofDays day := by
  constructor
  · intro h
    induction h with
    | epoch => decide
    | next h ih => rw [ih, next_ofDays]
    | @previous day date hvalid h ih =>
      have hdays := toDays_next hvalid
      rw [ih, toDays_ofDays] at hdays
      have hday : day = date.toDays := by omega
      rw [hday, ofDays_toDays hvalid]
  · rintro rfl
    induction day using Int.induction_on with
    | zero => exact .epoch
    | succ n ih => exact next_ofDays n ▸ ih.next
    | pred n ih =>
      refine .previous (isValid_ofDays _) ?_
      rw [next_ofDays, Int.sub_add_cancel]
      exact ih

/-! ## The order of dates -/

/-- The date comes earlier in the calendar. -/
def Before (date other : Date) : Prop :=
  date.year < other.year ∨ date.year = other.year ∧
    (date.month < other.month ∨ date.month = other.month ∧ date.day < other.day)

theorem Before.trans {a b c : Date} (hab : a.Before b) (hbc : b.Before c) : a.Before c := by
  unfold Before at *
  omega

theorem before_next (date : Date) : date.Before date.next := by
  unfold Before next
  split
  · exact .inr ⟨rfl, .inr ⟨rfl, Nat.lt_succ_self _⟩⟩
  · split
    · exact .inr ⟨rfl, .inl (Nat.lt_succ_self _)⟩
    · exact .inl (Int.lt_succ _)

/-- Earlier days have earlier dates. -/
theorem before_of_lt {day other : Int} (h : day < other) : (ofDays day).Before (ofDays other) := by
  obtain ⟨n, rfl⟩ : ∃ n : Nat, other = day + 1 + n := ⟨(other - day - 1).toNat, by omega⟩
  clear h
  induction n with
  | zero => simpa [next_ofDays] using before_next (ofDays day)
  | succ n ih =>
    have hnext := before_next (ofDays (day + 1 + n))
    rw [next_ofDays, Int.add_assoc (day + 1)] at hnext
    exact ih.trans hnext

end Phrasebook.Date
