-- SUMMARY: The creation date of a catalog denotes its minute, and later dates are later texts.
import Mathlib.Data.List.Forall2
import Phrasebook.Calendar.Timestamp
import Phrasebook.Catalog.Document
import Phrasebook.Proofs.Calendar.Days
import Phrasebook.Proofs.Text.Padding

/-!
# Creation dates

A creation date is the text of a `Stamp`, a date and a time of day in UTC. While its year has four
digits every part of it has a fixed width, so the date can be read back (`Stamp.read?_chars`), and
stamps that come later have texts that come later (`Stamp.chars_lt_chars`). What a stamp denotes is
said with the count of days alone, and it is the minute that the stamp was made in
(`Stamp.denotes_ofSeconds`).
-/
namespace Phrasebook

/-! ## Stamps -/

/-- A date and a time of day in UTC, to the minute. -/
structure Stamp where
  date   : Date
  hour   : Nat
  minute : Nat
deriving DecidableEq, Repr

namespace Stamp

/-- A pattern has the letter `d` for a digit, and any other character for itself. -/
def Allows (p c : Char) : Prop := if p = 'd' then c.isDigit = true else c = p

/-- The text has the shape of a pattern. -/
def HasShape (pattern text : String) : Prop :=
  List.Forall₂ Allows pattern.toList text.toList

/-- The offset from UTC that ends every creation date. -/
def zone : List Char := ['+', '0', '0', '0', '0']

/-- Read `YYYY-MM-DD HH:MM+0000`. -/
def read? (text : String) : Option Stamp := do
  let (year, cs) ← Moment.digits? 4 text.toList
  let cs ← Moment.expect? '-' cs
  let (month, cs) ← Moment.digits? 2 cs
  let cs ← Moment.expect? '-' cs
  let (day, cs) ← Moment.digits? 2 cs
  let cs ← Moment.expect? ' ' cs
  let (hour, cs) ← Moment.digits? 2 cs
  let cs ← Moment.expect? ':' cs
  let (minute, cs) ← Moment.digits? 2 cs
  if cs = zone then some ⟨⟨year, month, day⟩, hour, minute⟩ else none

/-- The stamp is of the minute that begins at the second, with its day counted in the calendar. -/
def Denotes (stamp : Stamp) (seconds : Int) : Prop :=
  stamp.hour < 24 ∧ stamp.minute < 60 ∧
    ∃ day, Date.IsDay day stamp.date ∧ seconds = day * 86400 + stamp.hour * 3600 + stamp.minute * 60

/-- The stamp comes earlier. -/
def Before (stamp other : Stamp) : Prop :=
  stamp.date.Before other.date ∨ stamp.date = other.date ∧
    (stamp.hour < other.hour ∨ stamp.hour = other.hour ∧ stamp.minute < other.minute)

/-! ## The stamp of a second -/

def ofSeconds (seconds : Int) : Stamp where
  date   := Date.ofDays (seconds / 86400)
  hour   := (seconds % 86400 / 60).toNat / 60
  minute := (seconds % 86400 / 60).toNat % 60

theorem hour_ofSeconds_lt (seconds : Int) : (ofSeconds seconds).hour < 24 := by
  simp only [ofSeconds]
  omega

theorem minute_ofSeconds_lt (seconds : Int) : (ofSeconds seconds).minute < 60 :=
  Nat.mod_lt _ (by decide)

theorem denotes_ofSeconds {seconds instant : Int} :
    (ofSeconds seconds).Denotes instant ↔ instant = seconds / 60 * 60 := by
  have hminute : seconds / 60 * 60 = seconds / 86400 * 86400 +
      (ofSeconds seconds).hour * 3600 + (ofSeconds seconds).minute * 60 := by
    simp only [ofSeconds]
    omega
  rw [hminute]
  constructor
  · rintro ⟨-, -, day, hday, rfl⟩
    have hsame : seconds / 86400 = day := by
      rw [← Date.toDays_ofDays (seconds / 86400), ← Date.toDays_ofDays day, ← Date.isDay_iff.1 hday]
      rfl
    rw [hsame]
  · rintro rfl
    exact ⟨hour_ofSeconds_lt seconds, minute_ofSeconds_lt seconds, _, Date.isDay_iff.2 rfl, rfl⟩

theorem ofSeconds_congr {seconds other : Int} (h : seconds / 60 = other / 60) :
    ofSeconds seconds = ofSeconds other := by
  have hday : seconds / 86400 = other / 86400 := by omega
  have hminute : seconds % 86400 / 60 = other % 86400 / 60 := by omega
  rw [ofSeconds, hday, hminute]
  rfl

theorem before_ofSeconds {seconds other : Int} (h : seconds / 60 < other / 60) :
    (ofSeconds seconds).Before (ofSeconds other) := by
  by_cases hday : seconds / 86400 < other / 86400
  · exact .inl (Date.before_of_lt hday)
  · have hsame : seconds / 86400 = other / 86400 := by omega
    refine .inr ⟨congrArg Date.ofDays hsame, ?_⟩
    simp only [ofSeconds]
    omega

/-! ## Stamps of a fixed width -/

/-- Every part of the stamp fits into its width. -/
structure Fits (stamp : Stamp) : Prop where
  year_nonneg : 0 ≤ stamp.date.year
  year_lt     : stamp.date.year.natAbs < 10 ^ 4
  month_lt    : stamp.date.month < 10 ^ 2
  day_lt      : stamp.date.day < 10 ^ 2
  hour_lt     : stamp.hour < 10 ^ 2
  minute_lt   : stamp.minute < 10 ^ 2

theorem fits_ofSeconds {seconds : Int} (hlow : 0 ≤ (ofSeconds seconds).date.year)
    (hhigh : (ofSeconds seconds).date.year ≤ 9999) : (ofSeconds seconds).Fits where
  year_nonneg := hlow
  year_lt     := by omega
  month_lt    := (Date.isValid_iff.1 (Date.isValid_ofDays _)).1.2.trans_lt (by decide)
  day_lt      := (Date.day_ofDays_le _).trans_lt (by decide)
  hour_lt     := (hour_ofSeconds_lt seconds).trans (by decide)
  minute_lt   := (minute_ofSeconds_lt seconds).trans (by decide)

open Text.Numeral (padded)

/-- The text of a stamp whose year is not negative. -/
def chars (stamp : Stamp) : List Char :=
  (padded 4 stamp.date.year.natAbs).toList ++ '-' :: ((padded 2 stamp.date.month).toList ++
    '-' :: ((padded 2 stamp.date.day).toList ++ ' ' :: ((padded 2 stamp.hour).toList ++
      ':' :: ((padded 2 stamp.minute).toList ++ zone))))

theorem toList_display {seconds : Int} (h : 0 ≤ (ofSeconds seconds).date.year) :
    (Moment.display seconds).toList = (ofSeconds seconds).chars := by
  have hyear : ¬ (Date.ofDays (seconds / 86400)).year < 0 := Int.not_lt.2 h
  simp [Moment.display, chars, zone, ofSeconds, Text.Numeral.paddedInt, hyear]

/-! ## Reading -/

theorem digits?_padded {width n : Nat} (hwidth : 0 < width) (h : n < 10 ^ width)
    (rest : List Char) :
    Moment.digits? width ((padded width n).toList ++ rest) = some (n, rest) := by
  have hlength := Text.Numeral.length_padded hwidth h
  have hne : (padded width n).toList ≠ [] :=
    List.ne_nil_of_length_pos (hwidth.trans_eq hlength.symm)
  have hnumeral : Text.Numeral.isNumeral (padded width n).toList = true :=
    Text.Numeral.isNumeral_iff.2 ⟨hne, fun _ => Text.Numeral.isDigit_of_mem_padded⟩
  have htake : ((padded width n).toList ++ rest).take width = (padded width n).toList :=
    List.take_left' hlength
  have hdrop : ((padded width n).toList ++ rest).drop width = rest := List.drop_left' hlength
  rw [Moment.digits?, htake, hdrop, if_pos hlength, Text.Numeral.read?, if_pos hnumeral,
    Text.Numeral.value_padded]
  rfl

theorem expect?_cons (c : Char) (cs : List Char) : Moment.expect? c (c :: cs) = some cs :=
  if_pos rfl

/-- The text of a stamp is read back as the stamp. -/
theorem read?_chars {stamp : Stamp} (h : stamp.Fits) {text : String}
    (htext : text.toList = stamp.chars) : read? text = some stamp := by
  have hyear := digits?_padded (by decide) h.year_lt
  have hmonth := digits?_padded (by decide) h.month_lt
  have hday := digits?_padded (by decide) h.day_lt
  have hhour := digits?_padded (by decide) h.hour_lt
  have hminute := digits?_padded (by decide) h.minute_lt
  simp only [read?, htext, chars, hyear, hmonth, hday, hhour, hminute, expect?_cons,
    Option.bind_eq_bind, Option.bind_some, if_true, Int.natAbs_of_nonneg h.year_nonneg]

/-! ## Shape -/

theorem allows_self {c : Char} (h : c ≠ 'd') : Allows c c := (if_neg h).mpr rfl

theorem allows_of_isDigit {cs : List Char} (h : ∀ c ∈ cs, c.isDigit = true) :
    List.Forall₂ Allows (List.replicate cs.length 'd') cs := by
  induction cs with
  | nil => exact .nil
  | cons c cs ih =>
    obtain ⟨hc, hcs⟩ := List.forall_mem_cons.1 h
    exact .cons ((if_pos rfl).mpr hc) (ih hcs)

theorem allows_padded {width n : Nat} (hwidth : 0 < width) (h : n < 10 ^ width) :
    List.Forall₂ Allows (List.replicate width 'd') (padded width n).toList := by
  have hdigits : ∀ c ∈ (padded width n).toList, c.isDigit = true :=
    fun _ => Text.Numeral.isDigit_of_mem_padded
  have hallows := allows_of_isDigit hdigits
  rwa [Text.Numeral.length_padded hwidth h] at hallows

theorem hasShape_chars {stamp : Stamp} (h : stamp.Fits) {text : String}
    (htext : text.toList = stamp.chars) : HasShape "dddd-dd-dd dd:dd+0000" text := by
  have hpattern : "dddd-dd-dd dd:dd+0000".toList = List.replicate 4 'd' ++ '-' ::
      (List.replicate 2 'd' ++ '-' :: (List.replicate 2 'd' ++ ' ' :: (List.replicate 2 'd' ++
        ':' :: (List.replicate 2 'd' ++ zone)))) := rfl
  have hzone : List.Forall₂ Allows zone zone :=
    List.forall₂_same.2 fun c hc => allows_self (by rintro rfl; exact absurd hc (by decide))
  rw [HasShape, hpattern, htext, chars]
  refine List.rel_append (allows_padded (by decide) h.year_lt) (.cons (allows_self (by decide)) ?_)
  refine List.rel_append (allows_padded (by decide) h.month_lt) (.cons (allows_self (by decide)) ?_)
  refine List.rel_append (allows_padded (by decide) h.day_lt) (.cons (allows_self (by decide)) ?_)
  refine List.rel_append (allows_padded (by decide) h.hour_lt) (.cons (allows_self (by decide)) ?_)
  exact List.rel_append (allows_padded (by decide) h.minute_lt) hzone

/-! ## Order -/

theorem padded_append_lt {width m n : Nat} {c : Char} {rest rest' : List Char} (hwidth : 0 < width)
    (hm : m < 10 ^ width) (hn : n < 10 ^ width) (h : m < n ∨ m = n ∧ rest < rest') :
    (padded width m).toList ++ c :: rest < (padded width n).toList ++ c :: rest' := by
  rcases h with hlt | ⟨rfl, hrest⟩
  · refine Text.append_lt_append ?_ (Text.Numeral.padded_lt_padded hwidth hlt hn) _ _
    rw [Text.Numeral.length_padded hwidth hm, Text.Numeral.length_padded hwidth hn]
  · exact List.append_left_lt (List.cons_lt_cons_iff.2 (.inr ⟨rfl, hrest⟩))

theorem chars_lt_chars {stamp other : Stamp} (h : stamp.Fits) (h' : other.Fits)
    (hbefore : stamp.Before other) : stamp.chars < other.chars := by
  have hparts : stamp.date.year.natAbs < other.date.year.natAbs ∨
      stamp.date.year.natAbs = other.date.year.natAbs ∧ (stamp.date.month < other.date.month ∨
        stamp.date.month = other.date.month ∧ (stamp.date.day < other.date.day ∨
          stamp.date.day = other.date.day ∧ (stamp.hour < other.hour ∨
            stamp.hour = other.hour ∧ stamp.minute < other.minute))) := by
    have hnonneg := h.year_nonneg
    rcases hbefore with hdate | ⟨hdate, htime⟩
    · unfold Date.Before at hdate
      omega
    · rw [hdate]
      omega
  refine padded_append_lt (by decide) h.year_lt h'.year_lt
    (hparts.imp_right (.imp_right fun hparts => ?_))
  refine padded_append_lt (by decide) h.month_lt h'.month_lt
    (hparts.imp_right (.imp_right fun hparts => ?_))
  refine padded_append_lt (by decide) h.day_lt h'.day_lt
    (hparts.imp_right (.imp_right fun hparts => ?_))
  refine padded_append_lt (by decide) h.hour_lt h'.hour_lt
    (hparts.imp_right (.imp_right fun hparts => ?_))
  exact padded_append_lt (by decide) h.minute_lt h'.minute_lt (.inl hparts)

end Stamp

/-! ## Creation dates -/

namespace Moment

/-- The year of the second in UTC is written with four digits and no sign. -/
def FourDigitYear (seconds : Int) : Prop :=
  ∃ date, Date.IsDay (seconds / 86400) date ∧ 0 ≤ date.year ∧ date.year ≤ 9999

variable {seconds other : Int}

theorem FourDigitYear.fits (h : FourDigitYear seconds) : (Stamp.ofSeconds seconds).Fits := by
  obtain ⟨date, hdate, hlow, hhigh⟩ := h
  obtain rfl := Date.isDay_iff.1 hdate
  exact Stamp.fits_ofSeconds hlow hhigh

theorem FourDigitYear.toList_display (h : FourDigitYear seconds) :
    (display seconds).toList = (Stamp.ofSeconds seconds).chars :=
  Stamp.toList_display h.fits.year_nonneg

/-- Years of four digits lie within the limits of moments. -/
theorem FourDigitYear.inRange (h : FourDigitYear seconds) : inRange seconds = true := by
  obtain ⟨date, hdate, hlow, hhigh⟩ := h
  obtain rfl := Date.isDay_iff.1 hdate
  obtain ⟨hmonth, hday⟩ := Date.isValid_iff.1 (Date.isValid_ofDays (seconds / 86400))
  have hlength := Date.day_ofDays_le (seconds / 86400)
  have hfirst : -719528 ≤ seconds / 86400 := by
    by_contra hearlier
    have hbefore := Date.before_of_lt (Int.not_le.1 hearlier)
    simp only [Date.Before, show Date.ofDays (-719528) = ⟨0, 1, 1⟩ by decide] at hbefore
    omega
  have hlast : seconds / 86400 ≤ 2932896 := by
    by_contra hlater
    have hbefore := Date.before_of_lt (Int.not_le.1 hlater)
    simp only [Date.Before, show Date.ofDays 2932896 = ⟨9999, 12, 31⟩ by decide] at hbefore
    omega
  have hlimits : earliest ≤ seconds ∧ seconds ≤ latest := by
    unfold earliest latest
    omega
  simpa [Moment.inRange] using hlimits

theorem display_lt_display (h : FourDigitYear seconds) (h' : FourDigitYear other)
    (hlt : seconds / 60 < other / 60) : display seconds < display other := by
  change (display seconds).toList < (display other).toList
  rw [h.toList_display, h'.toList_display]
  exact Stamp.chars_lt_chars h.fits h'.fits (Stamp.before_ofSeconds hlt)

theorem display_lt_display_iff (h : FourDigitYear seconds) (h' : FourDigitYear other) :
    display seconds < display other ↔ seconds / 60 < other / 60 := by
  refine ⟨fun hlt => ?_, display_lt_display h h'⟩
  rcases lt_trichotomy (seconds / 60) (other / 60) with hminute | hminute | hminute
  · exact hminute
  · have hsame : display seconds = display other := by
      rw [← String.toList_inj, h.toList_display, h'.toList_display, Stamp.ofSeconds_congr hminute]
    rw [hsame] at hlt
    exact absurd hlt (String.lt_irrefl _)
  · exact absurd hlt (String.lt_asymm (display_lt_display h' h hminute))

end Moment

open Moment (FourDigitYear)

/-- All clocks give an instant the same creation date. It has a fixed shape, and read back it denotes
the minute of the instant; so creation dates are in order as texts where the minutes are. -/
theorem Header.creationDate_denotes {seconds : Int} (hyear : FourDigitYear seconds) :
    ∃ header : Header,
      (∀ moment : Moment, moment.toUnix = seconds → Header.ofMoment? moment = some header) ∧
      Stamp.HasShape "dddd-dd-dd dd:dd+0000" header.creationDate ∧
      (∃ stamp, Stamp.read? header.creationDate = some stamp ∧
        ∀ instant, stamp.Denotes instant ↔ instant = seconds / 60 * 60) ∧
      ∀ (moment : Moment) (other : Header), FourDigitYear moment.toUnix →
        Header.ofMoment? moment = some other →
        (header.creationDate < other.creationDate ↔ seconds / 60 < moment.toUnix / 60) := by
  have hheader {moment : Moment} (hmoment : FourDigitYear moment.toUnix) :
      Header.ofMoment? moment = some (.stamped (Moment.display moment.toUnix)) := by
    rw [Header.ofMoment?, Moment.creationDate?, if_pos hmoment.inRange]
    rfl
  refine ⟨.stamped (Moment.display seconds), ?_, ?_, ?_, ?_⟩
  · rintro moment rfl
    exact hheader hyear
  · exact Stamp.hasShape_chars hyear.fits hyear.toList_display
  · exact ⟨_, Stamp.read?_chars hyear.fits hyear.toList_display, fun _ => Stamp.denotes_ofSeconds⟩
  · intro moment other hmoment hother
    rw [hheader hmoment] at hother
    obtain rfl := Option.some.inj hother
    exact Moment.display_lt_display_iff hyear hmoment

/-- The second before 1970-01-01, on a clock two hours ahead of UTC. -/
theorem Header.creationDate_denotes_lastMinute1969 :
    FourDigitYear (-1) ∧ ∃ header : Header,
      Header.ofMoment? { wall := 7199, offset := 7200 } = some header ∧
      header.creationDate = "1969-12-31 23:59+0000" ∧
      ∃ stamp, Stamp.read? header.creationDate = some stamp ∧
        ∀ instant, stamp.Denotes instant ↔ instant = -60 := by
  have hyear : FourDigitYear (-1) :=
    ⟨⟨1969, 12, 31⟩, .previous rfl .epoch, by decide, by decide⟩
  have hheader : Header.ofMoment? { wall := 7199, offset := 7200 } =
      some (.stamped "1969-12-31 23:59+0000") := by decide +kernel
  obtain ⟨header, hclocks, -, hread, -⟩ := Header.creationDate_denotes hyear
  have hclock := hclocks { wall := 7199, offset := 7200 } rfl
  obtain rfl := Option.some.inj (hheader.symm.trans hclock)
  exact ⟨hyear, _, hclock, rfl, hread⟩

end Phrasebook
