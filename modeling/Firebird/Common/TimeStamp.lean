import Firebird.Library.Gregorian
import Mathlib.Tactic.Linarith

/-!
# Day numbers and times

`NoThrowTimeStamp`: the conversion of a day number to a calendar date and back, and of a time to hours,
minutes, seconds and fractions and back.  Divisions of `int` truncate; in the supported range no value
leaves 32 bits.
-/

namespace Firebird
namespace TimeStamp

/-- `struct tm`; the fields that are not set are zero. -/
structure Tm where
  tm_sec : Int := 0
  tm_min : Int := 0
  tm_hour : Int := 0
  tm_mday : Int
  tm_mon : Int
  tm_year : Int
  tm_wday : Int
  tm_yday : Int
  deriving DecidableEq, Repr

/-- `MIN_DATE`, the first of January of the year 1. -/
def minDate : Int := -678575

/-- `MAX_DATE`, the last of December of the year 9999. -/
def maxDate : Int := 2973483

/-- `isValidDate`. -/
def isValidDate (ndate : Int) : Prop := minDate ≤ ndate ∧ ndate ≤ maxDate

instance (ndate : Int) : Decidable (isValidDate ndate) := inferInstanceAs (Decidable (_ ∧ _))

/-- `ISC_TIME_SECONDS_PRECISION`. -/
def secondsPrecision : Nat := 10000

/-- `isValidTime`. -/
def isValidTime (ntime : Nat) : Prop := ntime < 24 * 3600 * secondsPrecision

instance (ntime : Nat) : Decidable (isValidTime ntime) := inferInstanceAs (Decidable (_ < _))

/-- `yday`, the number of the day in its year, from 0 on. -/
def yday (tm_mday tm_mon tm_year : Int) : Int :=
  let year := tm_year + 1900
  let day := tm_mday - 1
  let day := day + (214 * tm_mon + 3).tdiv 7
  if tm_mon < 2 then day
  else if year.tmod 4 = 0 ∧ year.tmod 100 ≠ 0 ∨ year.tmod 400 = 0 then day - 1
  else day - 2

/-- `decode_date`. -/
def decode_date (nday : Int) : Tm :=
  let wday := (nday + 3).tmod 7
  let tm_wday := if wday < 0 then wday + 7 else wday
  let nday := nday + (2400001 - 1721119)
  let century := (4 * nday - 1).tdiv 146097
  let nday := 4 * nday - 1 - 146097 * century
  let day := nday.tdiv 4
  let nday := (4 * day + 3).tdiv 1461
  let day := 4 * day + 3 - 1461 * nday
  let day := (day + 4).tdiv 4
  let month := (5 * day - 3).tdiv 153
  let day := 5 * day - 3 - 153 * month
  let day := (day + 5).tdiv 5
  let year := 100 * century + nday
  let (month, year) := if month < 10 then (month + 3, year) else (month - 9, year + 1)
  { tm_mday := day
    tm_mon := month - 1
    tm_year := year - 1900
    tm_wday := tm_wday
    tm_yday := yday day (month - 1) (year - 1900) }

/-- `encode_date`. -/
def encode_date (times : Tm) : Int :=
  let day := times.tm_mday
  let month := times.tm_mon + 1
  let year := times.tm_year + 1900
  let (month, year) := if month > 2 then (month - 3, year) else (month + 9, year - 1)
  let c := year.tdiv 100
  let ya := year - 100 * c
  (146097 * c).tdiv 4 + (1461 * ya).tdiv 4 + (153 * month + 2).tdiv 5 + day + 1721119 - 2400001

/-- What `decode_time` stores. -/
structure Clock where
  hours : Nat
  minutes : Nat
  seconds : Nat
  fractions : Nat
  deriving DecidableEq, Repr

/-- `decode_time`. -/
def decode_time (ntime : Nat) : Clock :=
  let hours := ntime / (3600 * secondsPrecision)
  let ntime := ntime % (3600 * secondsPrecision)
  let minutes := ntime / (60 * secondsPrecision)
  let ntime := ntime % (60 * secondsPrecision)
  { hours, minutes, seconds := ntime / secondsPrecision, fractions := ntime % secondsPrecision }

/-- `encode_time`. -/
def encode_time (clock : Clock) : Nat :=
  ((clock.hours * 60 + clock.minutes) * 60 + clock.seconds) * secondsPrecision + clock.fractions

/-! ## Dates -/

/-- The century and the day of it, for a day number counted from the first of March of the year 0. -/
theorem century_eq {nday : Nat} :
    ∃ century day, (4 * nday + 3) / 146097 = century ∧ (4 * nday + 3 - 146097 * century) / 4 = day ∧
      nday = 146097 * century / 4 + day ∧ day ≤ 36524 ∧ (day = 36524 → century % 4 = 3) := by
  have quotient := Nat.div_add_mod (4 * nday + 3) 146097
  have remainder := Nat.mod_lt (4 * nday + 3) (show 0 < 146097 by decide)
  generalize (4 * nday + 3) / 146097 = century at quotient
  generalize (4 * nday + 3) % 146097 = left at quotient remainder
  have left_eq : 4 * nday + 3 - 146097 * century = left := by omega
  refine ⟨century, left / 4, rfl, by rw [left_eq], ?_, ?_, fun last => ?_⟩
  · omega
  · omega
  · have exact_left : left = 146096 := by omega
    omega

/-- The year of a century and the day of it. -/
theorem year_eq {day : Nat} (inside : day ≤ 36524) :
    ∃ year rest, (4 * day + 3) / 1461 = year ∧ (4 * day + 3 - 1461 * year + 4) / 4 = rest + 1 ∧
      day = 1461 * year / 4 + rest ∧ year ≤ 99 ∧ rest ≤ 365 ∧ (rest = 365 → year % 4 = 3) ∧
      (year = 99 ∧ rest = 365 → day = 36524) := by
  have quotient := Nat.div_add_mod (4 * day + 3) 1461
  have remainder := Nat.mod_lt (4 * day + 3) (show 0 < 1461 by decide)
  generalize (4 * day + 3) / 1461 = year at quotient
  generalize (4 * day + 3) % 1461 = left at quotient remainder
  have left_eq : 4 * day + 3 - 1461 * year = left := by omega
  refine ⟨year, left / 4, rfl, ?_, ?_, ?_, ?_, fun last => ?_, fun last => ?_⟩
  · omega
  · omega
  · omega
  · omega
  · have exact_left : left = 1460 := by omega
    omega
  · have exact_left : left = 1460 := by omega
    omega

/-- The month of a year and the day of it. -/
theorem month_eq {rest : Nat} (inside : rest ≤ 365) :
    ∃ month day, (5 * (rest + 1) - 3) / 153 = month ∧ (5 * (rest + 1) - 3 - 153 * month + 5) / 5 = day ∧
      rest + 1 = (153 * month + 2) / 5 + day ∧ month ≤ 11 ∧ 1 ≤ day ∧ day ≤ 31 ∧
      (month = 1 ∨ month = 3 ∨ month = 6 ∨ month = 8 → day ≤ 30) := by
  have quotient := Nat.div_add_mod (5 * (rest + 1) - 3) 153
  have remainder := Nat.mod_lt (5 * (rest + 1) - 3) (show 0 < 153 by decide)
  generalize (5 * (rest + 1) - 3) / 153 = month at quotient
  generalize (5 * (rest + 1) - 3) % 153 = left at quotient remainder
  have left_eq : 5 * (rest + 1) - 3 - 153 * month = left := by omega
  have split : rest + 1 = (153 * month + 2) / 5 + (left + 5) / 5 := by omega
  refine ⟨month, (left + 5) / 5, rfl, by rw [left_eq], split, ?_, ?_, ?_, fun short => ?_⟩
  · omega
  · omega
  · omega
  · rcases short with rfl | rfl | rfl | rfl
    · omega
    · omega
    · omega
    · omega

/-- The parts of a day number, counted from the first of March of the year 0. -/
structure Split (nday century year month day : Nat) : Prop where
  nday_eq : nday + 1 = 146097 * century / 4 + 1461 * year / 4 + (153 * month + 2) / 5 + day
  year_le : year ≤ 99
  month_le : month ≤ 11
  day_pos : 1 ≤ day
  day_le : day ≤ 31
  /-- The last day of the year that begins in March. -/
  last : month = 11 → day ≤ 28 ∨ day = 29 ∧ year % 4 = 3 ∧ (year = 99 → century % 4 = 3)
  short : month = 1 ∨ month = 3 ∨ month = 6 ∨ month = 8 → day ≤ 30

/-- Every day number has its parts. -/
theorem split_exists (start : Nat) :
    ∃ century day_of_century year rest month day,
      (4 * start + 3) / 146097 = century ∧
      (4 * start + 3 - 146097 * century) / 4 = day_of_century ∧
      (4 * day_of_century + 3) / 1461 = year ∧
      (4 * day_of_century + 3 - 1461 * year + 4) / 4 = rest + 1 ∧
      (5 * (rest + 1) - 3) / 153 = month ∧
      (5 * (rest + 1) - 3 - 153 * month + 5) / 5 = day ∧
      Split start century year month day := by
  obtain ⟨century, day_of_century, century_eq, day_eq, start_split, day_le, century_last⟩ :=
    @century_eq start
  obtain ⟨year, rest, year_eq, rest_eq, day_split, year_le, rest_le, year_last, last⟩ :=
    year_eq day_le
  obtain ⟨month, day, month_eq, mday_eq, rest_split, month_le, day_pos, day_le', short⟩ :=
    month_eq rest_le
  refine ⟨century, day_of_century, year, rest, month, day, century_eq, day_eq, year_eq, rest_eq,
    month_eq, mday_eq, ?_, year_le, month_le, day_pos, day_le', fun february => ?_, short⟩
  · rw [start_split, day_split, Nat.add_assoc, Nat.add_assoc, rest_split, ← Nat.add_assoc,
      ← Nat.add_assoc]
  · subst february
    by_cases leap : rest = 365
    · have day_eq : day = 29 := by
        rw [leap] at rest_split
        exact (Nat.add_left_cancel (n := 337) rest_split).symm
      exact .inr ⟨day_eq, year_last leap, fun ninety_nine => century_last (last ⟨ninety_nine, leap⟩)⟩
    · refine .inl ?_
      have bound : 337 + day ≤ 365 := rest_split ▸ Nat.lt_of_le_of_ne rest_le leap
      exact Nat.le_of_add_le_add_left bound

theorem tdiv_of_eq {value divisor : Int} {dividend by_what : Nat} (value_eq : value = dividend)
    (divisor_eq : divisor = by_what) : value.tdiv divisor = (dividend / by_what : Nat) := by
  rw [value_eq, divisor_eq, Int.ofNat_tdiv]

/-- What `decode_date` makes of a day number. -/
theorem decode_date_eq {nday : Int} {start : Nat} (start_eq : nday + 678881 = start) :
    ∃ century year month day, Split start century year month day ∧
      ∃ mon full : Int,
        (if month < 10 then mon = month + 2 ∧ full = 100 * century + year - 1900
          else mon = month - 10 ∧ full = 100 * century + year + 1 - 1900) ∧
        decode_date nday =
          { tm_mday := day
            tm_mon := mon
            tm_year := full
            tm_wday := if (nday + 3).tmod 7 < 0 then (nday + 3).tmod 7 + 7 else (nday + 3).tmod 7
            tm_yday := yday day mon full } := by
  obtain ⟨century, day_of_century, year, rest, month, day, century_eq, day_eq, year_eq, rest_eq,
    month_eq, mday_eq, split⟩ := split_exists start
  refine ⟨century, year, month, day, split, ?_⟩
  have century_le : 146097 * century ≤ 4 * start + 3 := century_eq ▸ Nat.mul_div_le _ _
  have year_le : 1461 * year ≤ 4 * day_of_century + 3 := year_eq ▸ Nat.mul_div_le _ _
  have month_le : 153 * month ≤ 5 * (rest + 1) - 3 := month_eq ▸ Nat.mul_div_le _ _
  have century_int : (4 * (nday + 678882) - 1).tdiv 146097 = century := by
    rw [← century_eq]
    exact tdiv_of_eq (by push_cast; linarith) rfl
  have day_int : (4 * (nday + 678882) - 1 - 146097 * (century : Int)).tdiv 4 =
      day_of_century := by
    rw [← day_eq]
    exact tdiv_of_eq (by push_cast [Nat.cast_sub century_le]; linarith) rfl
  have year_int : (4 * (day_of_century : Int) + 3).tdiv 1461 = year := by
    rw [← year_eq]
    exact tdiv_of_eq (by push_cast; rfl) rfl
  have rest_int : (4 * (day_of_century : Int) + 3 - 1461 * year + 4).tdiv 4 = (rest + 1 : Nat) := by
    rw [← rest_eq]
    exact tdiv_of_eq (by push_cast [Nat.cast_sub year_le]; rfl) rfl
  have rest_le : 3 ≤ 5 * (rest + 1) := by omega
  have month_int : (5 * ((rest + 1 : Nat) : Int) - 3).tdiv 153 = month := by
    rw [← month_eq]
    exact tdiv_of_eq (by push_cast [Nat.cast_sub rest_le]; rfl) rfl
  have mday_int : (5 * ((rest + 1 : Nat) : Int) - 3 - 153 * month + 5).tdiv 5 = day := by
    rw [← mday_eq]
    exact tdiv_of_eq (by push_cast [Nat.cast_sub month_le, Nat.cast_sub rest_le]; rfl) rfl
  clear century_eq day_eq year_eq rest_eq month_eq mday_eq century_le year_le month_le rest_le split
  unfold decode_date
  extract_lets wday tm_wday shifted century' in_century day' year' in_year day_of_year month' in_month
    mday full
  have shifted_eq : shifted = nday + 678882 := rfl
  clear_value shifted
  subst shifted_eq
  have century_eq : century' = century := century_int
  clear_value century'
  subst century_eq
  have day_eq : day' = day_of_century := day_int
  clear_value day'
  subst day_eq
  have year_eq : year' = year := year_int
  clear_value year'
  subst year_eq
  have rest_eq : day_of_year = (rest + 1 : Nat) := rest_int
  clear_value day_of_year
  subst rest_eq
  have month_eq : month' = month := month_int
  clear_value month'
  subst month_eq
  have mday_eq : mday = day := mday_int
  clear_value mday
  subst mday_eq
  by_cases spring : month < 10
  · have spring_int : (month : Int) < 10 := by omega
    rw [if_pos spring_int]
    refine ⟨month + 3 - 1, 100 * century + year - 1900, ?_, rfl⟩
    rw [if_pos spring]
    exact ⟨by omega, rfl⟩
  · have spring_int : ¬(month : Int) < 10 := by omega
    rw [if_neg spring_int]
    refine ⟨month - 9 - 1, 100 * century + year + 1 - 1900, ?_, rfl⟩
    rw [if_neg spring]
    exact ⟨by omega, rfl⟩

/-- The days of the years up to a year of a century. -/
theorem yearsDays_century {century year : Nat} (inside : year ≤ 99) :
    Gregorian.yearsDays (100 * century + year) = 146097 * century / 4 + 1461 * year / 4 := by
  have closed := Gregorian.yearsDays_eq (100 * century + year)
  have hundreds : (100 * century + year) / 100 = century := by omega
  have fours : (100 * century + year) / 4 = 25 * century + year / 4 := by omega
  have four_hundreds : (100 * century + year) / 400 = century / 4 := by omega
  have centuries : 146097 * century / 4 = 36524 * century + century / 4 := by omega
  have years : 1461 * year / 4 = 365 * year + year / 4 := by omega
  omega

/-- The days of the months from March on. -/
theorem monthsDays_march (year : Nat) {month : Nat} (inside : month < 10) :
    Gregorian.monthsDays year (month + 2) + 306 =
      (153 * month + 2) / 5 + Gregorian.yearDays year := by
  have closed := @Gregorian.monthsDays_eq year (month + 2) (by omega)
  have march : (214 * (month + 2) + 3) / 7 = (153 * month + 2) / 5 + 61 := by
    interval_cases month <;> rfl
  rw [if_neg (Nat.not_lt.mpr (Nat.le_add_left _ _)), march] at closed
  rw [Gregorian.yearDays]
  split at closed
  · next leap =>
      rw [if_pos leap]
      omega
  · next common =>
      rw [if_neg common]
      omega

theorem Split.day_le_monthDays {start century year month day : Nat}
    (split : Split start century year month day) (spring : month < 10) (full : Nat) :
    day ≤ Gregorian.monthDays full (month + 3) := by
  have day_le := split.day_le
  have short := split.short
  interval_cases month
  all_goals simp [Gregorian.monthDays] at short ⊢
  all_goals omega

theorem Split.day_le_february {start century year day : Nat}
    (split : Split start century year 11 day) :
    day ≤ Gregorian.monthDays (100 * century + year + 1) 2 := by
  rw [Gregorian.monthDays]
  rcases split.last rfl with short | ⟨last, fourth, century_last⟩
  · split <;> omega
  · have year_le := split.year_le
    have leap : Gregorian.IsLeap (100 * century + year + 1) := by
      refine ⟨by omega, ?_⟩
      by_cases ninety_nine : year = 99
      · have fourth_century := century_last ninety_nine
        exact .inr (by omega)
      · exact .inl (by omega)
    rw [if_pos leap, last]

/-- Year, month and day of the calendar of the parts of a day number. -/
theorem Split.calendar {start century year month day : Nat} (split : Split start century year month day)
    (first : 306 ≤ start) :
    ∃ date : Gregorian.Date, date.ordinal + 305 = start ∧ date.day = day ∧
      date.month = (if month < 10 then month + 3 else month - 9) ∧
      date.year = (if month < 10 then 100 * century + year else 100 * century + year + 1) := by
  have nday_eq := split.nday_eq
  have years := @yearsDays_century century year split.year_le
  have day_le := split.day_le
  by_cases spring : month < 10
  · have year_pos : 0 < 100 * century + year := by
      by_contra zero
      have century_zero : century = 0 := by omega
      have year_zero : year = 0 := by omega
      subst century_zero year_zero
      omega
    refine ⟨⟨100 * century + year, month + 3, day, year_pos, Nat.succ_pos _, by omega, split.day_pos,
      split.day_le_monthDays spring _⟩, ?_, rfl, (if_pos spring).symm, (if_pos spring).symm⟩
    obtain ⟨before, full_eq⟩ := Nat.exists_eq_add_of_lt year_pos
    have months := monthsDays_march (100 * century + year) spring
    have last : Gregorian.yearsDays (100 * century + year) =
        Gregorian.yearsDays (100 * century + year - 1) + Gregorian.yearDays (100 * century + year) := by
      rw [full_eq]
      rfl
    change Gregorian.yearsDays (100 * century + year - 1) +
      (Gregorian.monthsDays (100 * century + year) (month + 2) + day) + 305 = start
    omega
  · have month_le := split.month_le
    obtain rfl | rfl : month = 10 ∨ month = 11 := by omega
    · refine ⟨⟨100 * century + year + 1, 1, day, Nat.succ_pos _, Nat.one_pos, by decide, split.day_pos,
        day_le⟩, ?_, rfl, rfl, rfl⟩
      change Gregorian.yearsDays (100 * century + year) + (0 + day) + 305 = start
      omega
    · refine ⟨⟨100 * century + year + 1, 2, day, Nat.succ_pos _, Nat.two_pos, by decide, split.day_pos,
        split.day_le_february⟩, ?_, rfl, rfl, rfl⟩
      change Gregorian.yearsDays (100 * century + year) + (0 + 31 + day) + 305 = start
      omega

/-! ## The calendar -/

/-- The fields are those of a date of the calendar. -/
structure Stands (times : Tm) (date : Gregorian.Date) : Prop where
  year : times.tm_year + 1900 = date.year
  month : times.tm_mon + 1 = date.month
  day : times.tm_mday = date.day
  weekday : times.tm_wday = date.weekday
  dayOfYear : times.tm_yday + 1 = date.dayOfYear

theorem tmod_of_eq {value divisor : Int} {dividend by_what : Nat} (value_eq : value = dividend)
    (divisor_eq : divisor = by_what) : value.tmod divisor = (dividend % by_what : Nat) := by
  rw [value_eq, divisor_eq, Int.ofNat_tmod]

theorem leap_iff {year : Int} {full : Nat} (year_eq : year = full) :
    year.tmod 4 = 0 ∧ year.tmod 100 ≠ 0 ∨ year.tmod 400 = 0 ↔ Gregorian.IsLeap full := by
  have four : year.tmod 4 = (full % 4 : Nat) := tmod_of_eq year_eq rfl
  have century : year.tmod 100 = (full % 100 : Nat) := tmod_of_eq year_eq rfl
  have four_centuries : year.tmod 400 = (full % 400 : Nat) := tmod_of_eq year_eq rfl
  rw [four, century, four_centuries, Gregorian.IsLeap]
  omega

/-- `yday` counts the days of the year. -/
theorem yday_eq (date : Gregorian.Date) {day mon year : Int} (day_eq : day = date.day)
    (month_eq : mon + 1 = date.month) (year_eq : year + 1900 = date.year) :
    yday day mon year + 1 = date.dayOfYear := by
  have month_pos := date.month_pos
  have month_le := date.month_le
  have closed := @Gregorian.monthsDays_eq date.year (date.month - 1) (by omega)
  have months : (214 * mon + 3).tdiv 7 = ((214 * (date.month - 1) + 3) / 7 : Nat) :=
    tdiv_of_eq (by omega) rfl
  rw [yday, Gregorian.Date.dayOfYear, months, ← closed]
  by_cases first : mon < 2
  · rw [if_pos first, if_pos (show date.month - 1 < 2 by omega)]
    omega
  · rw [if_neg first, if_neg (show ¬date.month - 1 < 2 by omega)]
    by_cases leap : Gregorian.IsLeap date.year
    · rw [if_pos ((leap_iff year_eq).mpr leap), if_pos leap]
      omega
    · rw [if_neg (mt (leap_iff year_eq).mp leap), if_neg leap]
      omega

/-- The day of the week goes on with the days. -/
theorem wday_eq {nday : Int} {ordinal : Nat} (ordinal_eq : nday + 678576 = ordinal) :
    (if (nday + 3).tmod 7 < 0 then (nday + 3).tmod 7 + 7 else (nday + 3).tmod 7) =
      (ordinal % 7 : Nat) := by
  have truncated := Int.tmod_eq_emod (a := nday + 3) (b := 7)
  split at truncated
  · rw [if_neg (by omega)]
    omega
  · split <;> omega

/-- `decode_date` gives the date of a day number. -/
theorem decode_date_stands {nday : Int} (valid : minDate ≤ nday) :
    ∃ date : Gregorian.Date, nday + 678576 = date.ordinal ∧ Stands (decode_date nday) date := by
  rw [minDate] at valid
  obtain ⟨start, start_eq⟩ := Int.eq_ofNat_of_zero_le (show 0 ≤ nday + 678881 by omega)
  obtain ⟨century, year, month, day, split, mon, full, parts, decode_eq⟩ := decode_date_eq start_eq
  obtain ⟨date, ordinal_eq, day_eq, month_eq, year_eq⟩ := split.calendar (by omega)
  have ordinal_int : nday + 678576 = date.ordinal := by omega
  have mon_eq : mon + 1 = date.month := by
    split at parts <;> simp only [*, if_true, if_false] at month_eq <;> omega
  have full_eq : full + 1900 = date.year := by
    split at parts <;> simp only [*, if_true, if_false] at year_eq <;> omega
  refine ⟨date, ordinal_int, ?_⟩
  rw [decode_eq]
  exact ⟨full_eq, mon_eq, congrArg Nat.cast day_eq.symm, wday_eq ordinal_int,
    yday_eq date (congrArg Nat.cast day_eq.symm) mon_eq full_eq⟩

/-- The number of a date, counted from the first of March. -/
theorem ordinal_march (date : Gregorian.Date) {year month : Nat}
    (shifted : (if 2 < date.month then date.month = month + 3 ∧ date.year = year
      else date.month + 9 = month ∧ date.year = year + 1)) :
    date.ordinal + 306 = 146097 * (year / 100) / 4 + 1461 * (year % 100) / 4 + (153 * month + 2) / 5 +
      date.day := by
  have years := @yearsDays_century (year / 100) (year % 100)
    (Nat.le_of_lt_succ (Nat.mod_lt _ (by decide)))
  rw [Nat.div_add_mod] at years
  have month_pos := date.month_pos
  have month_le := date.month_le
  rw [Gregorian.Date.ordinal, Gregorian.Date.dayOfYear]
  split at shifted
  · obtain ⟨month_eq, year_eq⟩ := shifted
    have year_pos := date.year_pos
    have months := @monthsDays_march date.year month (by omega)
    obtain ⟨before, full_eq⟩ := Nat.exists_eq_add_of_lt date.year_pos
    have last : Gregorian.yearsDays date.year =
        Gregorian.yearsDays (date.year - 1) + Gregorian.yearDays date.year := by
      rw [full_eq]
      rfl
    have month_before : date.month - 1 = month + 2 := by omega
    rw [month_before]
    rw [year_eq] at last months ⊢
    omega
  · obtain ⟨month_eq, year_eq⟩ := shifted
    rw [year_eq, Nat.add_sub_cancel, years]
    obtain first | second : date.month = 1 ∨ date.month = 2 := by omega
    · rw [first] at month_eq ⊢
      subst month_eq
      change _ + (0 + date.day) + 306 = _
      omega
    · rw [second] at month_eq ⊢
      subst month_eq
      change _ + (0 + 31 + date.day) + 306 = _
      omega

/-- `encode_date` gives the day number of a date. -/
theorem Stands.encode_date_eq {times : Tm} {date : Gregorian.Date} (stands : Stands times date) :
    encode_date times + 678576 = date.ordinal := by
  have encoded (year month : Nat) (shifted_year shifted_month : Int) (year_eq : shifted_year = year)
      (month_eq : shifted_month = month) :
      (146097 * shifted_year.tdiv 100).tdiv 4 +
          (1461 * (shifted_year - 100 * shifted_year.tdiv 100)).tdiv 4 +
          (153 * shifted_month + 2).tdiv 5 =
        (146097 * (year / 100) / 4 + 1461 * (year % 100) / 4 + (153 * month + 2) / 5 : Nat) := by
    have century : shifted_year.tdiv 100 = (year / 100 : Nat) := tdiv_of_eq year_eq rfl
    have centuries : (146097 * ((year / 100 : Nat) : Int)).tdiv 4 =
        (146097 * (year / 100) / 4 : Nat) := tdiv_of_eq rfl rfl
    have years : (1461 * (shifted_year - 100 * ((year / 100 : Nat) : Int))).tdiv 4 =
        (1461 * (year % 100) / 4 : Nat) := tdiv_of_eq (by omega) rfl
    have months : (153 * shifted_month + 2).tdiv 5 = ((153 * month + 2) / 5 : Nat) :=
      tdiv_of_eq (by omega) rfl
    rw [century, centuries, years, months]
    rfl
  have year_pos := date.year_pos
  have month_pos := date.month_pos
  have month_le := date.month_le
  have year_eq := stands.year
  have month_eq := stands.month
  rw [encode_date, stands.day, year_eq, month_eq]
  by_cases spring : 2 < date.month
  · have number := @ordinal_march date date.year (date.month - 3) (by
      rw [if_pos spring]
      exact ⟨by omega, rfl⟩)
    rw [if_pos (by omega)]
    dsimp only
    rw [encoded date.year (date.month - 3) _ _ rfl (by omega)]
    omega
  · have number := @ordinal_march date (date.year - 1) (date.month + 9) (by
      rw [if_neg spring]
      exact ⟨rfl, by omega⟩)
    rw [if_neg (by omega)]
    dsimp only
    rw [encoded (date.year - 1) (date.month + 9) _ _ (by omega) (by omega)]
    omega

/-- `encode_date` goes back to the day number. -/
theorem encode_decode_date {nday : Int} (valid : minDate ≤ nday) :
    encode_date (decode_date nday) = nday := by
  obtain ⟨date, ordinal_eq, stands⟩ := decode_date_stands valid
  have encoded := stands.encode_date_eq
  omega

/-! ## Times -/

/-- A time of day. -/
structure Clock.Valid (clock : Clock) : Prop where
  hours : clock.hours < 24
  minutes : clock.minutes < 60
  seconds : clock.seconds < 60
  fractions : clock.fractions < secondsPrecision

theorem encode_decode_time (ntime : Nat) : encode_time (decode_time ntime) = ntime := by
  simp only [encode_time, decode_time, secondsPrecision]
  omega

theorem decode_time_valid {ntime : Nat} (valid : isValidTime ntime) : (decode_time ntime).Valid := by
  rw [isValidTime, secondsPrecision] at valid
  refine ⟨?_, ?_, ?_, ?_⟩ <;> simp only [decode_time, secondsPrecision] <;> omega

theorem decode_encode_time {clock : Clock} (valid : clock.Valid) :
    decode_time (encode_time clock) = clock := by
  obtain ⟨hours, minutes, seconds, fractions⟩ := clock
  obtain ⟨hours_lt, minutes_lt, seconds_lt, fractions_lt⟩ := valid
  simp only [secondsPrecision] at hours_lt minutes_lt seconds_lt fractions_lt
  simp only [encode_time, decode_time, secondsPrecision, Clock.mk.injEq]
  refine ⟨?_, ?_, ?_, ?_⟩ <;> omega

theorem encode_time_valid {clock : Clock} (valid : clock.Valid) : isValidTime (encode_time clock) := by
  obtain ⟨hours_lt, minutes_lt, seconds_lt, fractions_lt⟩ := valid
  simp only [secondsPrecision] at fractions_lt
  simp only [isValidTime, encode_time, secondsPrecision]
  omega

/-! ## The conversions -/

/-- The date of a tm is before that of another one. -/
def Tm.Before (left right : Tm) : Prop :=
  left.tm_year < right.tm_year ∨ left.tm_year = right.tm_year ∧
    (left.tm_mon < right.tm_mon ∨ left.tm_mon = right.tm_mon ∧ left.tm_mday < right.tm_mday)

theorem decode_date_before {nday other : Int} (valid : minDate ≤ nday) (less : nday < other) :
    (decode_date nday).Before (decode_date other) := by
  obtain ⟨date, ordinal_eq, stands⟩ := decode_date_stands valid
  obtain ⟨later, later_eq, later_stands⟩ := decode_date_stands (valid.trans (Int.le_of_lt less))
  have before := @Gregorian.Date.before_of_ordinal_lt date later (by omega)
  have year_eq := stands.year
  have month_eq := stands.month
  have day_eq := stands.day
  have later_year := later_stands.year
  have later_month := later_stands.month
  have later_day := later_stands.day
  rw [Gregorian.Date.Before] at before
  rw [Tm.Before]
  omega

/-- Day numbers of the supported range and dates of the calendar correspond, in order, and so do times
and their hours, minutes, seconds and fractions. -/
theorem decode_encode :
    (∀ nday, isValidDate nday →
      encode_date (decode_date nday) = nday ∧
        ∃ date : Gregorian.Date, date.ordinal = nday + 678576 ∧ Stands (decode_date nday) date) ∧
    (∀ nday other, isValidDate nday → isValidDate other → nday < other →
      (decode_date nday).Before (decode_date other)) ∧
    (∀ ntime, isValidTime ntime →
      (decode_time ntime).Valid ∧ encode_time (decode_time ntime) = ntime) ∧
    ∀ clock : Clock, clock.Valid →
      isValidTime (encode_time clock) ∧ decode_time (encode_time clock) = clock := by
  refine ⟨fun nday valid => ⟨encode_decode_date valid.1, ?_⟩,
    fun nday other valid _ less => decode_date_before valid.1 less,
    fun ntime valid => ⟨decode_time_valid valid, encode_decode_time ntime⟩,
    fun clock valid => ⟨encode_time_valid valid, decode_encode_time valid⟩⟩
  obtain ⟨date, ordinal_eq, stands⟩ := decode_date_stands valid.1
  exact ⟨date, ordinal_eq.symm, stands⟩

/-- The first day of the range, and the last tick of a day. -/
theorem decode_encode_bounds :
    encode_date (decode_date minDate) = minDate ∧ encode_time (decode_time 863999999) = 863999999 :=
  ⟨(decode_encode.1 minDate ⟨Int.le_refl _, by decide⟩).1,
    (decode_encode.2.2.1 863999999 (by rw [isValidTime, secondsPrecision]; decide)).2⟩

end TimeStamp
end Firebird
