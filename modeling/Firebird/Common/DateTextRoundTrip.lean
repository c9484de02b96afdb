import Firebird.Common.DateText
import Mathlib.Tactic.IntervalCases

/-!
# Dates and times in text and back

`string_to_datetime` reads what `datetime_to_text` printed, one component after the other, and has the
value again.  The exception is a timestamp before the year 100 in the format before BLR version 5, whose
year has less than three digits and is taken for one of this century or of the last one.
-/

namespace Firebird
namespace Cvt

open TimeStamp

/-! ## Numbers -/

/-- The text is a decimal number. -/
structure Numeral (text : List Char) (n : Nat) : Prop where
  digits : ∀ c ∈ text, isDigit c = true
  nonempty : text ≠ []
  value : Nat.ofDigitChars 10 text 0 = n

theorem isDigit_of_core {c : Char} (digit : c.isDigit = true) : isDigit c = true := by
  simpa [Char.isDigit, isDigit, Char.le_def] using digit

theorem printInt_cast (precision n : Nat) :
    printInt precision (n : Int) =
      List.replicate (precision - (Nat.toDigits 10 n).length) '0' ++ Nat.toDigits 10 n := rfl

/-- A natural number is printed as a numeral. -/
theorem numeral_printInt (precision n : Nat) : Numeral (printInt precision (n : Int)) n where
  digits := by
    intro c member
    rw [printInt_cast, List.mem_append] at member
    rcases member with member | member
    · rw [List.eq_of_mem_replicate member]
      decide
    · exact isDigit_of_core (Nat.isDigit_of_mem_toDigits (by decide) (by decide) member)
  nonempty := by
    rw [printInt_cast]
    exact List.append_ne_nil_of_right_ne_nil _ Nat.toDigits_ne_nil
  value := by
    rw [printInt_cast, Nat.ofDigitChars_append, Nat.ofDigitChars_replicate_zero, Nat.mul_zero,
      Nat.ofDigitChars_ten_toDigits]

theorem length_printInt_le {precision n size : Nat} (positive : 0 < size) (fits : n < 10 ^ size)
    (padded : precision ≤ size) : (printInt precision (n : Int)).length ≤ size := by
  have short := (Nat.length_toDigits_le_iff (by decide) positive).2 fits
  rw [printInt_cast, List.length_append, List.length_replicate]
  omega

theorem le_length_printInt (precision n : Nat) : precision ≤ (printInt precision (n : Int)).length := by
  rw [printInt_cast, List.length_append, List.length_replicate]
  omega

theorem length_printInt_pos (precision n : Nat) : 0 < (printInt precision (n : Int)).length :=
  List.length_pos_iff.mpr (numeral_printInt precision n).nonempty

theorem le_length_printInt_of_le {precision n size : Nat} (positive : 0 < size)
    (large : 10 ^ size ≤ n) : size < (printInt precision (n : Int)).length := by
  have long := mt (Nat.length_toDigits_le_iff (by decide : 1 < 10) positive).1 (Nat.not_lt.mpr large)
  rw [printInt_cast, List.length_append]
  omega

/-- What follows a number does not go on with a digit. -/
def Stops (rest : List Char) : Prop := ∀ c, rest.head? = some c → isDigit c = false

theorem readDigits_stops {rest : List Char} (stops : Stops rest) (n precision : Nat) :
    readDigits n precision rest = (n, precision, rest) := by
  cases rest with
  | nil => rfl
  | cons c rest => rw [readDigits, if_neg (by rw [stops c rfl]; decide)]

/-- The loop over digits gives their number, if it fits 16 bits. -/
theorem readDigits_append {text rest : List Char} (digits : ∀ c ∈ text, isDigit c = true)
    (stops : Stops rest) (n precision : Nat) (small : Nat.ofDigitChars 10 text n < 65536) :
    readDigits n precision (text ++ rest) =
      (Nat.ofDigitChars 10 text n, precision + text.length, rest) := by
  induction text generalizing n precision with
  | nil => exact readDigits_stops stops n precision
  | cons c text ih =>
      rw [Nat.ofDigitChars_cons] at small
      have growing := @Nat.ofDigitChars_eq_ofDigitChars_zero text (10 * n + (c.toNat - '0'.toNat))
      have one_le := Nat.one_le_pow text.length 10 (by decide)
      have step_le : 10 * n + (c.toNat - '0'.toNat) ≤
          10 ^ text.length * (10 * n + (c.toNat - '0'.toNat)) := Nat.le_mul_of_pos_left _ one_le
      have step_eq : (n * 10 + digit c) % 65536 = 10 * n + (c.toNat - '0'.toNat) := by
        rw [digit, Nat.mul_comm n 10, Nat.mod_eq_of_lt (by omega)]
      rw [List.cons_append, readDigits, if_pos (digits c List.mem_cons_self), step_eq,
        ih (fun d member => digits d (List.mem_cons_of_mem _ member)) _ _ small,
        Nat.ofDigitChars_cons, List.length_cons]
      refine congrArg _ (Prod.ext ?_ rfl)
      omega

/-! ## Components -/

variable {expect_type : ExpectDatetime} {current : GdsTimestamp}

theorem upper_digit {c : Char} (digit : isDigit c = true) : upper c = c := by
  rw [upper, if_neg]
  rintro ⟨low, -⟩
  simp only [isDigit, Bool.and_eq_true, decide_eq_true_eq] at digit
  exact absurd (Char.le_trans low digit.2) (by decide)

theorem isBlank_digit {c : Char} (digit : isDigit c = true) : isBlank c = false := by
  by_contra blank
  simp only [isBlank, Bool.not_eq_false, Bool.or_eq_true, decide_eq_true_eq] at blank
  rcases blank with rfl | rfl <;> exact absurd digit (by decide)

theorem Numeral.head {text : List Char} {n : Nat} (numeral : Numeral text n) :
    ∃ c tail, text = c :: tail ∧ isDigit c = true := by
  obtain ⟨c, tail, rfl⟩ := List.exists_cons_of_ne_nil numeral.nonempty
  exact ⟨c, tail, rfl, numeral.digits c List.mem_cons_self⟩

/-- The component of a number. -/
theorem readComponent_numeral {text rest : List Char} {n : Nat} (numeral : Numeral text n)
    (small : n < 65536) (stops : Stops rest) (i : Nat) (found : Components) :
    readComponent expect_type current i found (text ++ rest) =
      .ok (.more (found.number i n text.length, rest)) := by
  have value := numeral.value
  have read := readDigits_append numeral.digits stops 0 0 (by rwa [value])
  obtain ⟨c, tail, rfl, digit⟩ := numeral.head
  have first : upper (((c :: tail) ++ rest).headD '\x00') = c := upper_digit digit
  rw [readComponent, first]
  simp only [digit, if_true]
  rw [read, value, Nat.zero_add]

/-- What a number does in the loop, by what stands behind it. -/
theorem readComponents_numeral {text rest : List Char} {n : Nat} (numeral : Numeral text n)
    (small : n < 65536) (stops : Stops rest) (left : Nat) (found : Components) :
    readComponents expect_type current (left + 1) found (text ++ rest) =
      match rest.dropWhile isBlank with
      | [] => .ok (.more (6 - left, found.number (6 - left) n text.length, []))
      | c :: rest =>
          let found := found.number (6 - left) n text.length
          if c = '/' ∨ c = '-' ∨ c = ',' ∨ c = ':' then
            readComponents expect_type current left found rest
          else if c = '.' then
            let dot := found.dot_separator_seen || decide (6 - left ≤ 1)
            readComponents expect_type current left { found with dot_separator_seen := dot } rest
          else readComponents expect_type current left found (c :: rest) := by
  have component := @readComponent_numeral expect_type current text rest n numeral small stops
    (6 - left) found
  obtain ⟨c, tail, rfl, digit⟩ := numeral.head
  have kept : ((c :: tail) ++ rest).dropWhile isBlank = (c :: tail) ++ rest := by
    rw [List.cons_append, List.dropWhile_cons, if_neg (by rw [isBlank_digit digit]; decide)]
  rw [readComponents]
  simp only [kept, component]
  rfl

theorem Stops.cons {c : Char} (other : isDigit c = false) (rest : List Char) : Stops (c :: rest) := by
  intro d head
  rwa [← Option.some.inj head]

theorem stops_spaces (count : Nat) : Stops (List.replicate count ' ') := by
  cases count with
  | zero => exact nofun
  | succ count => exact Stops.cons (by decide) _

theorem dropWhile_spaces (count : Nat) : (List.replicate count ' ').dropWhile isBlank = [] := by
  induction count with
  | zero => rfl
  | succ count ih => exact ih

section Numbers

variable {text : List Char} {n : Nat} (numeral : Numeral text n) (small : n < 65536) (left : Nat)
  (found : Components)
include numeral small

theorem readComponents_dash (rest : List Char) :
    readComponents expect_type current (left + 1) found (text ++ '-' :: rest) =
      readComponents expect_type current left (found.number (6 - left) n text.length) rest := by
  rw [readComponents_numeral numeral small (Stops.cons (by decide) rest)]
  rfl

theorem readComponents_colon (rest : List Char) :
    readComponents expect_type current (left + 1) found (text ++ ':' :: rest) =
      readComponents expect_type current left (found.number (6 - left) n text.length) rest := by
  rw [readComponents_numeral numeral small (Stops.cons (by decide) rest)]
  rfl

/-- A point behind the third component or a later one. -/
theorem readComponents_point (late : left ≤ 4) (rest : List Char) :
    readComponents expect_type current (left + 1) found (text ++ '.' :: rest) =
      readComponents expect_type current left (found.number (6 - left) n text.length) rest := by
  have no_dot : decide (6 - left ≤ 1) = false := decide_eq_false (by omega)
  rw [readComponents_numeral numeral small (Stops.cons (by decide) rest)]
  have point : ('.' :: rest).dropWhile isBlank = '.' :: rest := rfl
  simp only [point, no_dot, Bool.or_false]
  rfl

theorem readComponents_space {next rest : List Char} {m : Nat} (follows : Numeral next m) :
    readComponents expect_type current (left + 1) found (text ++ ' ' :: (next ++ rest)) =
      readComponents expect_type current left (found.number (6 - left) n text.length)
        (next ++ rest) := by
  rw [readComponents_numeral numeral small (Stops.cons (by decide) _)]
  obtain ⟨c, tail, rfl, digit⟩ := follows.head
  have space : (' ' :: ((c :: tail) ++ rest)).dropWhile isBlank = c :: (tail ++ rest) := by
    rw [List.dropWhile_cons, if_pos (by decide), List.cons_append, List.dropWhile_cons,
      if_neg (by rw [isBlank_digit digit]; decide)]
  have not_separator : ¬(c = '/' ∨ c = '-' ∨ c = ',' ∨ c = ':') := by
    rintro (rfl | rfl | rfl | rfl) <;> exact absurd digit (by decide)
  have not_point : c ≠ '.' := by
    rintro rfl
    exact absurd digit (by decide)
  simp only [space, if_neg not_separator, if_neg not_point]
  rfl

theorem readComponents_end (count : Nat) :
    readComponents expect_type current (left + 1) found (text ++ List.replicate count ' ') =
      .ok (.more (6 - left, found.number (6 - left) n text.length, [])) := by
  rw [readComponents_numeral numeral small (stops_spaces count), dropWhile_spaces]

end Numbers

/-- The abbreviated name of a month in the second place. -/
theorem readComponents_month {mon : Nat} (inside : mon < 12) {found : Components}
    (first : found.have_english_month = false) (rest : List Char) :
    readComponents expect_type current 6 found ((longMonthsUpper.getD mon []).take 3 ++ '-' :: rest) =
      readComponents expect_type current 5 (found.month 1 (mon + 1)) rest := by
  have component : readComponent expect_type current 1 found
      ((longMonthsUpper.getD mon []).take 3 ++ '-' :: rest) =
        .ok (.more (found.month 1 (mon + 1), '-' :: rest)) := by
    interval_cases mon <;> simp only [readComponent, first] <;> rfl
  have kept : ((longMonthsUpper.getD mon []).take 3 ++ '-' :: rest).dropWhile isBlank =
      (longMonthsUpper.getD mon []).take 3 ++ '-' :: rest := by
    interval_cases mon <;> rfl
  have nonempty : (longMonthsUpper.getD mon []).take 3 ++ '-' :: rest ≠ [] :=
    List.append_ne_nil_of_right_ne_nil _ (List.cons_ne_nil _ _)
  rw [readComponents]
  simp only [kept, if_neg nonempty, component]
  rfl

/-! ## The printed texts -/

/-- Year, month and day of a date of the supported range. -/
structure Calendar (times : Tm) (year month day : Nat) : Prop where
  year_eq : times.tm_year + 1900 = year
  month_eq : times.tm_mon + 1 = month
  day_eq : times.tm_mday = day
  year_le : year ≤ 9999
  month_pos : 0 < month
  month_le : month ≤ 12
  day_pos : 0 < day
  day_le : day ≤ 31

theorem decode_date_calendar {date : Int} (valid : isValidDate date) :
    ∃ year month day, Calendar (decode_date date) year month day := by
  obtain ⟨calendar, -, stands⟩ := decode_date_stands valid.1
  have before : date = maxDate ∨ (decode_date date).Before (decode_date maxDate) :=
    (Int.lt_or_eq_of_le valid.2).symm.imp_right (decode_date_before valid.1)
  have last : (decode_date maxDate).tm_year = 8099 := by decide
  have year_eq := stands.year
  have long := Gregorian.monthDays_le calendar.year calendar.month
  refine ⟨calendar.year, calendar.month, calendar.day, year_eq, stands.month, stands.day, ?_,
    calendar.month_pos, calendar.month_le, calendar.day_pos, calendar.day_le.trans long⟩
  rcases before with rfl | before
  · omega
  · rw [Tm.Before] at before
    omega

/-- The components of the time. -/
def Components.clock (found : Components) (precision : Nat) (clock : Clock) : Components :=
  (((found.number 3 clock.hours (printInt precision clock.hours).length).number 4 clock.minutes
    (printInt 2 clock.minutes).length).number 5 clock.seconds (printInt 2 clock.seconds).length).number
      6 clock.fractions (printInt 4 clock.fractions).length

theorem readComponents_printTime {precision : Nat} {clock : Clock} (valid : clock.Valid)
    (found : Components) (count : Nat) :
    readComponents expect_type current 4 found
      (printTime precision clock ++ List.replicate count ' ') =
        .ok (.more (6, found.clock precision clock, [])) := by
  have hours := valid.hours
  have minutes := valid.minutes
  have seconds := valid.seconds
  have fractions : clock.fractions < 10000 := valid.fractions
  rw [printTime]
  simp only [List.append_assoc, List.cons_append]
  rw [readComponents_colon (numeral_printInt _ _) (by omega) 3,
    readComponents_colon (numeral_printInt _ _) (by omega) 2,
    readComponents_point (numeral_printInt _ _) (by omega) 1 _ (by decide),
    readComponents_end (numeral_printInt _ _) (by omega) 0]
  rfl

/-- The components of a date in the default format. -/
def dateComponents (year month day : Nat) : Components :=
  (({} : Components).number 0 year (printInt 4 year).length).number 1 month (printInt 2 month).length
    |>.number 2 day (printInt 2 day).length

/-- The components of a date in the format before BLR version 5. -/
def dateComponents4 (year month day : Nat) : Components :=
  ((({} : Components).number 0 day (printInt 1 day).length).month 1 month).number 2 year
    (printInt 1 year).length

section Dates

variable {times : Tm} {year month day : Nat} (calendar : Calendar times year month day)
include calendar

theorem printDate_eq :
    printDate times = printInt 4 (year : Int) ++ '-' :: (printInt 2 (month : Int) ++
      '-' :: printInt 2 (day : Int)) := by
  rw [printDate, calendar.year_eq, calendar.month_eq, calendar.day_eq]

theorem printDate4_eq :
    printDate4 times = printInt 1 (day : Int) ++ '-' ::
      ((longMonthsUpper.getD (month - 1) []).take 3 ++ '-' :: printInt 1 (year : Int)) := by
  have month_eq := calendar.month_eq
  rw [printDate4, calendar.year_eq, calendar.day_eq,
    show times.tm_mon.toNat = month - 1 by omega]

theorem readComponents_printDate (count : Nat) :
    readComponents expect_type current 7 {} (printDate times ++ List.replicate count ' ') =
      .ok (.more (2, dateComponents year month day, [])) := by
  have year_le := calendar.year_le
  have month_le := calendar.month_le
  have day_le := calendar.day_le
  rw [printDate_eq calendar]
  simp only [List.append_assoc, List.cons_append]
  rw [readComponents_dash (numeral_printInt _ _) (by omega) 6,
    readComponents_dash (numeral_printInt _ _) (by omega) 5,
    readComponents_end (numeral_printInt _ _) (by omega) 4]
  rfl

theorem readComponents_printDate_time {precision : Nat} {clock : Clock} (valid : clock.Valid)
    (count : Nat) :
    readComponents expect_type current 7 {}
      (printDate times ++ ' ' :: printTime precision clock ++ List.replicate count ' ') =
        .ok (.more (6, (dateComponents year month day).clock precision clock, [])) := by
  have year_le := calendar.year_le
  have month_le := calendar.month_le
  have day_le := calendar.day_le
  rw [← readComponents_printTime valid, printDate_eq calendar]
  simp only [printTime, List.append_assoc, List.cons_append]
  rw [readComponents_dash (numeral_printInt _ _) (by omega) 6,
    readComponents_dash (numeral_printInt _ _) (by omega) 5,
    readComponents_space (numeral_printInt _ _) (by omega) 4 _ (numeral_printInt _ _)]
  rfl

theorem readComponents_printDate4 (count : Nat) :
    readComponents expect_type current 7 {} (printDate4 times ++ List.replicate count ' ') =
      .ok (.more (2, dateComponents4 year month day, [])) := by
  have year_le := calendar.year_le
  have month_pos := calendar.month_pos
  have month_le := calendar.month_le
  have day_le := calendar.day_le
  rw [printDate4_eq calendar]
  simp only [List.append_assoc, List.cons_append]
  rw [readComponents_dash (numeral_printInt _ _) (by omega) 6,
    readComponents_month (by omega) rfl,
    readComponents_end (numeral_printInt _ _) (by omega) 4, Nat.sub_add_cancel month_pos]
  rfl

theorem readComponents_printDate4_time {precision : Nat} {clock : Clock} (valid : clock.Valid)
    (count : Nat) :
    readComponents expect_type current 7 {}
      (printDate4 times ++ ' ' :: printTime precision clock ++ List.replicate count ' ') =
        .ok (.more (6, (dateComponents4 year month day).clock precision clock, [])) := by
  have year_le := calendar.year_le
  have month_pos := calendar.month_pos
  have month_le := calendar.month_le
  have day_le := calendar.day_le
  rw [← readComponents_printTime valid, printDate4_eq calendar]
  simp only [printTime, List.append_assoc, List.cons_append]
  rw [readComponents_dash (numeral_printInt _ _) (by omega) 6,
    readComponents_month (by omega) rfl,
    readComponents_space (numeral_printInt _ _) (by omega) 4 _ (numeral_printInt _ _),
    Nat.sub_add_cancel month_pos]
  rfl

end Dates

/-! ## The values -/

theorem Components.positions_lt (found : Components) :
    found.positions.1 < 3 ∧ found.positions.2.1 < 3 ∧ found.positions.2.2 < 3 := by
  unfold Components.positions
  split_ifs <;> decide

/-- The components of the time leave those of the date alone. -/
theorem Components.clock_getD (found : Components) (precision : Nat) (clock : Clock) {position : Nat}
    (early : position < 3) :
    (found.clock precision clock).components.getD position 0 = found.components.getD position 0 ∧
      (found.clock precision clock).description.getD position 0 =
        found.description.getD position 0 := by
  simp only [Components.clock, Components.number, List.getD_eq_getElem?_getD]
  constructor <;> simp only [List.getElem?_set_ne (show 3 ≠ position by omega),
    List.getElem?_set_ne (show 4 ≠ position by omega),
    List.getElem?_set_ne (show 5 ≠ position by omega),
    List.getElem?_set_ne (show 6 ≠ position by omega)]

theorem Components.clock_date (found : Components) (precision : Nat) (clock : Clock) :
    (found.clock precision clock).date current = found.date current := by
  have first := (found.clock_getD precision clock (by decide : 0 < 3)).2
  have second := (found.clock_getD precision clock (by decide : 1 < 3)).2
  have same : (found.clock precision clock).positions = found.positions := by
    unfold Components.positions
    rw [first, second]
    rfl
  obtain ⟨year_lt, month_lt, day_lt⟩ := found.positions_lt
  have at_year := found.clock_getD precision clock year_lt
  have at_month := found.clock_getD precision clock month_lt
  have at_day := found.clock_getD precision clock day_lt
  simp only [Components.date, same, at_year, at_month, at_day]

/-- The hours, minutes and seconds without the fraction. -/
def whole (clock : Clock) : Clock := { clock with fractions := 0 }

theorem Components.clock_time {found : Components} {precision : Nat} {clock : Clock}
    (valid : clock.Valid) (padded : precision ≤ 2) (six : found.components.length = 7)
    (seven : found.description.length = 7) :
    (found.clock precision clock).time 6 = .ok (whole clock) ∧
      (found.clock precision clock).fraction = clock.fractions := by
  have hours := valid.hours
  have minutes := valid.minutes
  have seconds := valid.seconds
  have fractions : clock.fractions < 10000 := valid.fractions
  have hours_length := length_printInt_le (n := clock.hours) (by decide : 0 < 2) (by omega) padded
  have minutes_length := length_printInt_le (n := clock.minutes) (by decide : 0 < 2) (by omega) le_rfl
  have seconds_length := length_printInt_le (n := clock.seconds) (by decide : 0 < 2) (by omega) le_rfl
  have fraction_length := length_printInt_le (n := clock.fractions) (by decide : 0 < 4) (by omega) le_rfl
  have fraction_le := le_length_printInt 4 clock.fractions
  have four : (printInt 4 (clock.fractions : Int)).length = 4 := by omega
  constructor
  · simp only [Components.time, Components.clock, Components.number]
    simp [six, seven, whole]
    exact ⟨by omega, by omega, by omega, hours_length, (numeral_printInt _ _).nonempty, minutes_length,
      (numeral_printInt _ _).nonempty, seconds_length, fraction_length⟩
  · simp [Components.fraction, Components.clock, Components.number, six, seven, four]

/-- The day and the month of a date, and a year. -/
def withYear (times : Tm) (tm_year : Int) : Tm :=
  { tm_mday := times.tm_mday, tm_mon := times.tm_mon, tm_year, tm_wday := 0, tm_yday := 0 }

section Dates

variable {times : Tm} {year month day : Nat} (calendar : Calendar times year month day)
include calendar

/-- The date of components that give the numbers of a calendar date. -/
theorem dateComponents_date :
    (dateComponents year month day).date current = .ok (withYear times times.tm_year) := by
  have year_le := calendar.year_le
  have month_le := calendar.month_le
  have day_le := calendar.day_le
  have year_eq := calendar.year_eq
  have month_eq := calendar.month_eq
  have day_eq := calendar.day_eq
  have year_length := length_printInt_le (n := year) (by decide : 0 < 4) (by omega) le_rfl
  have le_length := le_length_printInt 4 year
  have four : (printInt 4 (year : Int)).length = 4 := by omega
  have month_length := length_printInt_le (n := month) (by decide : 0 < 2) (by omega) le_rfl
  have month_le := le_length_printInt 2 month
  have two : (printInt 2 (month : Int)).length = 2 := by omega
  have day_length := length_printInt_le (n := day) (by decide : 0 < 2) (by omega) le_rfl
  have day_le := le_length_printInt 2 day
  have both : (printInt 2 (day : Int)).length = 2 := by omega
  simp [Components.date, Components.positions, dateComponents, Components.number, four, two, both,
    fullYear, withYear]
  omega

/-- The date of the components of the old format, with the year as it is understood. -/
theorem dateComponents4_date :
    (dateComponents4 year month day).date current =
      .ok (withYear times (fullYear current (printInt 1 (year : Int)).length year - 1900)) := by
  have year_le := calendar.year_le
  have month_le := calendar.month_le
  have day_le := calendar.day_le
  have month_eq := calendar.month_eq
  have day_eq := calendar.day_eq
  have year_length : (printInt 1 (year : Int)).length ≤ 4 :=
    length_printInt_le (by decide) (by omega) (by decide)
  have day_length : (printInt 1 (day : Int)).length ≤ 2 :=
    length_printInt_le (by decide) (by omega) (by decide)
  have not_three : ¬3 ≤ ((printInt 1 (day : Int)).length : Int) := by omega
  simp [Components.date, Components.positions, dateComponents4, Components.number, Components.month,
    englishMonth, not_three]
  rw [if_neg (by simp [year_length, day_length, (numeral_printInt 1 day).nonempty])]
  exact congrArg Except.ok (by rw [withYear, day_eq, ← month_eq, Int.add_sub_cancel])

end Dates

/-- A year keeps its value if it is printed with three digits or more, and only then. -/
theorem fullYear_eq_iff (current : GdsTimestamp) (year : Nat) :
    fullYear current (printInt 1 (year : Int)).length year = year ↔ 100 ≤ year := by
  have digits_pos := length_printInt_pos 1 year
  rw [fullYear, if_neg (by omega)]
  by_cases early : 100 ≤ year
  · have long := @le_length_printInt_of_le 1 _ _ (by decide : 0 < 2) early
    simp only [early, iff_true]
    rw [if_neg (by omega)]
  · have short : (printInt 1 (year : Int)).length ≤ 2 :=
      length_printInt_le (by decide) (by omega) (by decide)
    simp only [early, iff_false]
    rw [if_pos (by omega)]
    split <;> omega

/-! ## The results -/

/-- A valid date and time are the value of their components. -/
theorem Components.value_eq {found : Components} {i : Nat} {times : Tm} {clock : Clock}
    (date_eq : found.expectedDate expect_type current = .ok times) (time_eq : found.time i = .ok clock)
    (valid : isValidDate (encode_date times)) (clock_valid : clock.Valid)
    (same : expect_type ≠ .expect_sql_time →
      times.tm_year = (decode_date (encode_date times)).tm_year ∧
      times.tm_mon = (decode_date (encode_date times)).tm_mon ∧
      times.tm_mday = (decode_date (encode_date times)).tm_mday) :
    found.value expect_type current i =
      .ok ⟨encode_date times, encode_time clock + found.fraction⟩ := by
  have time_valid := encode_time_valid clock_valid
  have agree : ¬(expect_type ≠ .expect_sql_time ∧
      (times.tm_year ≠ (decode_date (encode_date times)).tm_year ∨
        times.tm_mon ≠ (decode_date (encode_date times)).tm_mon ∨
        times.tm_mday ≠ (decode_date (encode_date times)).tm_mday ∨
        clock.hours ≠ clock.hours ∨ clock.minutes ≠ clock.minutes ∨ clock.seconds ≠ clock.seconds)) := by
    rintro ⟨dated, differs⟩
    obtain ⟨year_eq, month_eq, day_eq⟩ := same dated
    simp [← year_eq, ← month_eq, ← day_eq] at differs
  rw [Components.value, date_eq, time_eq]
  change validated expect_type times clock found.fraction = _
  simp only [validated, decode_encode_time clock_valid]
  rw [if_neg (not_not_intro ⟨valid, time_valid⟩), if_neg agree]

/-- A date that comes out is the one of the components. -/
theorem Components.date_of_value {found : Components} {i : Nat} {result : GdsTimestamp}
    (dated : expect_type ≠ .expect_sql_time)
    (value_eq : found.value expect_type current i = .ok result) :
    ∃ times, found.date current = .ok times ∧
      times.tm_year = (decode_date result.timestamp_date).tm_year := by
  rw [Components.value, Components.expectedDate, if_neg dated] at value_eq
  cases date_eq : found.date current with
  | error error =>
      rw [date_eq] at value_eq
      cases value_eq
  | ok times =>
      cases time_eq : found.time i with
      | error error =>
          rw [date_eq, time_eq] at value_eq
          cases value_eq
      | ok clock =>
          rw [date_eq, time_eq] at value_eq
          change validated expect_type times clock found.fraction = .ok result at value_eq
          rw [validated] at value_eq
          split_ifs at value_eq with invalid differs
          cases value_eq
          refine ⟨times, rfl, ?_⟩
          by_contra other
          exact differs ⟨dated, Or.inl other⟩

theorem string_to_datetime_read {i : Nat} {found : Components} {text : List Char}
    (read : readComponents expect_type current (componentCount expect_type) {} text =
      .ok (.more (i, found, [])))
    (enough : 8 ≤ i + componentCount expect_type)
    (no_time : expect_type = .expect_sql_date → i ≤ 2) :
    string_to_datetime expect_type current text = found.value expect_type current i := by
  rw [string_to_datetime, read]
  simp only [bind, Except.bind]
  rw [if_neg (by omega), if_neg (fun both => absurd (no_time both.1) (by omega))]
  rfl

/-! ## The round trip -/

/-- A text that fits is moved whole, and a text of fixed length is filled up with spaces. -/
theorem moveText_fits {text : List Char} {to_dsc : TextTarget} (fits : text.length ≤ to_dsc.room) :
    ∃ count, moveText text to_dsc = .ok (text ++ List.replicate count ' ') := by
  rw [moveText, Nat.min_eq_left fits, List.drop_length, List.take_length]
  by_cases fixed : to_dsc.dsc_dtype = .text
  · exact ⟨_, by rw [if_pos fixed]; rfl⟩
  · exact ⟨0, by rw [if_neg fixed]; rfl⟩

theorem datetime_to_text_fits {version4 : Bool} {value : Datetime} {to_dsc : TextTarget}
    (fits : (datetimeText version4 value).length ≤ to_dsc.room) :
    ∃ count, datetime_to_text version4 value to_dsc =
      .ok (datetimeText version4 value ++ List.replicate count ' ') := by
  unfold datetime_to_text
  split
  · dsimp only
    rw [Nat.min_eq_left fits, List.take_length]
    exact moveText_fits fits
  · exact moveText_fits fits

/-- The value comes back from its text. -/
def RoundTrips (version4 : Bool) (value : Datetime) (to_dsc : TextTarget) (current : GdsTimestamp) :
    Prop :=
  ∃ text date, datetime_to_text version4 value to_dsc = .ok text ∧
    string_to_datetime value.expect current text = .ok date ∧ value.expect.take date = value

theorem roundTrips_iff_read {version4 : Bool} {value : Datetime} {to_dsc : TextTarget}
    (fits : (datetimeText version4 value).length ≤ to_dsc.room) {result : Except DatetimeError GdsTimestamp}
    (read : ∀ count, string_to_datetime value.expect current
      (datetimeText version4 value ++ List.replicate count ' ') = result) :
    RoundTrips version4 value to_dsc current ↔
      ∃ date, result = .ok date ∧ value.expect.take date = value := by
  obtain ⟨count, text_eq⟩ := datetime_to_text_fits fits
  constructor
  · rintro ⟨text, date, written, date_eq, same⟩
    rw [text_eq] at written
    cases written
    exact ⟨date, (read count).symm.trans date_eq, same⟩
  · rintro ⟨date, rfl, same⟩
    exact ⟨_, date, text_eq, read count, same⟩

theorem whole_valid {clock : Clock} (valid : clock.Valid) : (whole clock).Valid :=
  ⟨valid.hours, valid.minutes, valid.seconds, Nat.succ_pos 9999⟩

theorem encode_whole (clock : Clock) :
    encode_time (whole clock) + clock.fractions = encode_time clock := by
  simp only [encode_time, whole, Nat.add_zero]

/-- The date and the time that components stand for. -/
theorem Components.value_date {found : Components} {i : Nat} {clock : Clock} {date : Int}
    (dated : expect_type ≠ .expect_sql_time) (valid : isValidDate date)
    (date_eq : found.date current = .ok (withYear (decode_date date) (decode_date date).tm_year))
    (time_eq : found.time i = .ok clock) (clock_valid : clock.Valid) :
    found.value expect_type current i = .ok ⟨date, encode_time clock + found.fraction⟩ := by
  have expected : found.expectedDate expect_type current = found.date current := if_neg dated
  have encoded : encode_date (withYear (decode_date date) (decode_date date).tm_year) = date :=
    encode_decode_date valid.1
  have result := found.value_eq (expected.trans date_eq) time_eq (by rwa [encoded]) clock_valid
    (fun _ => by rw [encoded]; exact ⟨rfl, rfl, rfl⟩)
  rwa [encoded] at result

/-- A time. -/
theorem roundTrips_time {version4 : Bool} {time : Nat} (valid : isValidTime time)
    {to_dsc : TextTarget} (fits : (datetimeText version4 (.sql_time time)).length ≤ to_dsc.room) :
    RoundTrips version4 (.sql_time time) to_dsc current := by
  have clock_valid := decode_time_valid valid
  obtain ⟨time_eq, fraction_eq⟩ := @Components.clock_time {} 2 _ clock_valid le_rfl rfl rfl
  have value_eq := @Components.value_eq .expect_sql_time current _ _ _ _ rfl
    time_eq (by decide) (whole_valid clock_valid) (fun dated => absurd rfl dated)
  rw [fraction_eq, encode_whole, encode_decode_time] at value_eq
  refine (roundTrips_iff_read fits fun count => ?_).mpr ⟨_, value_eq, rfl⟩
  exact string_to_datetime_read (readComponents_printTime clock_valid {} count)
    (show 8 ≤ 6 + 4 by decide) (fun wrong => nomatch wrong)

/-- A date. -/
theorem roundTrips_date {version4 : Bool} {date : Int} (valid : isValidDate date)
    {to_dsc : TextTarget} (fits : (datetimeText version4 (.sql_date date)).length ≤ to_dsc.room) :
    RoundTrips version4 (.sql_date date) to_dsc current := by
  obtain ⟨year, month, day, calendar⟩ := decode_date_calendar valid
  have value_eq := @Components.value_date .expect_sql_date current _ 2 _ _ nofun valid
    (dateComponents_date calendar) rfl ⟨by decide, by decide, by decide, by decide⟩
  refine (roundTrips_iff_read fits fun count => ?_).mpr ⟨_, value_eq, rfl⟩
  exact string_to_datetime_read (readComponents_printDate calendar count)
    (show 8 ≤ 2 + 7 by decide) (fun _ => le_rfl)

/-- A timestamp in the default format. -/
theorem roundTrips_timestamp {value : GdsTimestamp} (valid : (Datetime.timestamp value).IsValid)
    {to_dsc : TextTarget} (fits : (datetimeText false (.timestamp value)).length ≤ to_dsc.room) :
    RoundTrips false (.timestamp value) to_dsc current := by
  obtain ⟨year, month, day, calendar⟩ := decode_date_calendar valid.1
  have clock_valid := decode_time_valid valid.2
  obtain ⟨time_eq, fraction_eq⟩ :=
    @Components.clock_time (dateComponents year month day) 2 _ clock_valid le_rfl rfl rfl
  have value_eq := @Components.value_date .expect_timestamp current _ _ _ _ nofun valid.1
    ((Components.clock_date _ _ _).trans (dateComponents_date calendar)) time_eq
    (whole_valid clock_valid)
  rw [fraction_eq, encode_whole, encode_decode_time] at value_eq
  refine (roundTrips_iff_read fits fun count => ?_).mpr ⟨_, value_eq, rfl⟩
  exact string_to_datetime_read (readComponents_printDate_time calendar clock_valid count)
    (show 8 ≤ 6 + 7 by decide) nofun

/-- What is read of a timestamp in the old format, whether or not its time is printed. -/
theorem reads_old {value : GdsTimestamp} {year month day : Nat}
    (calendar : Calendar (decode_date value.timestamp_date) year month day)
    (valid : isValidTime value.timestamp_time) :
    ∃ i found clock, 2 ≤ i ∧ clock.Valid ∧
      (∀ count, readComponents expect_type current 7 {}
        (datetimeText true (.timestamp value) ++ List.replicate count ' ') = .ok (.more (i, found, []))) ∧
      found.date current = (dateComponents4 year month day).date current ∧ found.time i = .ok clock ∧
      encode_time clock + found.fraction = value.timestamp_time := by
  have clock_valid := decode_time_valid valid
  rw [datetimeText]
  simp only [Bool.not_true, Bool.false_eq_true, if_false]
  split_ifs with timed
  · obtain ⟨time_eq, fraction_eq⟩ := @Components.clock_time (dateComponents4 year month day) 1 _
      clock_valid (by decide) rfl rfl
    refine ⟨6, _, _, by decide, whole_valid clock_valid,
      readComponents_printDate4_time calendar clock_valid, Components.clock_date _ _ _, time_eq, ?_⟩
    rw [fraction_eq, encode_whole, encode_decode_time]
  · have zero : decode_time value.timestamp_time = ⟨0, 0, 0, 0⟩ := by
      rw [Clock.mk.injEq]
      omega
    have time_zero := encode_decode_time value.timestamp_time
    have fraction_eq : (dateComponents4 year month day).fraction = 0 := by
      have last : (dateComponents4 year month day).components.getD 6 0 = 0 := rfl
      rw [Components.fraction, last]
      exact Function.iterate_fixed rfl _
    have no_time : (dateComponents4 year month day).time 2 = .ok ⟨0, 0, 0, 0⟩ := rfl
    rw [zero] at clock_valid time_zero
    refine ⟨2, dateComponents4 year month day, _, le_rfl, clock_valid,
      readComponents_printDate4 calendar, rfl, no_time, ?_⟩
    rw [fraction_eq, Nat.add_zero, time_zero]

/-- A timestamp in the old format. -/
theorem roundTrips_old_iff {value : GdsTimestamp} (valid : (Datetime.timestamp value).IsValid)
    {to_dsc : TextTarget} (fits : (datetimeText true (.timestamp value)).length ≤ to_dsc.room) :
    RoundTrips true (.timestamp value) to_dsc current ↔
      100 ≤ (decode_date value.timestamp_date).tm_year + 1900 := by
  obtain ⟨year, month, day, calendar⟩ := decode_date_calendar valid.1
  obtain ⟨i, found, clock, two_le, clock_valid, read, date_eq, time_eq, sum_eq⟩ :=
    @reads_old .expect_timestamp current _ _ _ _ calendar valid.2
  rw [dateComponents4_date calendar] at date_eq
  have year_eq := calendar.year_eq
  have kept := fullYear_eq_iff current year
  have dated : (Datetime.timestamp value).expect ≠ .expect_sql_time := nofun
  rw [roundTrips_iff_read fits fun count =>
    string_to_datetime_read (read count) (show 8 ≤ i + 7 by omega) nofun]
  constructor
  · rintro ⟨date, value_eq, same⟩
    obtain ⟨times, times_eq, same_year⟩ := Components.date_of_value dated value_eq
    obtain rfl := Datetime.timestamp.inj same
    rw [date_eq] at times_eq
    cases times_eq
    simp only [withYear] at same_year
    have large := kept.mp (by omega)
    omega
  · intro large
    have full : fullYear current (printInt 1 (year : Int)).length year - 1900 =
        (decode_date value.timestamp_date).tm_year := by
      have full := kept.mpr (by omega)
      omega
    rw [full] at date_eq
    have value_eq := @Components.value_date .expect_timestamp current _ _ _ _ nofun valid.1 date_eq
      time_eq clock_valid
    rw [sum_eq] at value_eq
    exact ⟨value, value_eq, rfl⟩

/-- A timestamp before the year 100 that is printed in the format before BLR version 5. -/
def Datetime.Abbreviated (version4 : Bool) : Datetime → Prop
  | .timestamp value => version4 = true ∧ (decode_date value.timestamp_date).tm_year + 1900 < 100
  | _ => False

/-- Every valid value comes back from its text at any current time, unless its year is printed with
less than three digits. -/
theorem string_to_datetime_datetime_to_text (version4 : Bool) (value : Datetime) (valid : value.IsValid)
    (to_dsc : TextTarget) (fits : (datetimeText version4 value).length ≤ to_dsc.room)
    (current : GdsTimestamp) :
    RoundTrips version4 value to_dsc current ↔ ¬value.Abbreviated version4 := by
  cases value with
  | sql_time time => exact iff_of_true (roundTrips_time valid fits) id
  | sql_date date => exact iff_of_true (roundTrips_date valid fits) id
  | timestamp value =>
      cases version4 with
      | false => exact iff_of_true (roundTrips_timestamp valid fits) (fun early => nomatch early.1)
      | true =>
          rw [roundTrips_old_iff valid fits, Datetime.Abbreviated]
          simp only [true_and, Int.not_lt]

/-- The first of January of the year 100. -/
theorem string_to_datetime_datetime_to_text_hundred :
    RoundTrips true (.timestamp ⟨-642416, 0⟩) ⟨.varying, 32⟩ ⟨60000, 0⟩ :=
  (string_to_datetime_datetime_to_text true (.timestamp ⟨-642416, 0⟩)
    (show isValidDate (-642416) ∧ isValidTime 0 by decide) ⟨.varying, 32⟩ (by decide) _).mpr
      (show ¬(true = true ∧ (decode_date (-642416)).tm_year + 1900 < 100) by decide)

/-- The first of January of the year 1 is read as one of 2001. -/
theorem not_string_to_datetime_datetime_to_text :
    ¬∀ version4 value to_dsc current, value.IsValid →
      (datetimeText version4 value).length ≤ to_dsc.room →
        RoundTrips version4 value to_dsc current := by
  intro all
  obtain ⟨text, date, written, read, same⟩ := all true (.timestamp ⟨minDate, 0⟩) ⟨.varying, 32⟩
    ⟨60000, 0⟩ (show isValidDate minDate ∧ isValidTime 0 by decide) (by decide)
  have text_eq : datetime_to_text true (.timestamp ⟨minDate, 0⟩) ⟨.varying, 32⟩ =
      .ok "1-JAN-1".toList := by decide
  rw [text_eq] at written
  cases written
  have date_eq : string_to_datetime .expect_timestamp ⟨60000, 0⟩ "1-JAN-1".toList =
      .ok ⟨51910, 0⟩ := by decide
  have both := date_eq.symm.trans read
  cases both
  exact absurd same (by decide)

end Cvt
end Firebird
