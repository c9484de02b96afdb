import Firebird.Common.IntegerToText
import Firebird.Common.TimeStamp

/-!
# Text of dates and times

`datetime_to_text` prints a date, a time or a timestamp, in the default format or in the one of the
timestamps before BLR version 5, and `string_to_datetime` reads a text.
-/

namespace Firebird
namespace Cvt

open TimeStamp

/-- The errors of the conversions. -/
inductive DatetimeError where
  /-- `isc_convert_error`. -/
  | conversion
  /-- `isc_string_truncation`. -/
  | truncation
  | date_range_exceeded
  | time_range_exceeded
  | datetime_range_exceeded
  deriving DecidableEq, Repr

/-- `GDS_TIMESTAMP`. -/
structure GdsTimestamp where
  timestamp_date : Int
  timestamp_time : Nat
  deriving DecidableEq, Repr

/-- A value of `dtype_sql_time`, `dtype_sql_date` or `dtype_timestamp`. -/
inductive Datetime where
  | sql_time (time : Nat)
  | sql_date (date : Int)
  | timestamp (value : GdsTimestamp)
  deriving DecidableEq, Repr

/-- The value is in the supported range. -/
def Datetime.IsValid : Datetime → Prop
  | .sql_time time => isValidTime time
  | .sql_date date => isValidDate date
  | .timestamp value => isValidDate value.timestamp_date ∧ isValidTime value.timestamp_time

/-- The months of `FB_LONG_MONTHS_UPPER`. -/
def longMonthsUpper : List (List Char) :=
  ["JANUARY".toList, "FEBRUARY".toList, "MARCH".toList, "APRIL".toList, "MAY".toList, "JUNE".toList,
    "JULY".toList, "AUGUST".toList, "SEPTEMBER".toList, "OCTOBER".toList, "NOVEMBER".toList,
    "DECEMBER".toList]

/-! ## From a value to text -/

/-- What `sprintf` writes for a conversion `d` of a precision.  A width that does not exceed the
precision adds nothing. -/
def printInt (precision : Nat) : Int → List Char
  | .ofNat n => (Nat.toDigits 10 n).leftpad precision '0'
  | .negSucc n => '-' :: (Nat.toDigits 10 (n + 1)).leftpad precision '0'

/-- The date in the default format. -/
def printDate (times : Tm) : List Char :=
  printInt 4 (times.tm_year + 1900) ++ '-' :: (printInt 2 (times.tm_mon + 1) ++
    '-' :: printInt 2 times.tm_mday)

/-- The date in the format before BLR version 5. -/
def printDate4 (times : Tm) : List Char :=
  printInt 1 times.tm_mday ++ '-' :: ((longMonthsUpper.getD times.tm_mon.toNat []).take 3 ++
    '-' :: printInt 1 (times.tm_year + 1900))

/-- The time, with the hours in a precision. -/
def printTime (precision : Nat) (clock : Clock) : List Char :=
  printInt precision clock.hours ++ ':' :: (printInt 2 clock.minutes ++
    ':' :: (printInt 2 clock.seconds ++ '.' :: printInt 4 clock.fractions))

/-- The local `temp` of `datetime_to_text`. -/
def datetimeText (version4 : Bool) : Datetime → List Char
  | .sql_time time => printTime 2 (decode_time time)
  | .sql_date date => printDate (decode_date date)
  | .timestamp value =>
      let times := decode_date value.timestamp_date
      let clock := decode_time value.timestamp_time
      if !version4 then printDate times ++ ' ' :: printTime 2 clock
      else if clock.hours ≠ 0 ∨ clock.minutes ≠ 0 ∨ clock.seconds ≠ 0 ∨ clock.fractions ≠ 0 then
        printDate4 times ++ ' ' :: printTime 1 clock
      else printDate4 times

/-- The characters that a target has room for. -/
def TextTarget.room (to_dsc : TextTarget) : Nat :=
  match to_dsc.dsc_dtype with
  | .text => to_dsc.dsc_length
  | .cstring => to_dsc.dsc_length - 1
  | .varying => to_dsc.dsc_length - 2

/-- `CVT_move_common` of a text to a text that is filled up with spaces.  Returns the string that
`CVT_make_string` finds in the target. -/
def moveText (text : List Char) (to_dsc : TextTarget) : Except DatetimeError (List Char) :=
  let length := min text.length to_dsc.room
  if (text.drop length).all (· = ' ') then
    .ok (text.take length ++
      if to_dsc.dsc_dtype = .text then List.replicate (to_dsc.dsc_length - length) ' ' else [])
  else .error .truncation

/-- `datetime_to_text`. -/
def datetime_to_text (version4 : Bool) (value : Datetime) (to_dsc : TextTarget) :
    Except DatetimeError (List Char) :=
  let temp := datetimeText version4 value
  match value, version4 with
  -- silently truncated if the destination string is not large enough
  | .timestamp _, true => moveText (temp.take (min temp.length to_dsc.room)) to_dsc
  | _, _ => moveText temp to_dsc

/-! ## From text to a value -/

inductive ExpectDatetime where
  | expect_timestamp
  | expect_sql_date
  | expect_sql_time
  deriving DecidableEq, Repr

/-- What is expected where a value of the same type is asked for. -/
def Datetime.expect : Datetime → ExpectDatetime
  | .sql_time _ => .expect_sql_time
  | .sql_date _ => .expect_sql_date
  | .timestamp _ => .expect_timestamp

/-- The value that is taken from the result of a conversion. -/
def ExpectDatetime.take (expect_type : ExpectDatetime) (date : GdsTimestamp) : Datetime :=
  match expect_type with
  | .expect_sql_time => .sql_time date.timestamp_time
  | .expect_sql_date => .sql_date date.timestamp_date
  | .expect_timestamp => .timestamp date

/-- The `LETTER7` macro. -/
def isLetter (c : Char) : Bool := 'A' ≤ c && c ≤ 'Z'

def isBlank (c : Char) : Bool := c = ' ' || c = '\t'

/-- A character that may stand behind the recognized string. -/
def isTrailing (c : Char) : Bool := c = ' ' || c = '\t' || c = '\x00'

/-- The loop over the digits of a component: `n`, the number of digits and what is left. -/
def readDigits : Nat → Nat → List Char → Nat × Nat × List Char
  | n, precision, [] => (n, precision, [])
  | n, precision, c :: p =>
      if isDigit c then readDigits ((n * 10 + digit c) % 65536) (precision + 1) p
      else (n, precision, c :: p)

/-- The loop that copies the letters of a word, as far as the buffer has room. -/
def readLetters : Nat → List Char → List Char × List Char
  | 0, p => ([], p)
  | _ + 1, [] => ([], [])
  | room + 1, c :: p =>
      if isLetter (upper c) then
        let (temp, rest) := readLetters room p
        (upper c :: temp, rest)
      else ([], c :: p)

/-- What the components give. -/
structure Components where
  /-- Year, month, day, hours, minutes, seconds and fraction, the first three in any order. -/
  components : List Nat := [0, 0, 0, 0, 0, 0, 0]
  /-- Above 0 the number of digits, 0 if missing, `englishMonth` for the name of a month. -/
  description : List Int := [0, 0, 0, 0, 0, 0, 0]
  have_english_month : Bool := false
  dot_separator_seen : Bool := false
  deriving DecidableEq, Repr

/-- `ENGLISH_MONTH`. -/
def englishMonth : Int := -1

def Components.number (found : Components) (i n precision : Nat) : Components :=
  { found with
    components := found.components.set i n
    description := found.description.set i precision }

def Components.month (found : Components) (i n : Nat) : Components :=
  { found with
    components := found.components.set i n
    description := found.description.set i englishMonth
    have_english_month := true }

/-- A word that is not the name of a month: a magic word or an error. -/
def readMagic (expect_type : ExpectDatetime) (current : GdsTimestamp) (temp p : List Char) :
    Except DatetimeError GdsTimestamp :=
  if !(p.drop 1).all isTrailing then .error .conversion
  else if temp = "NOW".toList then .ok current
  else if expect_type = .expect_sql_time then .error .conversion
  else if temp = "TODAY".toList then .ok ⟨current.timestamp_date, 0⟩
  else if temp = "TOMORROW".toList then .ok ⟨current.timestamp_date + 1, 0⟩
  else if temp = "YESTERDAY".toList then .ok ⟨current.timestamp_date - 1, 0⟩
  else .error .conversion

/-- What a component, or all of them, come to. -/
inductive Parsed (α : Type) where
  /-- A magic word gave the result. -/
  | magic (date : GdsTimestamp)
  | more (found : α)

/-- One component, which begins at a character that is not blank. -/
def readComponent (expect_type : ExpectDatetime) (current : GdsTimestamp) (i : Nat)
    (found : Components) (p : List Char) : Except DatetimeError (Parsed (Components × List Char)) :=
  let c := upper (p.headD '\x00')
  if isDigit c then
    let (n, precision, rest) := readDigits 0 0 p
    .ok (.more (found.number i n precision, rest))
  else if isLetter c && !found.have_english_month then
    let (temp, rest) := readLetters 10 p
    if temp.length < 3 then .error .conversion
    else
      match if i < 2 then longMonthsUpper.findIdx? temp.isPrefixOf else none with
      | some month => .ok (.more (found.month i (month + 1), rest))
      | none => (readMagic expect_type current temp rest).map .magic
  else .error .conversion

/-- The loop over the components that are left.  Returns `i`, the components and what is left of the
text. -/
def readComponents (expect_type : ExpectDatetime) (current : GdsTimestamp) :
    Nat → Components → List Char → Except DatetimeError (Parsed (Nat × Components × List Char))
  | 0, found, p => .ok (.more (7, found, p))
  | left + 1, found, p => do
      let i := 6 - left
      let p := p.dropWhile isBlank
      if p = [] then return .more (i, found, [])
      match ← readComponent expect_type current i found p with
      | .magic date => return .magic date
      | .more (found, p) =>
          match p.dropWhile isBlank with
          | [] => return .more (i, found, [])
          | c :: rest =>
              if c = '/' ∨ c = '-' ∨ c = ',' ∨ c = ':' then
                readComponents expect_type current left found rest
              else if c = '.' then
                let dot := found.dot_separator_seen || decide (i ≤ 1)
                readComponents expect_type current left { found with dot_separator_seen := dot } rest
              else readComponents expect_type current left found (c :: rest)

/-- `position_year`, `position_month` and `position_day`. -/
def Components.positions (found : Components) : Nat × Nat × Nat :=
  if found.description.getD 0 0 ≥ 3 then (0, 1, 2)
  else if found.description.getD 0 0 = englishMonth then (2, 0, 1)
  else if found.description.getD 1 0 = englishMonth then (2, 1, 0)
  else if found.dot_separator_seen then (2, 1, 0)
  else (2, 0, 1)

/-- The year that the number at its position stands for. -/
def fullYear (current : GdsTimestamp) (digits : Int) (number : Nat) : Int :=
  let times2 := decode_date current.timestamp_date
  if digits = 0 then times2.tm_year + 1900
  else if digits ≤ 2 then
    if (number : Int) < (times2.tm_year - 50).tmod 100 then number + 2000 else number + 1900
  else number

/-- The day, month and year; the weekday and the day of the year are not set. -/
def Components.date (found : Components) (current : GdsTimestamp) : Except DatetimeError Tm :=
  let (year, month, day) := found.positions
  let digits := fun position => found.description.getD position 0
  if digits year > 4 ∨ digits month > 2 ∨ digits month = 0 ∨ digits day > 2 ∨ digits day ≤ 0 then
    .error .conversion
  else
    .ok
      { tm_mday := found.components.getD day 0
        tm_mon := (found.components.getD month 0 : Int) - 1
        tm_year := fullYear current (digits year) (found.components.getD year 0) - 1900
        tm_wday := 0
        tm_yday := 0 }

/-- The hours, minutes and seconds, if there are any. -/
def Components.time (found : Components) (i : Nat) : Except DatetimeError Clock :=
  let number := fun position => found.components.getD position 0
  let digits := fun position => found.description.getD position 0
  if i ≤ 2 then .ok ⟨0, 0, 0, 0⟩
  else if number 3 > 23 ∨ number 4 > 59 ∨ number 5 > 59 ∨ digits 3 > 2 ∨ digits 3 = 0 ∨ digits 4 > 2 ∨
      digits 4 = 0 ∨ digits 5 > 2 ∨ digits 6 > 4 then .error .conversion
  else .ok ⟨number 3, number 4, number 5, 0⟩

/-- The fraction of seconds, in units of a ten thousandth. -/
def Components.fraction (found : Components) : Nat :=
  (fun n => n * 10 % 65536)^[(4 - found.description.getD 6 0).toNat] (found.components.getD 6 0)

def rangeExceeded : ExpectDatetime → DatetimeError
  | .expect_sql_date => .date_range_exceeded
  | .expect_sql_time => .time_range_exceeded
  | .expect_timestamp => .datetime_range_exceeded

/-- The date portion, where only the time is needed. -/
def noDate : Tm := { tm_mday := 1, tm_mon := 0, tm_year := 0, tm_wday := 0, tm_yday := 0 }

/-- The date that the components give, if one is expected. -/
def Components.expectedDate (found : Components) (expect_type : ExpectDatetime)
    (current : GdsTimestamp) : Except DatetimeError Tm :=
  if expect_type = .expect_sql_time then .ok noDate else found.date current

/-- The last part of `string_to_datetime`: the value is in the supported range and, if it has a date,
decodes to what it was made of. -/
def validated (expect_type : ExpectDatetime) (times : Tm) (clock : Clock) (fraction : Nat) :
    Except DatetimeError GdsTimestamp :=
  let date := encode_date times
  let time := encode_time clock
  let times2 := decode_date date
  let clock2 := decode_time time
  if ¬(isValidDate date ∧ isValidTime time) then .error (rangeExceeded expect_type)
  else if expect_type ≠ .expect_sql_time ∧
      (times.tm_year ≠ times2.tm_year ∨ times.tm_mon ≠ times2.tm_mon ∨ times.tm_mday ≠ times2.tm_mday ∨
        clock.hours ≠ clock2.hours ∨ clock.minutes ≠ clock2.minutes ∨
        clock.seconds ≠ clock2.seconds) then .error .conversion
  else .ok ⟨date, time + fraction⟩

/-- The value of the components. -/
def Components.value (found : Components) (expect_type : ExpectDatetime) (current : GdsTimestamp)
    (i : Nat) : Except DatetimeError GdsTimestamp := do
  validated expect_type (← found.expectedDate expect_type current) (← found.time i) found.fraction

/-- The components that the expected value may have. -/
def componentCount (expect_type : ExpectDatetime) : Nat :=
  if expect_type = .expect_sql_time then 4 else 7

/-- `string_to_datetime`, at a current time. -/
def string_to_datetime (expect_type : ExpectDatetime) (current : GdsTimestamp) (text : List Char) :
    Except DatetimeError GdsTimestamp := do
  match ← readComponents expect_type current (componentCount expect_type) {} text with
  | .magic date => return date
  | .more (i, found, p) =>
      -- at least 2 components
      if i + componentCount expect_type < 8 then .error .conversion
      -- dates cannot have a time portion
      else if expect_type = .expect_sql_date ∧ i > 2 then .error .conversion
      else if !p.all isTrailing then .error .conversion
      else found.value expect_type current i

end Cvt
end Firebird
