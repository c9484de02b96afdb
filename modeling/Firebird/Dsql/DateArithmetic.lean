import Firebird.Common.DateText
import Firebird.Dsql.Arithmetic
import Firebird.Library.BinaryRounding

/-!
# Arithmetic of dates and times

`addSqlDate`, `addSqlTime` and `addTimeStamp` of `ArithmeticNode` for operands that are dates, times,
timestamps or exact numbers.  A sum is one of 64 bits; the fields of the result have 32.  A `double`
stands for its value.
-/

namespace Firebird
namespace ArithmeticNode

open Cvt TimeStamp

/-- An operand of date arithmetic. -/
inductive Operand where
  | sql_date (date : Int)
  | sql_time (time : Nat)
  | timestamp (value : GdsTimestamp)
  | exact (desc : Exact)

/-- A result of date arithmetic. -/
inductive DateResult where
  | sql_date (date : Int)
  | sql_time (time : Nat)
  | timestamp (value : GdsTimestamp)
  /-- A difference, with its scale. -/
  | difference (value scale : Int)
  /-- A difference in dialect 1. -/
  | double (value : ℚ)
  deriving DecidableEq, Repr

/-- Ways date arithmetic ends without a value. -/
inductive DateError where
  /-- The conversion of an operand. -/
  | operand (error : CvtError)
  | date_range_exceeded
  | datetime_range_exceeded
  | onlycan_add_timetodate
  | onlycan_add_datetotime
  | onlycansub_tstampfromtstamp
  | onlyoneop_mustbe_tstamp
  deriving DecidableEq, Repr

/-- `SECONDS_PER_DAY`. -/
def secondsPerDay : Int := 24 * 60 * 60

/-- `ISC_TICKS_PER_DAY`. -/
def ticksPerDay : Int := secondsPerDay * 10000

/-- `ISC_TIME_SECONDS_PRECISION_SCALE`. -/
def secondsPrecisionScale : Int := -4

/-- `DIALECT_3_TIMESTAMP_SCALE`. -/
def dialect3TimestampScale : Int := -9

/-- `MOV_get_int64` of an operand that is not of the type the arithmetic is about. -/
def Operand.get_int64 (operand : Operand) (scale : Int) : Except DateError Int :=
  match operand with
  | .exact desc => (Cvt.get_int64 desc scale).mapError .operand
  | _ => .error (.operand .conversion)

/-- The sum or the difference in a variable of 64 bits. -/
def operate (blrOp : BlrOp) (d1 d2 : Int) : Int :=
  ExactType.int64.wrap (if blrOp = .subtract then d1 - d2 else d1 + d2)

/-! ## Dates -/

/-- An operand as a count of days. -/
def Operand.days : Operand → Except DateError Int
  | .sql_date date => .ok date
  | operand => operand.get_int64 0

def Operand.isDate : Operand → Bool
  | .sql_date _ => true
  | _ => false

/-- `addSqlDate`. -/
def addSqlDate (blrOp : BlrOp) (value desc : Operand) : Except DateError DateResult := do
  let d1 ← value.days
  let d2 ← desc.days
  if blrOp = .subtract ∧ value.isDate ∧ desc.isDate then .ok (.difference (d1 - d2) 0)
  else
    let vlu_sql_date := ExactType.long.wrap (operate blrOp d1 d2)
    if isValidDate vlu_sql_date then .ok (.sql_date vlu_sql_date) else .error .date_range_exceeded

/-! ## Times -/

/-- An operand as a count of ticks. -/
def Operand.ticks : Operand → Except DateError Int
  | .sql_time time => .ok time
  | operand => operand.get_int64 secondsPrecisionScale

def Operand.isTime : Operand → Bool
  | .sql_time _ => true
  | _ => false

/-- The loop that makes a count of ticks positive. -/
def makePositive (d2 : Int) : Int := if d2 < 0 then makePositive (d2 + ticksPerDay) else d2
termination_by (-d2).toNat
decreasing_by
  have positive : ticksPerDay = 864000000 := rfl
  omega

/-- `addSqlTime`. -/
def addSqlTime (blrOp : BlrOp) (value desc : Operand) : Except DateError DateResult := do
  let d1 ← value.ticks
  let d2 ← desc.ticks
  if blrOp = .subtract ∧ value.isTime ∧ desc.isTime then
    .ok (.difference (d1 - d2) secondsPrecisionScale)
  else .ok (.sql_time ((makePositive (operate blrOp d1 d2)).tmod ticksPerDay).toNat)

/-! ## Timestamps -/

/-- The nearest `double`. -/
def double (number : ℚ) : ℚ := BinaryRounding.round 52 number

/-- `CVT_power_of_ten`. -/
def powerOfTen (scale : Nat) : ℚ :=
  double (double (10 ^ (scale / 32 * 32)) * double (10 ^ (scale % 32)))

/-- `CVT_get_double`. -/
def get_double (desc : Exact) : ℚ :=
  let value := double desc.value
  let dscale := desc.dsc_scale
  if dscale = 0 then value
  else if dscale > 0 then double (value * powerOfTen dscale.toNat)
  else double (value / powerOfTen (-dscale).toNat)

/-- `llrint`.  For a number that is not one of 64 bits the result is not specified. -/
def llrint (unspecified : ℚ → Int) (number : ℚ) : Int :=
  if ExactType.int64.Fits (BinaryRounding.nearestEven number) then BinaryRounding.nearestEven number
  else ExactType.int64.wrap (unspecified number)

/-- `getDayFraction`. -/
def getDayFraction (unspecified : ℚ → Int) : Operand → Except DateError Int
  | .exact desc => .ok (llrint unspecified (double (get_double desc * double ticksPerDay)))
  | _ => .error (.operand .conversion)

/-- The ticks of a timestamp. -/
def ticksOf (value : GdsTimestamp) : Int :=
  value.timestamp_date * ticksPerDay + value.timestamp_time

/-- `getTimeStampToIscTicks`. -/
def getTimeStampToIscTicks : Operand → Except DateError Int
  | .timestamp value => .ok (ticksOf value)
  | _ => .error (.operand .conversion)

def Operand.isTimestamp : Operand → Bool
  | .timestamp _ => true
  | _ => false

/-- The difference of timestamps, in days. -/
def timestampDifference (dialect1 : Bool) (d2 : Int) : DateResult :=
  if dialect1 then .double (double (double d2 / double ticksPerDay))
  else if d2 ≥ 0 then
    .difference ((d2 * 1000 + secondsPerDay.tdiv 200).tdiv (secondsPerDay.tdiv 100))
      dialect3TimestampScale
  else
    .difference ((d2 * 1000 - secondsPerDay.tdiv 200).tdiv (secondsPerDay.tdiv 100))
      dialect3TimestampScale

/-- The count of ticks as a timestamp.  The fields are an `ISC_DATE` and an `ISC_TIME` variable. -/
def toTimestamp (d2 : Int) : GdsTimestamp :=
  let timestamp_date := ExactType.long.wrap (d2.tdiv ticksPerDay)
  let timestamp_time := ExactType.long.wrap (d2.tmod ticksPerDay)
  -- make sure the time portion is non-negative
  if timestamp_time < 0 then
    ⟨ExactType.long.wrap (timestamp_date - 1), ((timestamp_time + ticksPerDay) % 2 ^ 32).toNat⟩
  else ⟨timestamp_date, timestamp_time.toNat⟩

/-- `addTimeStamp`. -/
def addTimeStamp (unspecified : ℚ → Int) (dialect1 : Bool) (blrOp : BlrOp) (value desc : Operand) :
    Except DateError DateResult :=
  match value, desc with
  | .sql_date date, .sql_time time =>
      if blrOp = .add then .ok (.timestamp ⟨date, time⟩) else .error .onlycan_add_timetodate
  | .sql_date _, _ => .error .onlycan_add_timetodate
  | .sql_time time, .sql_date date =>
      if blrOp = .add then .ok (.timestamp ⟨date, time⟩) else .error .onlycan_add_datetotime
  | _, .sql_date _ => .error .onlycan_add_datetotime
  | value, desc => do
      if blrOp = .subtract ∧ desc.isTimestamp then
        if !value.isTimestamp then .error .onlycansub_tstampfromtstamp
        else do
          let d1 ← getTimeStampToIscTicks value
          let d2 ← getTimeStampToIscTicks desc
          return timestampDifference dialect1 (d1 - d2)
      else if value.isTimestamp = desc.isTimestamp then .error .onlyoneop_mustbe_tstamp
      else
        let d1 ← if value.isTimestamp then getTimeStampToIscTicks value
          else getDayFraction unspecified value
        let d2 ← if value.isTimestamp then getDayFraction unspecified desc
          else getTimeStampToIscTicks desc
        let vlu_timestamp := toTimestamp (operate blrOp d1 d2)
        if isValidDate vlu_timestamp.timestamp_date ∧ isValidTime vlu_timestamp.timestamp_time then
          .ok (.timestamp vlu_timestamp)
        else .error .datetime_range_exceeded

end ArithmeticNode
end Firebird
