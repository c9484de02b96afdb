import Firebird.Dsql.ArithmeticExact
import Firebird.Dsql.DateArithmetic

/-!
# What the arithmetic of dates and times delivers

A number is brought to days or to ticks, and the sum is exact as long as it fits the variables it is
kept in.  A date is stored in 32 bits before it is checked, so what is known of a sum that is out of
range is that it is rejected unless it differs from a supported date by a multiple of `2 ^ 32`.
-/

namespace Firebird
namespace ArithmeticNode

open Cvt TimeStamp

variable {blrOp : BlrOp}

theorem operate_eq (d1 d2 : Int) : operate blrOp d1 d2 = ExactType.int64.wrap (combined blrOp d1 d2) :=
  rfl

/-! ## The numbers -/

/-- A number in units of a scale of the engine. -/
theorem get_int64_exact (desc : Exact) {scale : Int} (least : -9 ≤ scale) (most : scale ≤ 0) :
    (Operand.exact desc).get_int64 scale =
      if ExactType.int64.Fits (desc.rescaled scale) then .ok (desc.rescaled scale)
      else .error (.operand .outOfRange) := by
  obtain ⟨scale_least, scale_most⟩ := desc.scale_fits
  have delivers := @get_int64_delivers desc scale (by
    simp only [ExactType.Fits, ExactType.bits]
    omega)
  rw [Delivers] at delivers
  rw [Operand.get_int64, delivers]
  split <;> rfl

/-! ## Dates -/

/-- What is stored of a sum is the sum, if it fits 32 bits, and congruent to it in any case. -/
theorem wrap_operate (d1 d2 : Int) :
    ExactType.long.wrap (operate blrOp d1 d2) % 2 ^ 32 = combined blrOp d1 d2 % 2 ^ 32 ∧
      (ExactType.long.Fits (combined blrOp d1 d2) →
        ExactType.long.wrap (operate blrOp d1 d2) = combined blrOp d1 d2) := by
  rw [operate_eq]
  generalize combined blrOp d1 d2 = sum
  simp only [ExactType.wrap, ExactType.Fits, ExactType.bits]
  constructor
  · omega
  · rintro ⟨low, high⟩
    omega

theorem long_fits_of_valid {date : Int} (valid : isValidDate date) : ExactType.long.Fits date := by
  obtain ⟨low, high⟩ := valid
  simp only [minDate, maxDate] at low high
  simp only [ExactType.Fits, ExactType.bits]
  omega

/-- Supported dates that are congruent are the same. -/
theorem date_eq_of_congruent {date other : Int} (valid : isValidDate date) (also : isValidDate other)
    (congruent : date % 2 ^ 32 = other % 2 ^ 32) : date = other := by
  obtain ⟨low, high⟩ := valid
  obtain ⟨other_low, other_high⟩ := also
  simp only [minDate, maxDate] at low high other_low other_high
  omega

/-- A date and a number of days. -/
theorem addSqlDate_days (date : Int) (desc : Exact) :
    addSqlDate blrOp (.sql_date date) (.exact desc) =
      if ExactType.int64.Fits (desc.rescaled 0) then
        if isValidDate (ExactType.long.wrap (operate blrOp date (desc.rescaled 0))) then
          .ok (.sql_date (ExactType.long.wrap (operate blrOp date (desc.rescaled 0))))
        else .error .date_range_exceeded
      else .error (.operand .outOfRange) := by
  have days : (Operand.exact desc).days = (Operand.exact desc).get_int64 0 := rfl
  rw [addSqlDate, days, get_int64_exact desc (by decide) le_rfl]
  by_cases fits : ExactType.int64.Fits (desc.rescaled 0)
  · rw [if_pos fits, if_pos fits]
    simp only [Operand.days, Operand.isDate, bind, Except.bind, Bool.false_eq_true, and_false, if_false]
  · rw [if_neg fits, if_neg fits]
    rfl

/-- A number of days and a date. -/
theorem addSqlDate_comm (date : Int) (desc : Exact) :
    addSqlDate .add (.exact desc) (.sql_date date) = addSqlDate .add (.sql_date date) (.exact desc) := by
  have days : (Operand.exact desc).days = (Operand.exact desc).get_int64 0 := rfl
  have commutes (days : Int) : operate .add days date = operate .add date days :=
    congrArg ExactType.int64.wrap (Int.add_comm days date)
  rw [addSqlDate, addSqlDate, days, get_int64_exact desc (by decide) le_rfl]
  by_cases fits : ExactType.int64.Fits (desc.rescaled 0)
  · rw [if_pos fits]
    simp only [Operand.days, bind, Except.bind, commutes]
    rfl
  · rw [if_neg fits]
    rfl

theorem addSqlDate_inside {date : Int} {desc : Exact} (fits : ExactType.int64.Fits (desc.rescaled 0))
    (inside : isValidDate (combined blrOp date (desc.rescaled 0))) :
    addSqlDate blrOp (.sql_date date) (.exact desc) =
      .ok (.sql_date (combined blrOp date (desc.rescaled 0))) := by
  have stored := (@wrap_operate blrOp date (desc.rescaled 0)).2 (long_fits_of_valid inside)
  rw [addSqlDate_days, if_pos fits, stored, if_pos inside]

theorem addSqlDate_outside {date : Int} {desc : Exact} (fits : ExactType.int64.Fits (desc.rescaled 0))
    (outside : ∀ other, isValidDate other →
      other % 2 ^ 32 ≠ combined blrOp date (desc.rescaled 0) % 2 ^ 32) :
    addSqlDate blrOp (.sql_date date) (.exact desc) = .error .date_range_exceeded := by
  have congruent := (@wrap_operate blrOp date (desc.rescaled 0)).1
  rw [addSqlDate_days, if_pos fits, if_neg fun valid => outside _ valid congruent]

/-- A result is a supported date that is congruent to the exact sum. -/
theorem addSqlDate_ok {date : Int} {desc : Exact} {result : DateResult}
    (ok : addSqlDate blrOp (.sql_date date) (.exact desc) = .ok result) :
    ∃ day, result = .sql_date day ∧ isValidDate day ∧
      day % 2 ^ 32 = combined blrOp date (desc.rescaled 0) % 2 ^ 32 := by
  rw [addSqlDate_days] at ok
  split_ifs at ok with fits valid
  cases ok
  exact ⟨_, rfl, valid, (@wrap_operate blrOp date (desc.rescaled 0)).1⟩

/-- The number that was added and is taken away again leaves the date. -/
theorem addSqlDate_back {date result : Int} {desc : Exact} {back : DateResult}
    (valid : isValidDate date)
    (forth : addSqlDate .add (.sql_date date) (.exact desc) = .ok (.sql_date result))
    (away : addSqlDate .subtract (.sql_date result) (.exact desc) = .ok back) :
    back = .sql_date date := by
  obtain ⟨day, day_eq, -, sum⟩ := addSqlDate_ok forth
  obtain rfl := DateResult.sql_date.inj day_eq
  obtain ⟨last, rfl, last_valid, difference⟩ := addSqlDate_ok away
  have congruent : last % 2 ^ 32 = date % 2 ^ 32 := by
    simp only [combined, if_true, reduceCtorEq, if_false] at sum difference
    omega
  rw [date_eq_of_congruent last_valid valid congruent]

/-! ## Times -/

/-- The loop leaves the time of the day alone. -/
theorem makePositive_spec (d2 : Int) :
    0 ≤ makePositive d2 ∧ makePositive d2 % ticksPerDay = d2 % ticksPerDay := by
  induction d2 using makePositive.induct with
  | case1 d2 negative ih =>
      rw [makePositive, if_pos negative]
      exact ⟨ih.1, ih.2.trans (Int.add_emod_right _ _)⟩
  | case2 d2 positive =>
      rw [makePositive, if_neg positive]
      exact ⟨Int.not_lt.mp positive, rfl⟩

/-- A time and a number of seconds. -/
theorem addSqlTime_seconds (time : Nat) (desc : Exact) :
    addSqlTime blrOp (.sql_time time) (.exact desc) =
      if ExactType.int64.Fits (desc.rescaled secondsPrecisionScale) then
        .ok (.sql_time (operate blrOp time (desc.rescaled secondsPrecisionScale) % ticksPerDay).toNat)
      else .error (.operand .outOfRange) := by
  have ticks : (Operand.exact desc).ticks = (Operand.exact desc).get_int64 secondsPrecisionScale := rfl
  rw [addSqlTime, ticks, get_int64_exact desc (by decide) (by decide)]
  by_cases fits : ExactType.int64.Fits (desc.rescaled secondsPrecisionScale)
  · rw [if_pos fits, if_pos fits]
    simp only [Operand.ticks, Operand.isTime, bind, Except.bind, Bool.false_eq_true, and_false, if_false]
    obtain ⟨positive, same⟩ := makePositive_spec
      (operate blrOp time (desc.rescaled secondsPrecisionScale))
    rw [Int.tmod_eq_emod_of_nonneg positive, same]
  · rw [if_neg fits, if_neg fits]
    rfl

/-! ## Timestamps -/

/-- Truncation rounds a negative count of ticks that is not a whole day up. -/
theorem truncated_ticks (d2 : Int) :
    d2.tdiv ticksPerDay = d2 / ticksPerDay ∧ d2.tmod ticksPerDay = d2 % ticksPerDay ∨
      d2 / ticksPerDay < 0 ∧ d2.tdiv ticksPerDay = d2 / ticksPerDay + 1 ∧
        d2.tmod ticksPerDay = d2 % ticksPerDay - ticksPerDay := by
  have quotient := Int.tdiv_eq_ediv (a := d2) (b := ticksPerDay)
  have remainder := Int.tmod_eq_emod (a := d2) (b := ticksPerDay)
  by_cases whole : 0 ≤ d2 ∨ ticksPerDay ∣ d2
  · rw [if_pos whole] at quotient remainder
    exact Or.inl ⟨by rw [quotient, add_zero], by rw [remainder]; exact sub_zero _⟩
  · rw [if_neg whole] at quotient remainder
    exact Or.inr ⟨Int.ediv_neg_of_neg_of_pos (by omega) (by decide), quotient, remainder⟩

/-- The fields of a count of ticks whose day is a number of 32 bits. -/
theorem toTimestamp_eq {d2 : Int} (fits : ExactType.long.Fits (d2 / ticksPerDay)) :
    toTimestamp d2 = ⟨d2 / ticksPerDay, (d2 % ticksPerDay).toNat⟩ := by
  have day_eq : ticksPerDay = 864000000 := rfl
  have rest_nonneg := Int.emod_nonneg d2 (show ticksPerDay ≠ 0 by decide)
  have rest_lt := Int.emod_lt_of_pos d2 (show 0 < ticksPerDay by decide)
  have cases := truncated_ticks d2
  rw [toTimestamp]
  generalize d2 / ticksPerDay = day at fits cases ⊢
  generalize d2 % ticksPerDay = rest at rest_nonneg rest_lt cases ⊢
  rw [day_eq] at rest_lt
  have rest_fits : ExactType.long.Fits rest := by
    simp only [ExactType.Fits, ExactType.bits]
    omega
  rcases cases with ⟨quotient, remainder⟩ | ⟨negative, quotient, remainder⟩
  · rw [quotient, remainder, ExactType.wrap_of_fits fits, ExactType.wrap_of_fits rest_fits]
    exact if_neg (Int.not_lt.mpr rest_nonneg)
  · have up_fits : ExactType.long.Fits (day + 1) := by
      simp only [ExactType.Fits, ExactType.bits] at fits ⊢
      omega
    have under_fits : ExactType.long.Fits (rest - ticksPerDay) := by
      simp only [ExactType.Fits, ExactType.bits, day_eq]
      omega
    have under : rest - ticksPerDay < 0 := by
      rw [day_eq]
      omega
    rw [quotient, remainder, ExactType.wrap_of_fits up_fits, ExactType.wrap_of_fits under_fits]
    simp only [if_pos under]
    rw [Int.add_sub_cancel, Int.sub_add_cancel, ExactType.wrap_of_fits fits,
      Int.emod_eq_of_lt rest_nonneg (by omega)]

variable {unspecified : ℚ → Int} {dialect1 : Bool}

/-- The ticks of a number of days: the product in `double` arithmetic, rounded. -/
def dayTicks (desc : Exact) : Int :=
  BinaryRounding.nearestEven (double (get_double desc * double ticksPerDay))

/-- The value that the operations of a `double` are rounded to, compared with the exact one. -/
theorem near_double (number : ℚ) : BinaryRounding.Near (1 / 2 ^ 53) (double number) number :=
  BinaryRounding.near_round number

theorem near_powerOfTen (scale : Nat) :
    BinaryRounding.Near (7 / 2 ^ 54) (powerOfTen scale) (10 ^ scale) := by
  have product := (near_double (10 ^ (scale / 32 * 32))).mul (near_double (10 ^ (scale % 32)))
    (by norm_num)
  rw [← pow_add, Nat.div_add_mod'] at product
  exact (product.trans (near_double _) (by norm_num)).mono (by norm_num)

theorem near_get_double (desc : Exact) :
    BinaryRounding.Near (13 / 2 ^ 54) (get_double desc) (number desc) := by
  have value_near := near_double (desc.value : ℚ)
  rw [get_double, number]
  rcases lt_trichotomy desc.dsc_scale 0 with negative | zero | positive
  · obtain ⟨places, places_eq⟩ := Int.eq_ofNat_of_zero_le (show 0 ≤ -desc.dsc_scale by omega)
    have scale_eq : desc.dsc_scale = -(places : ℤ) := by omega
    have inverse := (near_powerOfTen places).inv (by norm_num) (by positivity)
    have quotient := value_near.mul inverse (by norm_num)
    have rounded := quotient.trans (near_double _) (by norm_num)
    simp only [if_neg negative.ne, if_neg negative.not_gt]
    rw [places_eq, Int.toNat_natCast, scale_eq, zpow_neg, zpow_natCast, div_eq_mul_inv]
    exact rounded.mono (by norm_num)
  · rw [zero, zpow_zero, mul_one]
    exact value_near.mono (by norm_num)
  · obtain ⟨places, places_eq⟩ := Int.eq_ofNat_of_zero_le positive.le
    have product := value_near.mul (near_powerOfTen places) (by norm_num)
    have rounded := product.trans (near_double _) (by norm_num)
    simp only [if_neg positive.ne', if_pos positive]
    rw [places_eq, Int.toNat_natCast, zpow_natCast]
    exact rounded.mono (by norm_num)

theorem double_ticksPerDay : double ticksPerDay = ticksPerDay :=
  BinaryRounding.round_intCast (by decide)

/-- The ticks of a number of days are near the exact ones. -/
theorem dayTicks_near (desc : Exact) :
    |(dayTicks desc : ℚ) - number desc * ticksPerDay| ≤
      1 / 2 + |number desc * ticksPerDay| / 2 ^ 50 := by
  have exact_ticks : BinaryRounding.Near 0 (double ticksPerDay) ticksPerDay := by
    rw [double_ticksPerDay, BinaryRounding.Near, sub_self, abs_zero, zero_mul]
  have product := (near_get_double desc).mul exact_ticks (by norm_num)
  have rounded := (product.trans (near_double _) (by norm_num)).mono
    (show _ ≤ (1 / 2 ^ 50 : ℚ) by norm_num)
  have nearest := BinaryRounding.abs_nearestEven_sub_le
    (double (get_double desc * double ticksPerDay))
  have triangle := abs_sub_le (dayTicks desc : ℚ) (double (get_double desc * double ticksPerDay))
    (number desc * ticksPerDay)
  rw [BinaryRounding.Near, one_div, inv_mul_eq_div] at rounded
  rw [← dayTicks] at nearest
  linarith

/-- Whole days are exact, as far as their ticks are numbers of 53 bits. -/
theorem dayTicks_whole {desc : Exact} (whole : desc.dsc_scale = 0)
    (small : |desc.value * ticksPerDay| < 2 ^ 53) : dayTicks desc = desc.value * ticksPerDay := by
  have value_small : |desc.value| < 2 ^ 53 := by
    have day_eq : ticksPerDay = 864000000 := rfl
    rw [day_eq, abs_lt] at small
    rw [abs_lt]
    omega
  have value_eq : get_double desc = desc.value := by
    rw [get_double, if_pos whole]
    exact BinaryRounding.round_intCast value_small
  have product : double (get_double desc * double ticksPerDay) =
      ((desc.value * ticksPerDay : ℤ) : ℚ) := by
    rw [value_eq, double_ticksPerDay, ← Int.cast_mul]
    exact BinaryRounding.round_intCast small
  rw [dayTicks, product, BinaryRounding.nearestEven_intCast]

/-- The timestamp of a count of ticks, or the error of the range. -/
def timestampOrError (sum : Int) : Except DateError DateResult :=
  if isValidDate (sum / ticksPerDay) then
    .ok (.timestamp ⟨sum / ticksPerDay, (sum % ticksPerDay).toNat⟩)
  else .error .datetime_range_exceeded

theorem time_of_ticks_valid (sum : Int) : isValidTime (sum % ticksPerDay).toNat := by
  have rest_nonneg := Int.emod_nonneg sum (show ticksPerDay ≠ 0 by decide)
  have rest_lt := Int.emod_lt_of_pos sum (show 0 < ticksPerDay by decide)
  have day_eq : ticksPerDay = 864000000 := rfl
  rw [day_eq] at rest_lt rest_nonneg ⊢
  rw [isValidTime, secondsPrecision]
  omega

/-- A sum of ticks whose day is a number of 32 bits fits 64 bits. -/
theorem sum_fits {sum : Int} (fits : ExactType.long.Fits (sum / ticksPerDay)) :
    ExactType.int64.Fits sum := by
  have day_eq : ticksPerDay = 864000000 := rfl
  rw [day_eq] at fits
  simp only [ExactType.Fits, ExactType.bits] at fits ⊢
  omega

/-- A timestamp and a number of days. -/
theorem addTimeStamp_days {value : GdsTimestamp} {desc : Exact}
    (ticks_fit : ExactType.int64.Fits (dayTicks desc))
    (fits : ExactType.long.Fits (combined blrOp (ticksOf value) (dayTicks desc) / ticksPerDay)) :
    addTimeStamp unspecified dialect1 blrOp (.timestamp value) (.exact desc) =
      timestampOrError (combined blrOp (ticksOf value) (dayTicks desc)) := by
  have fraction : getDayFraction unspecified (.exact desc) = .ok (dayTicks desc) := by
    rw [getDayFraction, llrint]
    exact congrArg Except.ok (if_pos ticks_fit)
  have sum_eq : operate blrOp (ticksOf value) (dayTicks desc) =
      combined blrOp (ticksOf value) (dayTicks desc) := ExactType.wrap_of_fits (sum_fits fits)
  unfold addTimeStamp
  simp only [Operand.isTimestamp, Bool.false_eq_true, and_false, if_false, if_true, reduceCtorEq,
    fraction, getTimeStampToIscTicks, bind, Except.bind, sum_eq, toTimestamp_eq fits,
    time_of_ticks_valid, and_true]
  rfl

/-- A number of days and a timestamp. -/
theorem addTimeStamp_comm (value : GdsTimestamp) (desc : Exact) :
    addTimeStamp unspecified dialect1 .add (.exact desc) (.timestamp value) =
      addTimeStamp unspecified dialect1 .add (.timestamp value) (.exact desc) := by
  have commutes (ticks : Int) : operate .add ticks (ticksOf value) = operate .add (ticksOf value) ticks :=
    congrArg ExactType.int64.wrap (Int.add_comm ticks (ticksOf value))
  unfold addTimeStamp
  simp only [Operand.isTimestamp, Bool.false_eq_true, and_false, if_false, if_true, reduceCtorEq,
    false_and, getTimeStampToIscTicks, getDayFraction, bind, Except.bind, commutes]

/-! ## The results -/

/-- A number of seconds and a time. -/
theorem addSqlTime_comm (time : Nat) (desc : Exact) :
    addSqlTime .add (.exact desc) (.sql_time time) = addSqlTime .add (.sql_time time) (.exact desc) := by
  have ticks : (Operand.exact desc).ticks = (Operand.exact desc).get_int64 secondsPrecisionScale := rfl
  have commutes (ticks : Int) : operate .add ticks time = operate .add time ticks :=
    congrArg ExactType.int64.wrap (Int.add_comm ticks time)
  rw [addSqlTime, addSqlTime, ticks, get_int64_exact desc (by decide) (by decide)]
  by_cases fits : ExactType.int64.Fits (desc.rescaled secondsPrecisionScale)
  · rw [if_pos fits]
    simp only [Operand.ticks, bind, Except.bind, commutes]
    rfl
  · rw [if_neg fits]
    rfl

/-- What becomes of a date, a time and a timestamp and a number that is added or subtracted.  A number
that is added may also stand in front. -/
theorem datetime_arithmetic_yields (blrOp : BlrOp) (desc : Exact) :
    (∀ date, isValidDate date →
      let days := desc.rescaled 0
      let sum := combined blrOp date days
      let result := addSqlDate blrOp (.sql_date date) (.exact desc)
      (ExactType.int64.Fits days → isValidDate sum → result = .ok (.sql_date sum)) ∧
        (ExactType.int64.Fits days → (∀ other, isValidDate other → other % 2 ^ 32 ≠ sum % 2 ^ 32) →
          result = .error .date_range_exceeded) ∧
        (¬ExactType.int64.Fits days → result = .error (.operand .outOfRange)) ∧
        ∀ later back, addSqlDate .add (.sql_date date) (.exact desc) = .ok (.sql_date later) →
          addSqlDate .subtract (.sql_date later) (.exact desc) = .ok back → back = .sql_date date) ∧
    (∀ time, isValidTime time →
      let ticks := desc.rescaled secondsPrecisionScale
      let sum := combined blrOp time ticks
      let result := addSqlTime blrOp (.sql_time time) (.exact desc)
      (ExactType.int64.Fits ticks → ExactType.int64.Fits sum →
          result = .ok (.sql_time (sum % ticksPerDay).toNat)) ∧
        (¬ExactType.int64.Fits ticks → result = .error (.operand .outOfRange))) ∧
    (∀ unspecified dialect1 value, isValidDate value.timestamp_date → isValidTime value.timestamp_time →
      let sum := combined blrOp (ticksOf value) (dayTicks desc)
      ExactType.int64.Fits (dayTicks desc) → ExactType.long.Fits (sum / ticksPerDay) →
        addTimeStamp unspecified dialect1 blrOp (.timestamp value) (.exact desc) =
          timestampOrError sum) ∧
    |(dayTicks desc : ℚ) - number desc * ticksPerDay| ≤
      1 / 2 + |number desc * ticksPerDay| / 2 ^ 50 ∧
    (desc.dsc_scale = 0 → |desc.value * ticksPerDay| < 2 ^ 53 →
      dayTicks desc = desc.value * ticksPerDay) ∧
    (∀ date, addSqlDate .add (.exact desc) (.sql_date date) =
      addSqlDate .add (.sql_date date) (.exact desc)) ∧
    (∀ time, addSqlTime .add (.exact desc) (.sql_time time) =
      addSqlTime .add (.sql_time time) (.exact desc)) ∧
    ∀ unspecified dialect1 value,
      addTimeStamp unspecified dialect1 .add (.exact desc) (.timestamp value) =
        addTimeStamp unspecified dialect1 .add (.timestamp value) (.exact desc) := by
  refine ⟨fun date valid => ⟨addSqlDate_inside, addSqlDate_outside, fun wide => ?_,
    fun later back => addSqlDate_back valid⟩, fun time valid => ⟨fun fits sum_fits => ?_,
    fun wide => ?_⟩, fun unspecified dialect1 value _ _ => addTimeStamp_days, dayTicks_near desc,
    dayTicks_whole, fun date => addSqlDate_comm date desc, fun time => addSqlTime_comm time desc,
    fun _ _ value => addTimeStamp_comm value desc⟩
  · rw [addSqlDate_days, if_neg wide]
  · rw [addSqlTime_seconds, if_pos fits, operate_eq, ExactType.wrap_of_fits sum_fits]
  · rw [addSqlTime_seconds, if_neg wide]

/-- Half a day before the first one. -/
theorem datetime_arithmetic_yields_before :
    addTimeStamp (fun _ => 0) false .subtract (.timestamp ⟨0, 432000000⟩)
        (.exact ⟨.int64, 1, 0, by decide, by decide⟩) = timestampOrError (-432000000) := by
  have yields := datetime_arithmetic_yields .subtract ⟨.int64, 1, 0, by decide, by decide⟩
  have whole := yields.2.2.2.2.1 rfl (by decide)
  have result := yields.2.2.1 (fun _ => 0) false ⟨0, 432000000⟩ (by decide) (by decide)
  rw [whole] at result
  exact result (by decide) (by decide)

/-- Seconds that do not fit 64 bits at the scale of times have a result modulo a day, but are
refused. -/
theorem not_datetime_arithmetic_time :
    ¬∀ time (desc : Exact), isValidTime time → desc.dsc_scale = 0 →
      addSqlTime .add (.sql_time time) (.exact desc) =
        .ok (.sql_time ((time + desc.value * 10000) % ticksPerDay).toNat) := by
  intro all
  have accepted := all 0 ⟨.int64, 2 ^ 63 - 1, 0, by decide, by decide⟩ (by decide) rfl
  have refused : addSqlTime .add (.sql_time 0)
      (.exact ⟨.int64, 2 ^ 63 - 1, 0, by decide, by decide⟩) = .error (.operand .outOfRange) := by rfl
  exact absurd (refused.symm.trans accepted) nofun

end ArithmeticNode
end Firebird
