import Firebird.Dsql.DateArithmeticExact

/-!
# Differences of dates and times

The difference of two dates is a number of days, that of two times one of seconds, and that of two
timestamps one of days with nine decimal places.  Added to the second operand it gives the first one
again.  For timestamps the sum is computed with a `double`, which has room for the ticks of some
centuries only: after that the sum may be off by a tick.
-/

namespace Firebird
namespace ArithmeticNode

open Cvt TimeStamp

/-! ## Dates and times -/

theorem days_fit {first second : Int} (valid : isValidDate first) (also : isValidDate second) :
    ExactType.int64.Fits (first - second) := by
  simp only [isValidDate, minDate, maxDate] at valid also
  simp only [ExactType.Fits, ExactType.bits]
  omega

theorem days_scale_fits : -128 ≤ (0 : Int) ∧ (0 : Int) ≤ 127 := by decide

/-- The number of days between two dates. -/
def dateDifference (first second : Int) (valid : isValidDate first) (also : isValidDate second) :
    Exact where
  dsc_dtype := .int64
  value := first - second
  dsc_scale := 0
  value_fits := days_fit valid also
  scale_fits := days_scale_fits

theorem seconds_fit {first second : Nat} (valid : isValidTime first) (also : isValidTime second) :
    ExactType.long.Fits ((first : Int) - second) := by
  simp only [isValidTime, secondsPrecision] at valid also
  simp only [ExactType.Fits, ExactType.bits]
  omega

theorem seconds_scale_fits : -128 ≤ secondsPrecisionScale ∧ secondsPrecisionScale ≤ 127 := by decide

/-- The number of seconds between two times. -/
def timeDifference (first second : Nat) (valid : isValidTime first) (also : isValidTime second) :
    Exact where
  dsc_dtype := .long
  value := first - second
  dsc_scale := secondsPrecisionScale
  value_fits := seconds_fit valid also
  scale_fits := seconds_scale_fits

theorem time_lt {time : Nat} (valid : isValidTime time) : (time : Int) < ticksPerDay := by
  have day_eq : ticksPerDay = 864000000 := rfl
  rw [isValidTime, secondsPrecision] at valid
  omega

theorem rescaled_self (desc : Exact) : desc.rescaled desc.dsc_scale = desc.value := by
  rw [Exact.rescaled, sub_self, zpow_zero, mul_one, HalfAway.halfAway_intCast]

theorem addSqlDate_difference {first second : Int} (valid : isValidDate first)
    (also : isValidDate second) :
    addSqlDate .add (.sql_date second) (.exact (dateDifference first second valid also)) =
      .ok (.sql_date first) := by
  have days : (dateDifference first second valid also).rescaled 0 = first - second :=
    rescaled_self (dateDifference first second valid also)
  have sum : combined .add second (first - second) = first := by
    rw [combined, if_neg (by decide)]
    omega
  rw [addSqlDate_inside (days ▸ (dateDifference first second valid also).value_fits.int64)
    (by rw [days, sum]; exact valid), days, sum]

theorem addSqlTime_difference {first second : Nat} (valid : isValidTime first)
    (also : isValidTime second) :
    addSqlTime .add (.sql_time second) (.exact (timeDifference first second valid also)) =
      .ok (.sql_time first) := by
  have ticks : (timeDifference first second valid also).rescaled secondsPrecisionScale =
      first - second := rescaled_self (timeDifference first second valid also)
  have day_eq : ticksPerDay = 864000000 := rfl
  have less := time_lt valid
  have sum : combined .add second (first - second) = first := by
    rw [combined, if_neg (by decide)]
    omega
  have sum_fits : ExactType.int64.Fits first := by
    simp only [ExactType.Fits, ExactType.bits]
    omega
  have fits : ExactType.int64.Fits ((first : Int) - second) :=
    (timeDifference first second valid also).value_fits.int64
  rw [addSqlTime_seconds, ticks, if_pos fits, operate_eq, sum, ExactType.wrap_of_fits sum_fits,
    Int.emod_eq_of_lt (Int.natCast_nonneg _) less, Int.toNat_natCast]

/-! ## Timestamps -/

theorem ticksOf_range {value : GdsTimestamp} (date : isValidDate value.timestamp_date)
    (time : isValidTime value.timestamp_time) :
    minDate * ticksPerDay ≤ ticksOf value ∧ ticksOf value < (maxDate + 1) * ticksPerDay := by
  have day_eq : ticksPerDay = 864000000 := rfl
  have less := time_lt time
  simp only [isValidDate, minDate, maxDate] at date
  rw [day_eq] at less
  rw [ticksOf, day_eq, minDate, maxDate]
  omega

/-- The ticks of a timestamp are taken apart into its date and its time. -/
theorem timestampOrError_ticksOf {value : GdsTimestamp} (date : isValidDate value.timestamp_date)
    (time : isValidTime value.timestamp_time) :
    timestampOrError (ticksOf value) = .ok (.timestamp value) := by
  have less := time_lt time
  have day := Int.add_mul_ediv_right value.timestamp_time value.timestamp_date
    (show ticksPerDay ≠ 0 by decide)
  have date_eq : ticksOf value / ticksPerDay = value.timestamp_date := by
    rw [ticksOf, add_comm, day, Int.ediv_eq_zero_of_lt (Int.natCast_nonneg _) less, zero_add]
  have time_eq : (ticksOf value % ticksPerDay).toNat = value.timestamp_time := by
    rw [ticksOf, add_comm, Int.add_mul_emod_self_right,
      Int.emod_eq_of_lt (Int.natCast_nonneg _) less, Int.toNat_natCast]
  rw [timestampOrError, date_eq, time_eq, if_pos date]

/-- The number of days between two timestamps, with nine decimal places. -/
def timestampDays (ticks : Int) : Int :=
  if ticks ≥ 0 then (ticks * 1000 + 432).tdiv 864 else (ticks * 1000 - 432).tdiv 864

theorem timestampDifference_eq (ticks : Int) :
    timestampDifference false ticks = .difference (timestampDays ticks) dialect3TimestampScale := by
  rw [timestampDifference, if_neg Bool.false_ne_true, timestampDays]
  split_ifs <;> rfl

/-- The quotient is rounded to the nearest number. -/
theorem timestampDays_near (ticks : Int) :
    ticks * 1000 - 432 ≤ timestampDays ticks * 864 ∧
      timestampDays ticks * 864 ≤ ticks * 1000 + 432 := by
  rw [timestampDays]
  split_ifs with positive
  · rw [Int.tdiv_eq_ediv_of_nonneg (by omega)]
    omega
  · rw [show ticks * 1000 - 432 = -(432 - ticks * 1000) by ring, Int.neg_tdiv,
      Int.tdiv_eq_ediv_of_nonneg (by omega)]
    omega

theorem timestampDays_fit {ticks : Int} (near : |ticks| ≤ 2 ^ 52) :
    ExactType.int64.Fits (timestampDays ticks) := by
  have rounded := timestampDays_near ticks
  rw [abs_le] at near
  simp only [ExactType.Fits, ExactType.bits]
  omega

theorem timestamp_scale_fits :
    -128 ≤ dialect3TimestampScale ∧ dialect3TimestampScale ≤ 127 := by decide

/-- The difference of two timestamps as it is stored. -/
def timestampDesc (first second : GdsTimestamp)
    (near : |ticksOf first - ticksOf second| ≤ 2 ^ 52) : Exact where
  dsc_dtype := .int64
  value := timestampDays (ticksOf first - ticksOf second)
  dsc_scale := dialect3TimestampScale
  value_fits := timestampDays_fit near
  scale_fits := timestamp_scale_fits

theorem powerOfTen_nine : powerOfTen 9 = 10 ^ 9 := by
  have one_eq : double (10 ^ (9 / 32 * 32)) = 1 := by
    have exact_one := @BinaryRounding.round_intCast 52 1 (by decide)
    rw [Int.cast_one] at exact_one
    exact exact_one
  have power_eq : double (10 ^ 9) = 10 ^ 9 := by
    have exact_power := @BinaryRounding.round_intCast 52 (10 ^ 9) (by decide)
    rw [Int.cast_pow] at exact_power
    exact exact_power
  rw [powerOfTen, one_eq, one_mul]
  exact (congrArg double power_eq).trans power_eq

/-- The ticks that are added for a number of days with nine decimal places, before they are rounded:
only the quotient and the product are not exact. -/
theorem near_product {desc : Exact} (nine : desc.dsc_scale = dialect3TimestampScale)
    (small : |desc.value| < 2 ^ 53) :
    |double (get_double desc * double ticksPerDay) - desc.value * (864 / 1000 : ℚ)| ≤
      |desc.value * (864 / 1000 : ℚ)| * ((2 ^ 54 + 1) / 2 ^ 106) := by
  have quotient : get_double desc = double (desc.value / 10 ^ 9) := by
    have value_eq : double (desc.value : ℚ) = desc.value := BinaryRounding.round_intCast small
    rw [get_double, nine, if_neg (by decide), if_neg (by decide), value_eq]
    exact congrArg (fun power => double (desc.value / power)) powerOfTen_nine
  have exact_ticks : BinaryRounding.Near 0 (double ticksPerDay) ticksPerDay := by
    rw [double_ticksPerDay, BinaryRounding.Near, sub_self, abs_zero, zero_mul]
  have product := (near_double (desc.value / 10 ^ 9)).mul exact_ticks (by norm_num)
  have rounded := product.trans (near_double _) (by norm_num)
  have ticks_eq : (desc.value / 10 ^ 9 : ℚ) * ticksPerDay = desc.value * (864 / 1000) := by
    rw [show (ticksPerDay : ℚ) = 864000000 by rfl]
    ring
  rw [← quotient, ticks_eq, BinaryRounding.Near] at rounded
  refine rounded.trans (le_of_eq ?_)
  rw [mul_comm]
  norm_num

/-- The ticks of the difference of two timestamps, before they are rounded. -/
theorem near_difference {desc : Exact} {ticks : Int}
    (nine : desc.dsc_scale = dialect3TimestampScale) (value_eq : desc.value = timestampDays ticks)
    (small : |ticks| ≤ 2 ^ 52) :
    |double (get_double desc * double ticksPerDay) - ticks| ≤
      432 / 1000 + (|(ticks : ℚ)| + 1) * ((2 ^ 54 + 1) / 2 ^ 106) := by
  have rounded := timestampDays_near ticks
  rw [← value_eq] at rounded
  have apart : |desc.value * (864 / 1000 : ℚ) - ticks| ≤ 432 / 1000 := by
    have low : (ticks : ℚ) * 1000 - 432 ≤ desc.value * 864 := by exact_mod_cast rounded.1
    have high : (desc.value : ℚ) * 864 ≤ ticks * 1000 + 432 := by exact_mod_cast rounded.2
    rw [abs_le]
    constructor <;> linarith
  have value_small : |desc.value| < 2 ^ 53 := by
    rw [abs_le] at small
    rw [abs_lt]
    omega
  have product := near_product nine value_small
  have size : |desc.value * (864 / 1000 : ℚ)| ≤ |(ticks : ℚ)| + 1 := by
    have triangle := abs_sub_abs_le_abs_sub (desc.value * (864 / 1000 : ℚ)) ticks
    linarith
  have scaled := mul_le_mul_of_nonneg_right size
    (show (0 : ℚ) ≤ (2 ^ 54 + 1) / 2 ^ 106 by positivity)
  have triangle := abs_sub_le (double (get_double desc * double ticksPerDay))
    (desc.value * (864 / 1000 : ℚ)) ticks
  linarith

/-- The ticks of a difference are the exact ones within some centuries, and one off at most. -/
theorem dayTicks_difference {desc : Exact} {ticks : Int}
    (nine : desc.dsc_scale = dialect3TimestampScale) (value_eq : desc.value = timestampDays ticks) :
    (|ticks| ≤ 3 * 10 ^ 14 → dayTicks desc = ticks) ∧
      (|ticks| < 3652059 * ticksPerDay → |dayTicks desc - ticks| ≤ 1) := by
  constructor
  · intro close
    have near := near_difference nine value_eq (close.trans (by norm_num))
    have close_cast : |(ticks : ℚ)| ≤ 3 * 10 ^ 14 := by exact_mod_cast close
    have bound : (|(ticks : ℚ)| + 1) * ((2 ^ 54 + 1) / 2 ^ 106) ≤
        (3 * 10 ^ 14 + 1) * ((2 ^ 54 + 1) / 2 ^ 106) := by gcongr
    refine BinaryRounding.nearestEven_eq ((near.trans (add_le_add_right bound _)).trans_lt ?_)
    norm_num
  · intro inside
    rw [show ticksPerDay = 864000000 from rfl] at inside
    have near := near_difference nine value_eq (inside.le.trans (by norm_num))
    have inside_cast : |(ticks : ℚ)| ≤ 3652059 * 864000000 := by exact_mod_cast inside.le
    have bound : (|(ticks : ℚ)| + 1) * ((2 ^ 54 + 1) / 2 ^ 106) ≤
        (3652059 * 864000000 + 1) * ((2 ^ 54 + 1) / 2 ^ 106) := by gcongr
    have nearest := BinaryRounding.abs_nearestEven_sub_le
      (double (get_double desc * double ticksPerDay))
    rw [← dayTicks] at nearest
    have triangle := abs_sub_le (dayTicks desc : ℚ) (double (get_double desc * double ticksPerDay))
      ticks
    have less : |((dayTicks desc - ticks : ℤ) : ℚ)| < 2 := by
      have total : (432 / 1000 + (3652059 * 864000000 + 1) * ((2 ^ 54 + 1) / 2 ^ 106) : ℚ) <
          3 / 2 := by norm_num
      push_cast
      linarith
    have less_int : |dayTicks desc - ticks| < 2 := by exact_mod_cast less
    omega

/-- A difference that is added to the second operand gives the first one: for dates and times
always, for timestamps if they are at most 3 * 10 ^ 14 ticks (some 950 years) apart.  Any two
timestamps are met within a tick. -/
theorem difference_added_back :
    (∀ first second, isValidDate first → isValidDate second → ∃ desc : Exact,
      addSqlDate .subtract (.sql_date first) (.sql_date second) =
          .ok (.difference desc.value desc.dsc_scale) ∧
        addSqlDate .add (.sql_date second) (.exact desc) = .ok (.sql_date first)) ∧
    (∀ first second, isValidTime first → isValidTime second → ∃ desc : Exact,
      addSqlTime .subtract (.sql_time first) (.sql_time second) =
          .ok (.difference desc.value desc.dsc_scale) ∧
        addSqlTime .add (.sql_time second) (.exact desc) = .ok (.sql_time first)) ∧
    ∀ unspecified first second, isValidDate first.timestamp_date →
      isValidTime first.timestamp_time → isValidDate second.timestamp_date →
      isValidTime second.timestamp_time → ∃ desc : Exact,
        addTimeStamp unspecified false .subtract (.timestamp first) (.timestamp second) =
            .ok (.difference desc.value desc.dsc_scale) ∧
          (|ticksOf first - ticksOf second| ≤ 3 * 10 ^ 14 →
            addTimeStamp unspecified false .add (.timestamp second) (.exact desc) =
              .ok (.timestamp first)) ∧
          ∃ error : Int, |error| ≤ 1 ∧
            addTimeStamp unspecified false .add (.timestamp second) (.exact desc) =
              timestampOrError (ticksOf first + error) := by
  refine ⟨fun first second valid also => ⟨dateDifference first second valid also, rfl,
    addSqlDate_difference valid also⟩, fun first second valid also =>
      ⟨timeDifference first second valid also, rfl, addSqlTime_difference valid also⟩, ?_⟩
  intro unspecified first second date time second_date second_time
  have day_eq : ticksPerDay = 864000000 := rfl
  have first_range := ticksOf_range date time
  have second_range := ticksOf_range second_date second_time
  simp only [minDate, maxDate, day_eq] at first_range second_range
  have apart : |ticksOf first - ticksOf second| < 3652059 * ticksPerDay := by
    rw [abs_lt]
    omega
  let desc := timestampDesc first second (apart.le.trans (by decide))
  obtain ⟨exact_ticks, near_ticks⟩ := @dayTicks_difference desc _ rfl rfl
  have near := abs_le.mp (near_ticks apart)
  have sum_eq : combined .add (ticksOf second) (dayTicks desc) =
      ticksOf first + (dayTicks desc - (ticksOf first - ticksOf second)) := by
    rw [combined, if_neg (by decide)]
    ring
  have added : addTimeStamp unspecified false .add (.timestamp second) (.exact desc) =
      timestampOrError (ticksOf first + (dayTicks desc - (ticksOf first - ticksOf second))) := by
    have ticks_fit : ExactType.int64.Fits (dayTicks desc) := by
      simp only [ExactType.Fits, ExactType.bits]
      omega
    have sum_fits : ExactType.long.Fits
        (combined .add (ticksOf second) (dayTicks desc) / ticksPerDay) := by
      rw [sum_eq, day_eq]
      simp only [ExactType.Fits, ExactType.bits]
      omega
    rw [addTimeStamp_days ticks_fit sum_fits, sum_eq]
  refine ⟨desc, congrArg Except.ok (timestampDifference_eq _), fun close => ?_,
    _, near_ticks apart, added⟩
  rw [added, exact_ticks close, sub_self, add_zero, timestampOrError_ticksOf date time]

/-- Two dates and two timestamps. -/
theorem difference_added_back_examples :
    (∃ desc : Exact, addSqlDate .subtract (.sql_date 60000) (.sql_date (-5)) =
        .ok (.difference desc.value desc.dsc_scale) ∧
      addSqlDate .add (.sql_date (-5)) (.exact desc) = .ok (.sql_date 60000)) ∧
    ∃ desc : Exact, addTimeStamp (fun _ => 0) false .subtract (.timestamp ⟨60000, 1⟩)
        (.timestamp ⟨-5, 863999999⟩) = .ok (.difference desc.value desc.dsc_scale) ∧
      addTimeStamp (fun _ => 0) false .add (.timestamp ⟨-5, 863999999⟩) (.exact desc) =
        .ok (.timestamp ⟨60000, 1⟩) := by
  refine ⟨difference_added_back.1 60000 (-5) (by decide) (by decide), ?_⟩
  obtain ⟨desc, difference, sum, -⟩ := difference_added_back.2.2 (fun _ => 0) ⟨60000, 1⟩
    ⟨-5, 863999999⟩ (by decide) (by decide) (by decide) (by decide)
  exact ⟨desc, difference, sum (by decide)⟩

/-- After more than eight thousand years the sum is one tick short. -/
example :
    addTimeStamp (fun _ => 0) false .subtract (.timestamp ⟨2554854, 308940641⟩)
          (.timestamp ⟨-678575, 0⟩) =
        .ok (.difference 3233429357570186 (-9)) ∧
      addTimeStamp (fun _ => 0) false .add (.timestamp ⟨-678575, 0⟩)
          (.exact ⟨.int64, 3233429357570186, -9, by decide, by decide⟩) =
        .ok (.timestamp ⟨2554854, 308940640⟩) := by
  decide +kernel

end ArithmeticNode
end Firebird
