import Firebird.Dsql.Arithmetic
import Mathlib.Tactic.FieldSimp

/-!
# What the arithmetic of exact numbers delivers

Each operation gives the exact result at the scale of the node or an error.  Addition and subtraction
also report operands that leave 64 bits when they are brought to the common scale.  Division is the one
of a dividend that has been multiplied by ten as often as there was need and room, by a divisor from
which zeros have been taken where that was not enough.
-/

namespace Firebird
namespace ArithmeticNode

open Cvt

/-- The result is the value if the condition holds, and the report of an overflow otherwise. -/
def Yields (fits : Prop) (value : Int) (result : Except ArithmeticError Int) : Prop :=
  (fits → result = .ok value) ∧ (¬fits → ∃ error, result = .error error ∧ error.IsOverflow)

/-- The number that a descriptor stands for. -/
def number (desc : Exact) : ℚ := (desc.value : ℚ) * 10 ^ desc.dsc_scale

/-- The value in units of a scale that is not above the one of the descriptor. -/
def scaled (desc : Exact) (scale : Int) : Int := desc.value * 10 ^ (desc.dsc_scale - scale).toNat

theorem scaled_number {desc : Exact} {scale : Int} (below : scale ≤ desc.dsc_scale) :
    (scaled desc scale : ℚ) * 10 ^ scale = number desc := by
  obtain ⟨steps, steps_eq⟩ := Int.eq_ofNat_of_zero_le (show 0 ≤ desc.dsc_scale - scale by omega)
  have scale_eq : desc.dsc_scale = steps + scale := by omega
  rw [scaled, number, steps_eq, Int.toNat_natCast, scale_eq, zpow_add₀ (by norm_num : (10 : ℚ) ≠ 0),
    zpow_natCast]
  push_cast
  ring

/-! ## The operands -/

theorem mov_get_int64_same (desc : Exact) : mov_get_int64 desc desc.dsc_scale = .ok desc.value := by
  rw [mov_get_int64, get_int64_same]
  rfl

/-- An operand is brought to a lower scale if it fits. -/
theorem mov_get_int64_scaled {desc : Exact} {scale : Int} (below : scale ≤ desc.dsc_scale)
    (least : -128 ≤ scale) :
    mov_get_int64 desc scale =
      if ExactType.int64.Fits (scaled desc scale) then .ok (scaled desc scale)
      else .error (.operand .outOfRange) := by
  have scale_le := desc.scale_fits.2
  have short : ExactType.short.Fits (scale - desc.dsc_scale) := by
    simp only [ExactType.Fits, ExactType.bits]
    omega
  have delivers := @multiplyLoop_delivers .int64 (-(scale - desc.dsc_scale)).toNat desc.value
    (by decide) desc.value_fits.int64
  rw [Delivers, neg_sub] at delivers
  rw [mov_get_int64, get_int64, ExactType.wrap_of_fits short, adjust, if_neg (by omega), neg_sub,
    delivers, scaled]
  split <;> rfl

/-! ## Addition and subtraction -/

theorem ofInt_toInt {i : Int} (fits : ExactType.int64.Fits i) : (BitVec.ofInt 64 i).toInt = i := by
  simp only [ExactType.Fits, ExactType.bits] at fits
  rw [BitVec.toInt_ofInt, Int.bmod_eq_emod]
  split <;> omega

/-- The sign of the exclusive or tells whether two values have the same sign. -/
theorem xor64_nonneg_iff {first second : Int} (first_fits : ExactType.int64.Fits first)
    (second_fits : ExactType.int64.Fits second) :
    0 ≤ xor64 first second ↔ (0 ≤ first ↔ 0 ≤ second) := by
  have sign (word : BitVec 64) : 0 ≤ word.toInt ↔ word.msb = false := by
    rw [BitVec.msb_eq_toInt, decide_eq_false_iff_not, Int.not_lt]
  have first_sign := sign (BitVec.ofInt 64 first)
  have second_sign := sign (BitVec.ofInt 64 second)
  rw [ofInt_toInt first_fits] at first_sign
  rw [ofInt_toInt second_fits] at second_sign
  rw [xor64, sign, BitVec.msb_xor, first_sign, second_sign]
  cases (BitVec.ofInt 64 first).msb <;> cases (BitVec.ofInt 64 second).msb <;> simp

theorem xor64_fits (first second : Int) : ExactType.int64.Fits (xor64 first second) :=
  ⟨BitVec.le_toInt _, BitVec.toInt_lt⟩

theorem wrap_fits (value : Int) : ExactType.int64.Fits (ExactType.int64.wrap value) := by
  simp only [ExactType.Fits, ExactType.wrap, ExactType.bits]
  omega

/-- The test of the signs finds the sums that do not fit. -/
theorem sum_overflows_iff {i1 i2 : Int} (first_fits : ExactType.int64.Fits i1)
    (second_fits : ExactType.int64.Fits i2) :
    xor64 i1 i2 ≥ 0 ∧ xor64 i1 (ExactType.int64.wrap (i1 + i2)) < 0 ↔
      ¬ExactType.int64.Fits (i1 + i2) := by
  have operands := xor64_nonneg_iff first_fits second_fits
  have result := xor64_nonneg_iff first_fits (wrap_fits (i1 + i2))
  rw [ge_iff_le, operands, ← not_le, result]
  simp only [ExactType.Fits, ExactType.wrap, ExactType.bits] at first_fits second_fits ⊢
  omega

/-- With the sign of the subtrahend inverted, the test finds the differences that do not fit. -/
theorem difference_overflows_iff {i1 i2 : Int} (first_fits : ExactType.int64.Fits i1)
    (second_fits : ExactType.int64.Fits i2) :
    xor64 (xor64 i1 minSint64) i2 ≥ 0 ∧
        xor64 (xor64 i1 minSint64) (ExactType.int64.wrap (i2 - i1)) < 0 ↔
      ¬ExactType.int64.Fits (i2 - i1) := by
  have inverted := xor64_nonneg_iff first_fits (show ExactType.int64.Fits minSint64 by decide)
  have operands := xor64_nonneg_iff (xor64_fits i1 minSint64) second_fits
  have result := xor64_nonneg_iff (xor64_fits i1 minSint64) (wrap_fits (i2 - i1))
  rw [ge_iff_le, operands, ← not_le, result, inverted]
  simp only [ExactType.Fits, ExactType.wrap, ExactType.bits, minSint64] at first_fits second_fits ⊢
  omega

/-- The exact sum or difference of operands at one scale. -/
def combined (blrOp : BlrOp) (left right : Int) : Int :=
  if blrOp = .subtract then left - right else left + right

/-- The operands and the result of an addition or a subtraction fit 64 bits. -/
def SumFits (blrOp : BlrOp) (scale : Int) (left right : Exact) : Prop :=
  ExactType.int64.Fits (scaled left scale) ∧ ExactType.int64.Fits (scaled right scale) ∧
    ExactType.int64.Fits (combined blrOp (scaled left scale) (scaled right scale))

theorem add2_yields (blrOp : BlrOp) {scale : Int} {left right : Exact} (least : -128 ≤ scale)
    (left_below : scale ≤ left.dsc_scale) (right_below : scale ≤ right.dsc_scale) :
    Yields (SumFits blrOp scale left right) (combined blrOp (scaled left scale) (scaled right scale))
      (add2 blrOp scale right left) := by
  rw [add2, mov_get_int64_scaled right_below least, mov_get_int64_scaled left_below least]
  by_cases right_fits : ExactType.int64.Fits (scaled right scale)
  swap
  · rw [if_neg right_fits]
    exact ⟨fun all => absurd all.2.1 right_fits, fun _ => ⟨_, rfl, Or.inl rfl⟩⟩
  by_cases left_fits : ExactType.int64.Fits (scaled left scale)
  swap
  · rw [if_pos right_fits, if_neg left_fits]
    exact ⟨fun all => absurd all.1 left_fits, fun _ => ⟨_, rfl, Or.inl rfl⟩⟩
  rw [if_pos right_fits, if_pos left_fits]
  have overflow : ∀ i1 sum : Int, (xor64 i1 (scaled left scale) ≥ 0 ∧
      xor64 i1 (ExactType.int64.wrap sum) < 0 ↔ ¬ExactType.int64.Fits sum) →
      sum = combined blrOp (scaled left scale) (scaled right scale) →
      Yields (SumFits blrOp scale left right) (combined blrOp (scaled left scale) (scaled right scale))
        (if xor64 i1 (scaled left scale) ≥ 0 ∧ xor64 i1 (ExactType.int64.wrap sum) < 0 then
          .error .integer_overflow else .ok (ExactType.int64.wrap sum)) := by
    intro i1 sum test sum_eq
    rw [SumFits, ← sum_eq]
    by_cases fits : ExactType.int64.Fits sum
    · rw [if_neg (mt test.mp (not_not.mpr fits)), ExactType.wrap_of_fits fits]
      exact ⟨fun _ => rfl, fun wrong => absurd ⟨left_fits, right_fits, fits⟩ wrong⟩
    · rw [if_pos (test.mpr fits)]
      exact ⟨fun all => absurd all.2.2 fits, fun _ => ⟨_, rfl, Or.inr (Or.inl rfl)⟩⟩
  by_cases subtract : blrOp = .subtract
  · have result := overflow _ _ (difference_overflows_iff right_fits left_fits)
      (by rw [combined, if_pos subtract])
    simpa only [bind, Except.bind, if_pos subtract] using result
  · have result := overflow _ _ (sum_overflows_iff right_fits left_fits)
      (by rw [combined, if_neg subtract, Int.add_comm])
    simpa only [bind, Except.bind, if_neg subtract] using result

/-! ## Multiplication -/

theorem magnitude_eq {i : Int} (fits : ExactType.int64.Fits i) : magnitude i = i.natAbs := by
  simp only [ExactType.Fits, ExactType.bits, magnitude, ExactType.wrap] at fits ⊢
  split <;> omega

/-- The trial division finds the products that do not fit. -/
theorem product_overflows_iff {i1 i2 : Int} (first_fits : ExactType.int64.Fits i1)
    (second_fits : ExactType.int64.Fits i2) :
    (magnitude i1 ≠ 0 ∧ (if xor64 i1 i2 ≥ 0 then maxSint64.toNat else maxSint64.toNat + 1) /
      magnitude i1 < magnitude i2) ↔ ¬ExactType.int64.Fits (i1 * i2) := by
  rw [magnitude_eq first_fits, magnitude_eq second_fits]
  simp only [ge_iff_le, xor64_nonneg_iff first_fits second_fits]
  have product_abs := Int.natAbs_mul i1 i2
  rcases Nat.eq_zero_or_pos i1.natAbs with zero | positive
  · have zero_eq : i1 = 0 := Int.natAbs_eq_zero.mp zero
    refine iff_of_false (fun both => both.1 zero) (not_not.mpr ?_)
    rw [zero_eq, Int.zero_mul]
    decide
  · rw [Nat.div_lt_iff_lt_mul positive, Nat.mul_comm, ← product_abs]
    simp only [positive.ne', ne_eq, not_false_eq_true, true_and, ExactType.Fits, ExactType.bits]
    by_cases same : 0 ≤ i1 ↔ 0 ≤ i2
    · rw [if_pos same]
      have nonneg : 0 ≤ i1 * i2 := by
        rcases le_or_gt 0 i1 with first | first
        · exact Int.mul_nonneg first (same.mp first)
        · exact (Int.mul_pos_of_neg_of_neg first (by omega)).le
      simp only [maxSint64]
      omega
    · rw [if_neg same]
      have nonpos : i1 * i2 ≤ 0 := by
        rcases le_or_gt 0 i1 with first | first
        · exact Int.mul_nonpos_of_nonneg_of_nonpos first (by omega)
        · exact Int.mul_nonpos_of_nonpos_of_nonneg first.le (by omega)
      simp only [maxSint64]
      omega

theorem multiply2_yields {left right : Exact} {scale : Int}
    (scale_eq : scale = left.dsc_scale + right.dsc_scale) :
    Yields (ExactType.int64.Fits (left.value * right.value)) (left.value * right.value)
      (multiply2 scale right left) := by
  have right_scale : scale - left.dsc_scale = right.dsc_scale := by omega
  have overflow := product_overflows_iff right.value_fits.int64 left.value_fits.int64
  rw [multiply2, right_scale, mov_get_int64_same, mov_get_int64_same, Int.mul_comm]
  simp only [bind, Except.bind]
  by_cases fits : ExactType.int64.Fits (right.value * left.value)
  · rw [if_neg (mt overflow.mp (not_not.mpr fits)), checked64, if_pos fits]
    exact ⟨fun _ => rfl, fun wrong => absurd fits wrong⟩
  · rw [if_pos (overflow.mpr fits)]
    exact ⟨fun right => absurd right fits, fun _ => ⟨_, rfl, Or.inr (Or.inl rfl)⟩⟩

/-! ## Division -/

/-- Operands of a division that has to be scaled up by some powers of ten.  The dividend takes as many
of them as 64 bits hold, and the divisor gives as many of the others as it has zeros. -/
structure PreScaled (needed : Nat) (dividend divisor : Int) where
  up : Nat
  down : Nat
  left : Nat
  sum_eq : up + down + left = needed
  up_fits : ExactType.int64.Fits (dividend * 10 ^ up)
  up_most : up < needed → ¬ExactType.int64.Fits (dividend * 10 ^ (up + 1))
  down_divides : (10 : Int) ^ down ∣ divisor
  down_most : 0 < left → ¬(10 : Int) ^ (down + 1) ∣ divisor

/-- The quotient of the operands, truncated and then scaled up by the powers that are left. -/
def PreScaled.quotient {needed : Nat} {dividend divisor : Int}
    (preScaled : PreScaled needed dividend divisor) : Int :=
  (dividend * 10 ^ preScaled.up).tdiv (divisor.tdiv (10 ^ preScaled.down)) * 10 ^ preScaled.left

/-- There is room for another multiplication by ten. -/
theorem limit_iff (i : Int) :
    (if decide (i ≥ 0) = true then i ≤ maxInt64Limit else i ≥ minInt64Limit) ↔
      ExactType.int64.Fits (i * 10) := by
  have max_eq : maxInt64Limit = 922337203685477580 := by decide
  have min_eq : minInt64Limit = -922337203685477580 := by decide
  simp only [decide_eq_true_eq, ExactType.Fits, ExactType.bits, max_eq, min_eq]
  split <;> omega

theorem sign_mul_ten (i : Int) : decide (i * 10 ≥ 0) = decide (i ≥ 0) := by
  rw [decide_eq_decide]
  omega

/-- The loop multiplies as often as it is asked to, or until the next product does not fit. -/
theorem scaleUp_spec (needed : Nat) {i : Int} (fits : ExactType.int64.Fits i) :
    ∃ up ≤ needed, scaleUp (decide (i ≥ 0)) needed i = .ok (needed - up, i * 10 ^ up) ∧
      ExactType.int64.Fits (i * 10 ^ up) ∧
      (up < needed → ¬ExactType.int64.Fits (i * 10 ^ (up + 1))) := by
  induction needed generalizing i with
  | zero =>
      refine ⟨0, le_rfl, ?_, ?_, fun wrong => absurd wrong (Nat.lt_irrefl 0)⟩
      · rw [scaleUp, pow_zero, mul_one]
      · rwa [pow_zero, mul_one]
  | succ needed ih =>
      rw [scaleUp]
      by_cases room : ExactType.int64.Fits (i * 10)
      · obtain ⟨up, up_le, loop_eq, up_fits, up_most⟩ := ih room
        have power (count : Nat) : i * 10 * 10 ^ count = i * 10 ^ (count + 1) := by ring
        rw [power] at loop_eq up_fits up_most
        rw [sign_mul_ten] at loop_eq
        refine ⟨up + 1, Nat.succ_le_succ up_le, ?_, up_fits, fun less => up_most (by omega)⟩
        rw [if_pos ((limit_iff i).mpr room), checked64, if_pos room, Nat.add_sub_add_right]
        exact loop_eq
      · refine ⟨0, Nat.zero_le _, ?_, ?_, fun _ => ?_⟩
        · rw [if_neg (mt (limit_iff i).mp room), pow_zero, mul_one, Nat.sub_zero]
        · rwa [pow_zero, mul_one]
        · rwa [zero_add, pow_one]

/-- The loop takes as many zeros from the divisor as it is asked to, or all of them. -/
theorem scaleDown_spec (needed : Nat) (i : Int) :
    ∃ down ≤ needed, scaleDown needed i = (needed - down, i.tdiv (10 ^ down)) ∧
      (10 : Int) ^ down ∣ i ∧ (down < needed → ¬(10 : Int) ^ (down + 1) ∣ i) := by
  induction needed generalizing i with
  | zero =>
      refine ⟨0, le_rfl, ?_, one_dvd i, fun wrong => absurd wrong (Nat.lt_irrefl 0)⟩
      rw [scaleDown, pow_zero, Int.tdiv_one]
  | succ needed ih =>
      rw [scaleDown]
      by_cases zero : i.tmod 10 = 0
      · obtain ⟨down, down_le, loop_eq, divides, most⟩ := ih (i.tdiv 10)
        obtain ⟨rest, rfl⟩ := Int.dvd_of_tmod_eq_zero zero
        have rest_eq : (10 * rest).tdiv 10 = rest := Int.mul_tdiv_cancel_left rest (by decide)
        rw [rest_eq] at loop_eq divides most
        have power (count : Nat) : (10 : Int) ^ (count + 1) = 10 * 10 ^ count := pow_succ' ..
        refine ⟨down + 1, Nat.succ_le_succ down_le, ?_, ?_, fun less => ?_⟩
        · rw [if_pos zero, rest_eq, loop_eq, power, Int.mul_tdiv_mul_of_pos _ _ (by decide),
            Nat.add_sub_add_right]
        · rw [power]
          exact Int.mul_dvd_mul_left 10 divides
        · rw [power]
          exact fun divides => most (by omega) (Int.dvd_of_mul_dvd_mul_left (by decide) divides)
      · refine ⟨0, Nat.zero_le _, ?_, one_dvd i, fun _ => ?_⟩
        · rw [if_neg zero, pow_zero, Int.tdiv_one, Nat.sub_zero]
        · rw [zero_add, pow_one]
          exact mt Int.tmod_eq_zero_of_dvd zero

/-- The only quotient of values of 64 bits that does not fit. -/
theorem fits_tdiv {dividend divisor : Int} (fits : ExactType.int64.Fits dividend)
    (nonzero : divisor ≠ 0) (other : ¬(dividend = minSint64 ∧ divisor = -1)) :
    ExactType.int64.Fits (dividend.tdiv divisor) := by
  have quotient_abs : (dividend.tdiv divisor).natAbs = dividend.natAbs / divisor.natAbs :=
    Int.natAbs_tdiv dividend divisor
  by_cases large : 2 ≤ divisor.natAbs
  · have half : dividend.natAbs / divisor.natAbs ≤ dividend.natAbs / 2 :=
      Nat.div_le_div_left large (by decide)
    rw [← quotient_abs] at half
    simp only [ExactType.Fits, ExactType.bits] at fits ⊢
    omega
  · obtain rfl | rfl : divisor = 1 ∨ divisor = -1 := by omega
    · rwa [Int.tdiv_one]
    · have not_least : dividend ≠ minSint64 := fun least => other ⟨least, rfl⟩
      rw [Int.tdiv_neg, Int.tdiv_one]
      simp only [ExactType.Fits, ExactType.bits, minSint64] at fits not_least ⊢
      omega

/-- The powers of ten that are needed for a divisor of a scale. -/
def needed (divisor : Exact) : Nat := (-(2 * divisor.dsc_scale)).toNat

/-- The divisor becomes -1 when its zeros are taken from it, and the dividend is the least value. -/
def ReachesMinusOne (left right : Exact) : Prop :=
  left.value = minSint64 ∧ ∃ zeros, 0 < zeros ∧ zeros ≤ needed right ∧ right.value = -10 ^ zeros

/-- The least value is no multiple of ten. -/
theorem up_eq_zero {i : Int} {up : Nat} (least : i * 10 ^ up = minSint64) : up = 0 := by
  cases up with
  | zero => rfl
  | succ up =>
      rw [pow_succ, ← mul_assoc] at least
      generalize i * 10 ^ up = rest at least
      simp only [minSint64] at least
      omega

/-- The scaled operands are the two that have no quotient only where the divisor reached -1. -/
theorem not_least_by_minus_one {left right : Exact} {up down : Nat}
    (early : ¬(left.value = minSint64 ∧ right.value = -1)) (clear : ¬ReachesMinusOne left right)
    (down_le : down ≤ needed right) (divides : (10 : Int) ^ down ∣ right.value) :
    ¬(left.value * 10 ^ up = minSint64 ∧ right.value.tdiv (10 ^ down) = -1) := by
  rintro ⟨least, minus_one⟩
  obtain rfl := up_eq_zero least
  rw [pow_zero, mul_one] at least
  have value_eq := Int.tdiv_mul_cancel divides
  rw [minus_one, neg_one_mul] at value_eq
  rcases Nat.eq_zero_or_pos down with rfl | positive
  · exact early ⟨least, by rw [← value_eq, pow_zero]⟩
  · exact clear ⟨least, down, positive, down_le, value_eq.symm⟩

/-- The last loop has the quotient scaled, or it does not fit. -/
theorem finish_yields {quotient : Int} {left : Nat} (fits : ExactType.int64.Fits quotient) :
    Yields (ExactType.int64.Fits (quotient * 10 ^ left)) (quotient * 10 ^ left) (do
      let (needed, vlu_int64) ← scaleUp (decide (quotient ≥ 0)) left quotient
      if needed > 0 then .error .numeric_out_of_range else .ok vlu_int64) := by
  obtain ⟨up, up_le, loop_eq, up_fits, up_most⟩ := scaleUp_spec left fits
  rw [loop_eq]
  simp only [bind, Except.bind]
  rcases Nat.lt_or_eq_of_le up_le with less | rfl
  · have outside : ¬ExactType.int64.Fits (quotient * 10 ^ left) := by
      obtain ⟨rest, rfl⟩ := Nat.exists_eq_add_of_le (Nat.succ_le_of_lt less)
      rw [pow_add, ← mul_assoc]
      exact ExactType.not_fits_mul (one_le_pow₀ (by decide)) (up_most less)
    rw [if_pos (Nat.sub_pos_of_lt less)]
    exact ⟨fun inside => absurd inside outside, fun _ => ⟨_, rfl, Or.inr (Or.inr rfl)⟩⟩
  · rw [Nat.sub_self, if_neg (Nat.lt_irrefl 0)]
    exact ⟨fun _ => rfl, fun wrong => absurd up_fits wrong⟩

/-- The quotient of the least value and -1 does not fit, however it is scaled. -/
theorem PreScaled.early_outside {needed : Nat} {dividend divisor : Int}
    (preScaled : PreScaled needed dividend divisor)
    (early : dividend = minSint64 ∧ divisor = -1) : ¬ExactType.int64.Fits preScaled.quotient := by
  obtain ⟨rfl, rfl⟩ := early
  have up_eq : preScaled.up = 0 := by
    have fits := preScaled.up_fits
    by_contra positive
    obtain ⟨up, up_eq⟩ := Nat.exists_eq_succ_of_ne_zero positive
    rw [up_eq, Nat.succ_eq_add_one, pow_succ', ← mul_assoc] at fits
    exact ExactType.not_fits_mul (one_le_pow₀ (by decide)) (by decide) fits
  have down_eq : preScaled.down = 0 := by
    have unit := Int.natAbs_dvd_natAbs.mpr preScaled.down_divides
    rw [Int.natAbs_pow] at unit
    have one_eq := Nat.dvd_one.mp unit
    by_contra positive
    exact absurd one_eq (Nat.one_lt_pow positive (by decide)).ne'
  rw [quotient, up_eq, down_eq]
  exact ExactType.not_fits_mul (one_le_pow₀ (by decide)) (by decide)

theorem divide2_yields {left right : Exact} {scale : Int}
    (scale_eq : scale = left.dsc_scale + right.dsc_scale) (nonzero : right.value ≠ 0)
    (clear : ¬ReachesMinusOne left right) :
    ∃ preScaled : PreScaled (needed right) left.value right.value,
      Yields (ExactType.int64.Fits preScaled.quotient) preScaled.quotient
        (divide2 scale right left) := by
  have left_scale : scale - right.dsc_scale = left.dsc_scale := by omega
  obtain ⟨up, up_le, up_eq, up_fits, up_most⟩ := scaleUp_spec (needed right) left.value_fits.int64
  obtain ⟨down, down_le, down_eq, divides, down_most⟩ :=
    scaleDown_spec (needed right - up) right.value
  let preScaled : PreScaled (needed right) left.value right.value :=
    ⟨up, down, needed right - up - down, by omega, up_fits, up_most, divides,
      fun rest => down_most (by omega)⟩
  refine ⟨preScaled, ?_⟩
  rw [divide2, left_scale, mov_get_int64_same, mov_get_int64_same]
  simp only [bind, Except.bind, if_neg nonzero]
  by_cases early : left.value = minSint64 ∧ right.value = -1
  · rw [if_pos early]
    have outside := preScaled.early_outside early
    exact ⟨fun inside => absurd inside outside, fun _ => ⟨_, rfl, Or.inr (Or.inl rfl)⟩⟩
  · have divisor_nonzero : right.value.tdiv (10 ^ down) ≠ 0 := by
      intro zero
      have value_eq := Int.tdiv_mul_cancel divides
      rw [zero, zero_mul] at value_eq
      exact nonzero value_eq.symm
    have quotient_fits := fits_tdiv up_fits divisor_nonzero
      (not_least_by_minus_one early clear (by omega) divides)
    have finished := @finish_yields _ (needed right - up - down) quotient_fits
    have loop_eq : scaleUp (decide (left.value ≥ 0)) (-(2 * right.dsc_scale)).toNat left.value =
      .ok (needed right - up, left.value * 10 ^ up) := up_eq
    rw [if_neg early, loop_eq]
    simp only [down_eq, checked64, if_pos quotient_fits]
    exact finished

/-! ## The nodes -/

/-- The sum of the scales is one of an `SCHAR`. -/
def ScalesAdd (left right : Exact) : Prop :=
  -128 ≤ left.dsc_scale + right.dsc_scale ∧ left.dsc_scale + right.dsc_scale ≤ 127

theorem schar_of_scalesAdd {left right : Exact} (scales : ScalesAdd left right) :
    schar (left.dsc_scale + right.dsc_scale) = left.dsc_scale + right.dsc_scale := by
  obtain ⟨low, high⟩ := scales
  rw [schar]
  omega

/-- What the nodes give for operands of exact types.  A sum or difference is exact at the lower of the
scales, and a product at the sum of the scales; each is given if it fits 64 bits, a sum also only if its
operands fit at the common scale.  A quotient is the truncated one of the scaled operands. -/
theorem execute_yields (left right : Exact) :
    (∀ blrOp, blrOp = .add ∨ blrOp = .subtract →
      let scale := min left.dsc_scale right.dsc_scale
      let result := combined blrOp (scaled left scale) (scaled right scale)
      Yields (SumFits blrOp scale left right) result (execute blrOp left right) ∧
        (result : ℚ) * 10 ^ scale =
          if blrOp = .subtract then number left - number right else number left + number right) ∧
    (ScalesAdd left right →
      Yields (ExactType.int64.Fits (left.value * right.value)) (left.value * right.value)
          (execute .multiply left right) ∧
        ((left.value * right.value : ℤ) : ℚ) * 10 ^ (left.dsc_scale + right.dsc_scale) =
          number left * number right) ∧
    (ScalesAdd left right → right.value = 0 →
      execute .divide left right = .error .integer_divide_by_zero) ∧
    (ScalesAdd left right → right.value ≠ 0 → ¬ReachesMinusOne left right →
      ∃ preScaled : PreScaled (needed right) left.value right.value,
        Yields (ExactType.int64.Fits preScaled.quotient) preScaled.quotient
          (execute .divide left right)) := by
  have left_least := left.scale_fits.1
  have right_least := right.scale_fits.1
  refine ⟨fun blrOp additive => ?_, fun scales => ?_, fun scales zero => ?_,
    fun scales nonzero clear => ?_⟩
  · have left_below := min_le_left left.dsc_scale right.dsc_scale
    have right_below := min_le_right left.dsc_scale right.dsc_scale
    have yields := add2_yields blrOp (le_min left_least right_least) left_below right_below
    refine ⟨?_, ?_⟩
    · rcases additive with rfl | rfl <;> exact yields
    · rw [← scaled_number left_below, ← scaled_number right_below, combined]
      split <;> push_cast <;> ring
  · have scale_eq := schar_of_scalesAdd scales
    refine ⟨multiply2_yields scale_eq, ?_⟩
    rw [number, number, zpow_add₀ (by norm_num : (10 : ℚ) ≠ 0)]
    push_cast
    ring
  · rw [execute]
    simp only [divide2, mov_get_int64_same]
    rw [zero]
    rfl
  · exact divide2_yields (schar_of_scalesAdd scales) nonzero clear

/-- Two numbers of three digits behind the point. -/
theorem execute_yields_thousandths :
    let desc : Exact := ⟨.int64, 1500, -3, by decide, by decide⟩
    ∃ preScaled : PreScaled (needed desc) desc.value desc.value,
      Yields (ExactType.int64.Fits preScaled.quotient) preScaled.quotient
        (execute .divide desc desc) := by
  intro desc
  refine (execute_yields desc desc).2.2.2 ⟨by decide, by decide⟩ (by decide) fun reaches => ?_
  exact absurd reaches.1 (by decide)

/-- The sum fits at the common scale, but one of its operands does not. -/
theorem not_execute_yields_operand :
    ¬∀ left right : Exact,
      let scale := min left.dsc_scale right.dsc_scale
      Yields (ExactType.int64.Fits (scaled left scale + scaled right scale))
        (scaled left scale + scaled right scale) (execute .add left right) := by
  intro all
  have yields := (all ⟨.int64, 10 ^ 18, 0, by decide, by decide⟩
    ⟨.int64, -9 * 10 ^ 18, -1, by decide, by decide⟩).1 (by decide)
  exact absurd yields (by decide)

end ArithmeticNode
end Firebird
