import Mathlib.Data.Int.Log
import Mathlib.Data.Rat.Floor
import Mathlib.Algebra.Order.Field.Power
import Mathlib.Tactic.Linarith
import Mathlib.Tactic.Ring
import Mathlib.Tactic.Positivity
import Mathlib.Tactic.NormNum
import Mathlib.Tactic.FieldSimp

/-!
# Rounding to binary floating point

A rational number is rounded to a fixed number of binary digits, to the nearest one and to the even
one in the middle.  The exponent is not bounded.
-/

namespace Firebird
namespace BinaryRounding

/-- The nearest integer, the even one of two. -/
def nearestEven (number : ℚ) : ℤ :=
  let low := ⌊number⌋
  if number - low < 1 / 2 then low
  else if 1 / 2 < number - low then low + 1
  else if low % 2 = 0 then low else low + 1

/-- The value of the last of the digits behind the first one. -/
def unit (digits : Nat) (number : ℚ) : ℚ := 2 ^ (Int.log 2 number - digits)

/-- A number that is not negative, rounded. -/
def roundMagnitude (digits : Nat) (number : ℚ) : ℚ :=
  nearestEven (number / unit digits number) * unit digits number

/-- The rounded number; `digits` does not count the first one. -/
def round (digits : Nat) (number : ℚ) : ℚ :=
  if number < 0 then -roundMagnitude digits (-number) else roundMagnitude digits number

theorem abs_nearestEven_sub_le (number : ℚ) : |(nearestEven number : ℚ) - number| ≤ 1 / 2 := by
  have floor_le := Int.floor_le number
  have lt_floor := Int.lt_floor_add_one number
  rw [nearestEven, abs_le]
  split_ifs
  · constructor <;> linarith
  · push_cast
    constructor <;> linarith
  · constructor <;> linarith
  · push_cast
    constructor <;> linarith

theorem nearestEven_intCast (number : ℤ) : nearestEven (number : ℚ) = number := by
  rw [nearestEven, Int.floor_intCast, sub_self]
  exact if_pos (by norm_num)

/-- A number nearer than a half is the nearest one. -/
theorem nearestEven_eq {number : ℚ} {integer : ℤ} (near : |number - integer| < 1 / 2) :
    nearestEven number = integer := by
  have nearest := abs_nearestEven_sub_le number
  have triangle := abs_sub_le (nearestEven number : ℚ) number integer
  have less : |((nearestEven number - integer : ℤ) : ℚ)| < 1 := by
    push_cast
    linarith
  rw [← Int.cast_abs, ← Int.cast_one, Int.cast_lt, Int.abs_lt_one_iff] at less
  omega

variable {digits : Nat} {number : ℚ}

theorem unit_pos : 0 < unit digits number := zpow_pos (by norm_num) _

theorem round_neg (number : ℚ) : round digits (-number) = -round digits number := by
  rw [round, round]
  rcases lt_trichotomy number 0 with negative | rfl | positive
  · rw [if_neg (by linarith), if_pos negative]
    ring
  · have zero_eq : roundMagnitude digits 0 = 0 := by
      rw [roundMagnitude, zero_div, ← Int.cast_zero, nearestEven_intCast, Int.cast_zero, zero_mul]
    simp only [neg_zero, lt_irrefl, if_false, zero_eq]
  · rw [if_pos (by linarith), if_neg (by linarith), neg_neg]

theorem round_zero : round digits 0 = 0 := by
  have same := @round_neg digits 0
  rw [neg_zero] at same
  linarith

/-- The rounded number is near, compared with its size. -/
theorem abs_round_sub_le (number : ℚ) : |round digits number - number| ≤ |number| / 2 ^ (digits + 1) := by
  have positive_case : ∀ number : ℚ, 0 < number →
      |round digits number - number| ≤ number / 2 ^ (digits + 1) := by
    intro number positive
    have unit_pos := @unit_pos digits number
    have nearest := abs_nearestEven_sub_le (number / unit digits number)
    have unit_eq : unit digits number = (2 : ℚ) ^ Int.log 2 number / 2 ^ digits := by
      rw [unit, zpow_sub₀ (by norm_num), zpow_natCast]
    have leading : (2 : ℚ) ^ Int.log 2 number ≤ number := by
      have := Int.zpow_log_le_self (R := ℚ) (b := 2) (by norm_num) positive
      exact_mod_cast this
    rw [round, if_neg (not_lt.mpr positive.le), roundMagnitude]
    calc |(nearestEven (number / unit digits number) : ℚ) * unit digits number - number|
        = |(nearestEven (number / unit digits number) : ℚ) - number / unit digits number| *
            unit digits number := by
          rw [← abs_of_pos unit_pos, ← abs_mul, abs_of_pos unit_pos, sub_mul,
            div_mul_cancel₀ _ unit_pos.ne']
      _ ≤ 1 / 2 * unit digits number := mul_le_mul_of_nonneg_right nearest unit_pos.le
      _ = (2 : ℚ) ^ Int.log 2 number / 2 ^ (digits + 1) := by
          rw [unit_eq, pow_succ]
          field_simp
      _ ≤ number / 2 ^ (digits + 1) := div_le_div_of_nonneg_right leading (by positivity)
  rcases lt_trichotomy number 0 with negative | rfl | positive
  · have mirrored := positive_case (-number) (by linarith)
    rw [round_neg, ← abs_neg] at mirrored
    rw [abs_of_neg negative]
    rwa [neg_sub_neg, neg_sub] at mirrored
  · rw [round_zero, sub_zero, abs_zero, zero_div]
  · rw [abs_of_pos positive]
    exact positive_case number positive

/-- An integer with few digits is not changed. -/
theorem round_intCast {integer : ℤ} (small : |integer| < 2 ^ (digits + 1)) :
    round digits (integer : ℚ) = integer := by
  have positive_case : ∀ integer : ℤ, 0 < integer → integer < 2 ^ (digits + 1) →
      round digits (integer : ℚ) = integer := by
    intro integer positive small
    have positive_cast : (0 : ℚ) < integer := Int.cast_pos.mpr positive
    have log_le : Int.log 2 (integer : ℚ) ≤ digits := by
      have small_cast : (integer : ℚ) < ((2 : Nat) : ℚ) ^ ((digits : ℤ) + 1) := by
        exact_mod_cast small
      have := (Int.lt_zpow_iff_log_lt (by norm_num) positive_cast).mp small_cast
      omega
    obtain ⟨places, places_eq⟩ : ∃ places : Nat, Int.log 2 (integer : ℚ) - digits = -places :=
      ⟨(digits - Int.log 2 (integer : ℚ)).toNat, by omega⟩
    have unit_eq : unit digits (integer : ℚ) = ((2 : ℚ) ^ places)⁻¹ := by
      rw [unit, places_eq, zpow_neg, zpow_natCast]
    have shifted : (integer : ℚ) / unit digits (integer : ℚ) = ((integer * 2 ^ places : ℤ) : ℚ) := by
      rw [unit_eq, div_inv_eq_mul]
      push_cast
      rfl
    rw [round, if_neg (not_lt.mpr positive_cast.le), roundMagnitude, shifted, nearestEven_intCast,
      unit_eq]
    push_cast
    rw [mul_assoc, mul_inv_cancel₀ (by positivity), mul_one]
  rcases lt_trichotomy integer 0 with negative | rfl | positive
  · have mirrored := positive_case (-integer) (by omega) (by rwa [abs_of_neg negative] at small)
    push_cast at mirrored
    rw [round_neg] at mirrored
    linarith
  · rw [Int.cast_zero, round_zero]
  · exact positive_case integer positive (by rwa [abs_of_pos positive] at small)

/-! ## Relative errors -/

/-- The computed number differs from the exact one by at most a fraction of it. -/
def Near (error computed exact : ℚ) : Prop := |computed - exact| ≤ error * |exact|

variable {error other computed exact : ℚ}

theorem near_round (number : ℚ) : Near (1 / 2 ^ (digits + 1)) (round digits number) number := by
  have near := @abs_round_sub_le digits number
  rwa [Near, one_div, inv_mul_eq_div]

namespace Near

theorem mono (near : Near error computed exact) (le : error ≤ other) :
    Near other computed exact :=
  near.trans (mul_le_mul_of_nonneg_right le (abs_nonneg _))

theorem abs_le (near : Near error computed exact) : |computed| ≤ (1 + error) * |exact| := by
  have triangle := abs_add_le (computed - exact) exact
  rw [sub_add_cancel] at triangle
  rw [Near] at near
  linarith

/-- An approximation of an approximation. -/
theorem trans {last : ℚ} (near : Near error computed exact) (next : Near other last computed)
    (nonneg : 0 ≤ other) : Near (error + other + error * other) last exact := by
  have triangle := abs_sub_le last computed exact
  have size := mul_le_mul_of_nonneg_left near.abs_le nonneg
  rw [Near] at near next ⊢
  linarith

theorem mul {computed' exact' : ℚ} (near : Near error computed exact)
    (next : Near other computed' exact') (nonneg : 0 ≤ error) :
    Near (error + other + error * other) (computed * computed') (exact * exact') := by
  have size := near.abs_le
  have first := mul_le_mul near le_rfl (abs_nonneg exact') (by positivity)
  have second := mul_le_mul size next (abs_nonneg _) (by positivity)
  have split : computed * computed' - exact * exact' =
      (computed - exact) * exact' + computed * (computed' - exact') := by ring
  have triangle := abs_add_le ((computed - exact) * exact') (computed * (computed' - exact'))
  rw [abs_mul, abs_mul] at triangle
  rw [Near, split, abs_mul]
  linarith

theorem inv (near : Near error computed exact) (small : error < 1) (nonzero : exact ≠ 0) :
    Near (error / (1 - error)) computed⁻¹ exact⁻¹ := by
  have exact_pos := abs_pos.mpr nonzero
  have room : 0 < 1 - error := by linarith
  have large : (1 - error) * |exact| ≤ |computed| := by
    have triangle := abs_sub_abs_le_abs_sub exact computed
    rw [abs_sub_comm] at triangle
    rw [Near] at near
    linarith
  have computed_pos : 0 < |computed| := lt_of_lt_of_le (by positivity) large
  have computed_ne : computed ≠ 0 := abs_pos.mp computed_pos
  have difference : computed⁻¹ - exact⁻¹ = (exact - computed) / (computed * exact) := by
    field_simp
  rw [Near, difference, abs_div, abs_mul, abs_inv, abs_sub_comm, div_le_iff₀ (by positivity)]
  have scaled : error / (1 - error) * |exact|⁻¹ * (|computed| * |exact|) =
      error * (|computed| / (1 - error)) := by
    field_simp
  rw [scaled]
  have error_nonneg : 0 ≤ error := by
    by_contra negative
    have below := le_trans (abs_nonneg _) near
    exact absurd below (not_le.mpr (mul_neg_of_neg_of_pos (not_le.mp negative) exact_pos))
  refine le_trans near (mul_le_mul_of_nonneg_left ?_ error_nonneg)
  rwa [le_div_iff₀ room, mul_comm]

end Near

end BinaryRounding
end Firebird
