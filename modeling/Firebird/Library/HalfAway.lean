import Mathlib.Algebra.Order.Floor.Ring
import Mathlib.Data.Rat.Floor
import Mathlib.Tactic.FieldSimp
import Mathlib.Tactic.Linarith
import Mathlib.Tactic.Ring

/-!
# Rounding half away from zero

The nearest integer of a rational number, the one further from zero where two are equally near, and
how truncated divisions by ten find it.
-/

namespace HalfAway

/-- The nearest integer, of two the one further from zero. -/
def halfAway (value : ℚ) : ℤ := if 0 ≤ value then ⌊value + 1 / 2⌋ else -⌊-value + 1 / 2⌋

theorem floor_half (whole : ℤ) : ⌊(whole : ℚ) + 1 / 2⌋ = whole := by
  rw [Int.floor_eq_iff]
  constructor <;> linarith

@[simp]
theorem halfAway_intCast (value : ℤ) : halfAway value = value := by
  rw [halfAway]
  split
  · exact floor_half value
  · rw [← Int.cast_neg, floor_half, neg_neg]

theorem halfAway_neg (value : ℚ) : halfAway (-value) = -halfAway value := by
  rcases lt_trichotomy value 0 with negative | rfl | positive
  · rw [halfAway, halfAway, if_pos (by linarith), if_neg (not_le.mpr negative), neg_neg]
  · rw [neg_zero, ← Int.cast_zero, halfAway_intCast, neg_zero]
  · rw [halfAway, halfAway, if_neg (by linarith), if_pos positive.le, neg_neg]

/-- The digit behind the point decides for a natural number. -/
theorem halfAway_natCast_div (value : ℕ) {unit : ℕ} (positive : 0 < unit) :
    halfAway ((value : ℚ) / (unit * 10 : ℕ)) =
      (value / (unit * 10) + if 4 < value / unit % 10 then 1 else 0 : ℕ) := by
  have unit_pos : (0 : ℚ) < unit := Nat.cast_pos.mpr positive
  have quotient_eq : value / unit / 10 = value / (unit * 10) := Nat.div_div_eq_div_mul _ _ _
  have outer := Nat.div_add_mod (value / unit) 10
  have inner := Nat.div_add_mod value unit
  have rest_lt := Nat.mod_lt value positive
  have digit_lt := Nat.mod_lt (value / unit) (show 0 < 10 by decide)
  rw [quotient_eq] at outer
  generalize value / (unit * 10) = quotient at outer ⊢
  generalize value / unit % 10 = digit at outer digit_lt ⊢
  generalize value % unit = rest at inner rest_lt
  have value_eq : (value : ℚ) = unit * (10 * quotient + digit) + rest := by
    rw [← inner, ← outer]
    push_cast
    ring
  have rest_lt' : (rest : ℚ) < unit := Nat.cast_lt.mpr rest_lt
  have rest_nonneg : (0 : ℚ) ≤ rest := Nat.cast_nonneg rest
  have split : (value : ℚ) / (unit * 10 : ℕ) = quotient + (digit + rest / unit) / 10 := by
    rw [value_eq]
    push_cast
    field_simp
    ring
  have fraction_nonneg : (0 : ℚ) ≤ rest / unit := div_nonneg rest_nonneg unit_pos.le
  have fraction_lt : (rest : ℚ) / unit < 1 := (div_lt_one unit_pos).mpr rest_lt'
  rw [halfAway, if_pos (div_nonneg (Nat.cast_nonneg _) (Nat.cast_nonneg _)), split,
    Int.floor_eq_iff]
  by_cases up : 4 < digit
  · have up' : (5 : ℚ) ≤ digit := by exact_mod_cast up
    have digit_le : (digit : ℚ) ≤ 9 := by exact_mod_cast Nat.le_of_lt_succ digit_lt
    rw [if_pos up]
    push_cast
    constructor <;> linarith
  · have down : (digit : ℚ) ≤ 4 := by exact_mod_cast Nat.le_of_not_lt up
    have digit_nonneg : (0 : ℚ) ≤ digit := Nat.cast_nonneg digit
    rw [if_neg up]
    push_cast
    constructor <;> linarith

/-- Two truncated divisions are one. -/
theorem tdiv_tdiv (value : ℤ) (first second : ℕ) :
    (value.tdiv first).tdiv second = value.tdiv (first * second : ℕ) := by
  obtain ⟨size, rfl | rfl⟩ := value.eq_nat_or_neg
  · rw [← Int.ofNat_tdiv, ← Int.ofNat_tdiv, ← Int.ofNat_tdiv, Nat.div_div_eq_div_mul]
  · rw [Int.neg_tdiv, Int.neg_tdiv, Int.neg_tdiv, ← Int.ofNat_tdiv, ← Int.ofNat_tdiv,
      ← Int.ofNat_tdiv, Nat.div_div_eq_div_mul]

/-- The last digit that truncated divisions by ten cut off decides. -/
theorem halfAway_intCast_div (value : ℤ) {unit : ℕ} (positive : 0 < unit) :
    halfAway ((value : ℚ) / (unit * 10 : ℕ)) =
      value.tdiv (unit * 10 : ℕ) +
        if 4 < (value.tdiv unit).tmod 10 then 1
        else if (value.tdiv unit).tmod 10 < -4 then -1 else 0 := by
  obtain ⟨size, rfl | rfl⟩ := value.eq_nat_or_neg
  · have digit_eq : ((size : ℤ).tdiv unit).tmod 10 = (size / unit % 10 : ℕ) := by
      rw [← Int.ofNat_tdiv]
      exact (Int.ofNat_tmod _ 10).symm
    rw [digit_eq, ← Int.ofNat_tdiv, Int.cast_natCast, halfAway_natCast_div size positive]
    split <;> split <;> omega
  · have digit_eq : ((-(size : ℤ)).tdiv unit).tmod 10 = -(size / unit % 10 : ℕ) := by
      rw [Int.neg_tdiv, Int.neg_tmod, ← Int.ofNat_tdiv]
      exact congrArg Neg.neg (Int.ofNat_tmod _ 10).symm
    rw [digit_eq, Int.neg_tdiv, ← Int.ofNat_tdiv, Int.cast_neg, Int.cast_natCast, neg_div,
      halfAway_neg, halfAway_natCast_div size positive]
    split <;> split <;> omega

end HalfAway
