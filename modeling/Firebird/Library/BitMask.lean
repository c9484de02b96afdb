import Mathlib.Data.Nat.Bitwise
import Mathlib.Algebra.Order.Ring.Nat

/-!
# Masks of high bits

A number without its low bits.
-/

namespace Firebird
namespace BitMask

/-- The bits from one place on. -/
theorem and_high {number top bit : Nat} (number_lt : number < 2 ^ top) (bit_le : bit ≤ top) :
    number &&& (2 ^ top - 2 ^ bit) = number / 2 ^ bit * 2 ^ bit := by
  have mask_eq : 2 ^ top - 2 ^ bit = (2 ^ (top - bit) - 1) <<< bit := by
    rw [Nat.shiftLeft_eq, Nat.sub_mul, ← Nat.pow_add, Nat.sub_add_cancel bit_le, Nat.one_mul]
  have and_eq : number &&& (2 ^ (top - bit) - 1) <<< bit =
      ((number >>> bit) &&& (2 ^ (top - bit) - 1)) <<< bit := by
    refine Nat.eq_of_testBit_eq fun place => ?_
    rw [Nat.testBit_and, Nat.testBit_shiftLeft, Nat.testBit_shiftLeft, Nat.testBit_and,
      Nat.testBit_shiftRight]
    by_cases above : bit ≤ place
    · rw [Nat.add_sub_cancel' above, Bool.and_left_comm]
    · rw [decide_eq_false above, Bool.false_and, Bool.false_and, Bool.and_false]
  have high_lt : number >>> bit < 2 ^ (top - bit) := by
    rw [Nat.shiftRight_eq_div_pow, Nat.div_lt_iff_lt_mul (Nat.two_pow_pos bit), ← Nat.pow_add,
      Nat.sub_add_cancel bit_le]
    exact number_lt
  rw [mask_eq, and_eq, Nat.and_two_pow_sub_one_eq_mod, Nat.mod_eq_of_lt high_lt, Nat.shiftLeft_eq,
    Nat.shiftRight_eq_div_pow]

/-- The bits from one place on are zero exactly in small numbers. -/
theorem and_high_eq_zero_iff {number top bit : Nat} (number_lt : number < 2 ^ top)
    (bit_le : bit ≤ top) : number &&& (2 ^ top - 2 ^ bit) = 0 ↔ number < 2 ^ bit := by
  have power_pos := Nat.two_pow_pos bit
  rw [and_high number_lt bit_le, Nat.mul_eq_zero, Nat.div_eq_zero_iff]
  omega

end BitMask
end Firebird
