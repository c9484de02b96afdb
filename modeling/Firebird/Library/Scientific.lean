import Mathlib.Algebra.Order.Field.Rat
import Mathlib.Algebra.Order.Field.Power
import Mathlib.Tactic.Linarith
import Mathlib.Tactic.Ring
import Mathlib.Tactic.Positivity
import Mathlib.Tactic.NormNum

/-!
# Ranks of numbers in scientific notation

A number is a coefficient of a fixed size times a power of the base.  Its rank is a biased exponent
with the coefficient behind it; both are turned around for negative numbers, and zero has the rank of
exponent zero.  Ranks compare as the numbers do, as long as the biased exponents show the sign.
-/

namespace Firebird
namespace Scientific

/-- The coefficient has `digits + 1` digits, the first of which is not zero. -/
structure Full (digits coefficient : Nat) : Prop where
  least : 10 ^ digits ≤ coefficient
  most : coefficient < 10 ^ (digits + 1)

variable {digits : Nat}

theorem Full.pos {coefficient : Nat} (full : Full digits coefficient) : 0 < coefficient :=
  (Nat.pow_pos (by decide)).trans_le full.least

/-- The number with a coefficient and an exponent. -/
def scaled (coefficient : Nat) (exponent : Int) : ℚ := coefficient * 10 ^ exponent

theorem scaled_pos {coefficient : Nat} (full : Full digits coefficient) (exponent : Int) :
    0 < scaled coefficient exponent :=
  mul_pos (Nat.cast_pos.mpr full.pos) (zpow_pos (by norm_num) exponent)

theorem pow_le_scaled {coefficient : Nat} (full : Full digits coefficient) (exponent : Int) :
    (10 : ℚ) ^ (digits + exponent) ≤ scaled coefficient exponent := by
  rw [scaled, zpow_add₀ (by norm_num), zpow_natCast]
  refine mul_le_mul_of_nonneg_right ?_ (zpow_pos (by norm_num) exponent).le
  exact_mod_cast full.least

theorem scaled_lt_pow {coefficient : Nat} (full : Full digits coefficient) (exponent : Int) :
    scaled coefficient exponent < (10 : ℚ) ^ (digits + exponent + 1) := by
  have split : (digits : Int) + exponent + 1 = ((digits + 1 : Nat) : Int) + exponent := by
    push_cast
    ring
  rw [scaled, split, zpow_add₀ (by norm_num), zpow_natCast]
  refine mul_lt_mul_of_pos_right ?_ (zpow_pos (by norm_num) exponent)
  exact_mod_cast full.most

/-- The greater exponent makes the greater number. -/
theorem scaled_lt_of_exponent_lt {first second : Nat} (full_first : Full digits first)
    (full_second : Full digits second) {left right : Int} (less : left < right) :
    scaled first left < scaled second right := by
  calc scaled first left < (10 : ℚ) ^ (digits + left + 1) := scaled_lt_pow full_first left
    _ ≤ (10 : ℚ) ^ (digits + right) := zpow_le_zpow_right₀ (by norm_num) (by omega)
    _ ≤ scaled second right := pow_le_scaled full_second right

theorem scaled_lt_iff {first second : Nat} (full_first : Full digits first)
    (full_second : Full digits second) {left right : Int} :
    scaled first left < scaled second right ↔ left < right ∨ left = right ∧ first < second := by
  rcases lt_trichotomy left right with less | rfl | more
  · exact ⟨fun _ => Or.inl less,
      fun _ => scaled_lt_of_exponent_lt full_first full_second less⟩
  · have power_pos : (0 : ℚ) < 10 ^ left := zpow_pos (by norm_num) left
    rw [scaled, scaled, mul_lt_mul_iff_left₀ power_pos, Nat.cast_lt]
    exact ⟨fun less => Or.inr ⟨rfl, less⟩,
      fun either => either.elim (fun less => absurd less (lt_irrefl _)) And.right⟩
  · have greater := scaled_lt_of_exponent_lt full_second full_first more
    constructor
    · intro less
      exact absurd less greater.not_gt
    · rintro (less | ⟨rfl, -⟩)
      · exact absurd less more.not_gt
      · exact absurd more (lt_irrefl _)

/-- The rank of a number: `bias` makes the exponent positive, `top` turns a coefficient around. -/
inductive Ranked (digits : Nat) (bias : Int) (top : Nat) : ℚ → Int × Nat → Prop
  | zero : Ranked digits bias top 0 (0, 0)
  | positive {coefficient : Nat} {exponent : Int} (full : Full digits coefficient)
      (nonneg : 0 ≤ exponent + bias) :
      Ranked digits bias top (scaled coefficient exponent) (exponent + bias, coefficient)
  | negative {coefficient : Nat} {exponent : Int} (full : Full digits coefficient)
      (below : coefficient ≤ top) (pos : 0 < exponent + bias) :
      Ranked digits bias top (-scaled coefficient exponent)
        (-(exponent + bias), top - coefficient)

/-- The order of ranks. -/
def RankLt (first second : Int × Nat) : Prop :=
  first.1 < second.1 ∨ first.1 = second.1 ∧ first.2 < second.2

theorem Ranked.lt_iff {bias : Int} {top : Nat} {first second : ℚ} {left right : Int × Nat}
    (ranked_first : Ranked digits bias top first left)
    (ranked_second : Ranked digits bias top second right) :
    first < second ↔ RankLt left right := by
  unfold RankLt
  cases ranked_first with
  | zero =>
      cases ranked_second with
      | zero => simp
      | positive full nonneg =>
          have pos := full.pos
          refine ⟨fun _ => ?_, fun _ => scaled_pos full _⟩
          dsimp only
          omega
      | negative full below pos =>
          refine ⟨fun less => ?_, fun either => ?_⟩
          · exact absurd less (neg_neg_of_pos (scaled_pos full _)).not_gt
          · dsimp only at either
            omega
  | @positive first_coefficient first_exponent full nonneg =>
      cases ranked_second with
      | zero =>
          refine ⟨fun less => absurd less (scaled_pos full _).not_gt, fun either => ?_⟩
          dsimp only at either
          omega
      | @positive second_coefficient second_exponent full_second nonneg_second =>
          rw [scaled_lt_iff full full_second]
          dsimp only
          omega
      | negative full_second below pos =>
          refine ⟨fun less => ?_, fun either => ?_⟩
          · have first_pos := scaled_pos full first_exponent
            exact absurd (less.trans (neg_neg_of_pos (scaled_pos full_second _))) first_pos.not_gt
          · dsimp only at either
            omega
  | @negative first_coefficient first_exponent full below pos =>
      cases ranked_second with
      | zero =>
          refine ⟨fun _ => ?_, fun _ => neg_neg_of_pos (scaled_pos full _)⟩
          dsimp only
          omega
      | positive full_second nonneg =>
          refine ⟨fun _ => ?_,
            fun _ => (neg_neg_of_pos (scaled_pos full _)).trans (scaled_pos full_second _)⟩
          dsimp only
          omega
      | @negative second_coefficient second_exponent full_second below_second pos_second =>
          rw [neg_lt_neg_iff, scaled_lt_iff full_second full]
          dsimp only
          omega

end Scientific
end Firebird
