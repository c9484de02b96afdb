import Mathlib.Data.List.GetD
import Firebird.Library.Scientific
import Firebird.Common.DecFloat.Keys

/-!
# Normalized coefficients

`digits` moves the coefficient to the left, so that its first digit is not zero, and counts the
digits before the zeros at its end.
-/

namespace Firebird
namespace DecFloat

open Positional (number Digits Trimmed)
open Scientific (Full scaled)

theorem significant_le (coeff : List Nat) (count : Nat) : significant coeff count ≤ count := by
  induction count with
  | zero => exact le_rfl
  | succ i ih =>
      rw [significant]
      split
      · exact ih.trans (Nat.le_succ i)
      · exact le_rfl

/-- Behind the significant digits there are only zeros. -/
theorem getD_of_significant_le {coeff : List Nat} {count index : Nat}
    (behind : significant coeff count ≤ index) (inside : index < count) :
    coeff.getD index 0 = 0 := by
  induction count with
  | zero => exact absurd inside (Nat.not_lt_zero _)
  | succ i ih =>
      rw [significant] at behind
      split at behind
      · rename_i zero
        rcases Nat.lt_succ_iff_lt_or_eq.mp inside with earlier | rfl
        · exact ih behind earlier
        · exact zero
      · omega

/-- The last significant digit is not zero. -/
theorem getD_significant_ne {coeff : List Nat} {count last : Nat}
    (eq : significant coeff count = last + 1) : coeff.getD last 0 ≠ 0 := by
  induction count with
  | zero => exact absurd eq (Nat.succ_ne_zero last).symm
  | succ i ih =>
      rw [significant] at eq
      split at eq
      · exact ih eq
      · rename_i nonzero
        obtain rfl := Nat.succ.inj eq
        exact nonzero

/-- Zeros at the end do not count. -/
theorem significant_of_zeros {coeff : List Nat} {front count : Nat} (le : front ≤ count)
    (zeros : ∀ index, front ≤ index → index < count → coeff.getD index 0 = 0) :
    significant coeff count = significant coeff front := by
  induction count with
  | zero =>
      obtain rfl := Nat.le_zero.mp le
      rfl
  | succ i ih =>
      rcases le.lt_or_eq with before | rfl
      · have front_le := Nat.le_of_lt_succ before
        rw [significant, if_pos (zeros i front_le (Nat.lt_succ_self i))]
        exact ih front_le fun index behind inside =>
          zeros index behind (inside.trans (Nat.lt_succ_self i))
      · rfl

theorem significant_pos {coeff : List Nat} {count index : Nat} (inside : index < count)
    (nonzero : coeff.getD index 0 ≠ 0) : significant coeff count ≠ 0 := by
  intro none
  exact nonzero (getD_of_significant_le (by omega) inside)

/-- The digits are the significant ones and zeros. -/
theorem take_significant {coeff : List Nat} :
    coeff = coeff.take (significant coeff coeff.length) ++
      List.replicate (coeff.length - significant coeff coeff.length) 0 := by
  have le := significant_le coeff coeff.length
  refine List.ext_getElem ?_ fun index inside _ => ?_
  · rw [List.length_append, List.length_take_of_le le, List.length_replicate]
    omega
  · rcases Nat.lt_or_ge index (significant coeff coeff.length) with before | behind
    · rw [List.getElem_append_left (by rw [List.length_take_of_le le]; exact before),
        List.getElem_take]
    · have zero := getD_of_significant_le behind inside
      rw [List.getD_eq_getElem _ _ inside] at zero
      rw [List.getElem_append_right (by rw [List.length_take_of_le le]; exact behind),
        List.getElem_replicate, zero]

theorem trimmed_take_significant (coeff : List Nat) :
    Trimmed (coeff.take (significant coeff coeff.length)) := by
  rcases count_eq : significant coeff coeff.length with _ | last
  · rw [List.take_zero]
    exact Positional.trimmed_nil
  · have nonzero := getD_significant_ne count_eq
    have le := significant_le coeff coeff.length
    rw [count_eq] at le
    rw [List.getD_eq_getElem _ _ le] at nonzero
    rw [Trimmed, List.take_succ_eq_append_getElem le, List.getLast?_concat]
    exact fun zero => nonzero (Option.some.inj zero)

/-- What `digits` makes of a coefficient that is not zero. -/
structure Normalized (pMax : Nat) (coeff : List Nat) (dig : Nat) (normal : List Nat)
    (shift : Nat) : Prop where
  dig_ne : dig ≠ 0
  dig_le : dig ≤ pMax
  shift_lt : shift < pMax
  length_eq : normal.length = pMax
  digits : Digits 10 normal
  full : Full (pMax - 1) (number 10 normal)
  number_eq : number 10 normal = number 10 coeff * 10 ^ shift
  trimmed : Trimmed (normal.take dig)
  filled : normal = normal.take dig ++ List.replicate (pMax - dig) 0

theorem number_eq_zero_of_all {coeff : List Nat} (zero : ∀ digit ∈ coeff, digit = 0) :
    number 10 coeff = 0 := by
  rw [List.eq_replicate_of_mem zero, Positional.number_replicate_zero]

theorem digits_of_number_eq_zero {coeff : List Nat} (zero : number 10 coeff = 0) (exp : Int) :
    digits coeff.length coeff exp = (0, coeff, exp) := by
  rw [digits, if_neg]
  intro inside
  have nonzero := List.findIdx_getElem (w := inside)
  have split : coeff = coeff.take (coeff.findIdx (· != 0)) ++
      coeff[coeff.findIdx (· != 0)] :: coeff.drop (coeff.findIdx (· != 0) + 1) := by
    rw [List.cons_getElem_drop_succ, List.take_append_drop]
  have digit_pos : 0 < coeff[coeff.findIdx (· != 0)] := by
    have ne := bne_iff_ne.mp nonzero
    omega
  rw [split, Positional.number_append] at zero
  have least := @Positional.pow_le_number 10 _ digit_pos
    (coeff.drop (coeff.findIdx (· != 0) + 1))
  have power_pos : 0 < 10 ^ (coeff.drop (coeff.findIdx (· != 0) + 1)).length :=
    Nat.pow_pos (by decide)
  omega

theorem digits_of_number_ne_zero {coeff : List Nat} (good : Digits 10 coeff)
    (nonzero : number 10 coeff ≠ 0) (exp : Int) :
    ∃ dig normal shift, digits coeff.length coeff exp = (dig, normal, exp - (shift : Nat)) ∧
      Normalized coeff.length coeff dig normal shift := by
  set shift := coeff.findIdx (· != 0) with shift_eq
  have inside : shift < coeff.length := by
    rw [shift_eq, List.findIdx_lt_length]
    by_contra none
    refine nonzero (number_eq_zero_of_all fun digit member => ?_)
    by_contra ne
    exact none ⟨digit, member, bne_iff_ne.mpr ne⟩
  have digit_ne : coeff[shift] ≠ 0 := by
    have found := List.findIdx_getElem (w := inside)
    exact bne_iff_ne.mp found
  have front_zero : number 10 (coeff.take shift) = 0 := by
    refine number_eq_zero_of_all fun digit member => ?_
    obtain ⟨index, lt, rfl⟩ := List.mem_take_iff_getElem.mp member
    have before := List.not_of_lt_findIdx (lt_min_iff.mp lt).1
    simpa using before
  set normal := coeff.drop shift ++ List.replicate shift 0 with normal_eq
  have length_eq : normal.length = coeff.length := by
    rw [normal_eq, List.length_append, List.length_drop, List.length_replicate]
    omega
  have normal_cons : normal =
      coeff[shift] :: (coeff.drop (shift + 1) ++ List.replicate shift 0) := by
    rw [normal_eq, ← List.cons_getElem_drop_succ (h := inside), List.cons_append]
  have drop_number : number 10 (coeff.drop shift) = number 10 coeff := by
    have split := @Positional.number_append 10 (coeff.take shift) (coeff.drop shift)
    rw [List.take_append_drop, front_zero, Nat.zero_mul, Nat.zero_add] at split
    exact split.symm
  have normal_digits : Digits 10 normal :=
    Digits.append_zeros (by decide) (fun _ member => good _ (List.mem_of_mem_drop member)) _
  have same_count : significant normal (coeff.length - shift) =
      significant normal normal.length := by
    refine (significant_of_zeros (by omega) fun index behind inside => ?_).symm
    rw [normal_eq, List.getD_append_right _ _ _ _ (by rw [List.length_drop]; exact behind)]
    have inside' : index - (coeff.drop shift).length < shift := by
      rw [List.length_drop]
      omega
    exact List.getD_replicate 0 inside'
  refine ⟨significant normal normal.length, normal, shift, ?_, ?_⟩
  · rw [digits, if_pos inside, ← same_count]
  · refine ⟨?_, ?_, inside, length_eq, normal_digits, ⟨?_, ?_⟩, ?_, trimmed_take_significant normal, ?_⟩
    · have first_ne : normal.getD 0 0 ≠ 0 := by
        rw [normal_cons, List.getD_cons_zero]
        exact digit_ne
      exact significant_pos (by omega) first_ne
    · rw [← length_eq]
      exact significant_le normal _
    · have least := @Positional.pow_le_number 10 _ (Nat.pos_of_ne_zero digit_ne)
        (coeff.drop (shift + 1) ++ List.replicate shift 0)
      rw [← normal_cons] at least
      have rest_length : (coeff.drop (shift + 1) ++ List.replicate shift 0).length =
          coeff.length - 1 := by
        rw [List.length_append, List.length_drop, List.length_replicate]
        omega
      rwa [rest_length] at least
    · have most := Positional.number_lt normal_digits
      rwa [length_eq, show coeff.length = coeff.length - 1 + 1 by omega] at most
    · rw [normal_eq, Positional.number_append_zeros, drop_number]
    · rw [← length_eq]
      exact take_significant

end DecFloat
end Firebird
