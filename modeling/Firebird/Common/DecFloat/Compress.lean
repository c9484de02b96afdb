import Firebird.Common.DecFloat.Normal

/-!
# Compressed coefficients

Three digits take ten bits of an index key.  A zero byte at the end is left out, so that a longer
coefficient never gets the smaller key: without zeros at their ends, coefficients compare as the
bytes they are compressed to.
-/

namespace Firebird
namespace DecFloat

open Positional (number Digits Trimmed filled)

/-! ## Groups of three digits -/

theorem digits_groups {coeff : List Nat} (good : Digits 10 coeff) :
    Digits 1000 (groups coeff) := by
  fun_induction groups coeff with
  | case1 => exact fun _ member => absurd member List.not_mem_nil
  | case2 first =>
      intro value member
      have first_lt := good first (by simp)
      rw [List.mem_singleton.mp member]
      omega
  | case3 first second =>
      intro value member
      have first_lt := good first (by simp)
      have second_lt := good second (by simp)
      rw [List.mem_singleton.mp member]
      omega
  | case4 first second third rest ih =>
      intro value member
      have first_lt := good first (by simp)
      have second_lt := good second (by simp)
      have third_lt := good third (by simp)
      rcases List.mem_cons.mp member with rfl | later
      · omega
      · exact ih (fun _ inside => good _ (by simp [inside])) value later

theorem length_groups_le {coeff : List Nat} {count : Nat} (fits : coeff.length ≤ 3 * count) :
    (groups coeff).length ≤ count := by
  fun_induction groups coeff generalizing count with
  | case1 => exact Nat.zero_le _
  | case2 first =>
      simp only [List.length_singleton] at fits ⊢
      omega
  | case3 first second =>
      simp only [List.length_cons, List.length_nil] at fits ⊢
      omega
  | case4 first second third rest ih =>
      simp only [List.length_cons] at fits ⊢
      have rest_le := @ih (count - 1) (by omega)
      omega

theorem groups_ne_nil {coeff : List Nat} (nonempty : coeff ≠ []) : groups coeff ≠ [] := by
  fun_cases groups coeff with
  | case1 => exact absurd rfl nonempty
  | case2 => exact List.cons_ne_nil _ _
  | case3 => exact List.cons_ne_nil _ _
  | case4 => exact List.cons_ne_nil _ _

theorem trimmed_groups {coeff : List Nat} (trimmed : Trimmed coeff) :
    Trimmed (groups coeff) := by
  fun_induction groups coeff with
  | case1 => exact Positional.trimmed_nil
  | case2 first =>
      simp only [Trimmed, List.getLast?_singleton, ne_eq, Option.some.injEq] at trimmed ⊢
      omega
  | case3 first second =>
      simp only [Trimmed, List.getLast?_cons_cons, List.getLast?_singleton, ne_eq,
        Option.some.injEq] at trimmed ⊢
      omega
  | case4 first second third rest ih =>
      have rest_trimmed := trimmed.of_cons.of_cons
      rcases eq_or_ne rest [] with rfl | nonempty
      · simp only [Trimmed, groups, List.getLast?_singleton, ne_eq, Option.some.injEq]
          at rest_trimmed ⊢
        omega
      · have next := ih rest_trimmed.of_cons
        obtain ⟨group, others, groups_eq⟩ := List.exists_cons_of_ne_nil (groups_ne_nil nonempty)
        rw [groups_eq] at next ⊢
        rwa [Trimmed, List.getLast?_cons_cons]

theorem filled_nil (base length : Nat) : filled base length [] = 0 := Nat.zero_mul _

/-- Three digits to the base ten are one to the base thousand. -/
theorem filled_groups {coeff : List Nat} {count : Nat} (fits : coeff.length ≤ 3 * count) :
    filled 1000 count (groups coeff) = filled 10 (3 * count) coeff := by
  have power_eq (less : Nat) : 1000 ^ less = 10 ^ (3 * less) := by
    rw [Nat.pow_mul]
  have tripled (less : Nat) : 3 * (less + 1) = 3 * less + 1 + 1 + 1 := rfl
  have pred {length : Nat} (positive : 0 < length) (le : length ≤ 3 * count) :
      ∃ less, count = less + 1 := ⟨count - 1, by omega⟩
  fun_induction groups coeff generalizing count with
  | case1 => rw [filled_nil, filled_nil]
  | case2 first =>
      obtain ⟨less, rfl⟩ := pred Nat.one_pos fits
      rw [tripled, Positional.filled_cons (by simp), Positional.filled_cons (by simp),
        filled_nil, filled_nil, power_eq]
      ring
  | case3 first second =>
      obtain ⟨less, rfl⟩ := pred Nat.two_pos fits
      rw [tripled, Positional.filled_cons (by simp), Positional.filled_cons (by simp),
        Positional.filled_cons (by simp), filled_nil, filled_nil, power_eq]
      ring
  | case4 first second third rest ih =>
      have rest_fits : rest.length + 3 ≤ 3 * count := fits
      obtain ⟨less, rfl⟩ := pred (Nat.succ_pos _) rest_fits
      have rest_le : rest.length ≤ 3 * less := by omega
      have rest_eq := @ih less rest_le (fun positive le => ⟨less - 1, by omega⟩)
      rw [tripled, Positional.filled_cons (length_groups_le rest_le),
        Positional.filled_cons (by simp only [List.length_cons]; omega),
        Positional.filled_cons (by simp only [List.length_cons]; omega),
        Positional.filled_cons rest_le, rest_eq, power_eq]
      ring

/-! ## Ten bits of a group in two bytes -/

/-- The byte under `k` has room for the upper bits of the next group. -/
structure Aligned (t byte : Nat) : Prop where
  table_lt : t < 4
  room : 2 ^ (8 - 2 * t) ∣ byte
  byte_lt : byte < 256

/-- The upper bits of a group go into the byte, the others to the top of the next one. -/
theorem compress_cons {t byte val : Nat} (aligned : Aligned t byte) (small : val < 1024)
    (rest : List Nat) :
    compress (val :: rest) t byte =
      (byte + val / 2 ^ (2 + 2 * t)) ::
        if t = 3 then val % 256 :: compress rest 0 0
        else compress rest (t + 1) (val % 2 ^ (2 + 2 * t) * 2 ^ (6 - 2 * t)) := by
  have table_lt := aligned.table_lt
  obtain ⟨upper, rfl⟩ := aligned.room
  have byte_lt := aligned.byte_lt
  have table_eq : table t = ⟨2 + 2 * t, 6 - 2 * t⟩ := by
    obtain rfl | rfl | rfl | rfl : t = 0 ∨ t = 1 ∨ t = 2 ∨ t = 3 := by omega
    · rfl
    · rfl
    · rfl
    · rfl
  have upper_lt : val / 2 ^ (2 + 2 * t) < 2 ^ (8 - 2 * t) := by
    refine Nat.div_lt_of_lt_mul ?_
    rw [← Nat.pow_add, show 2 + 2 * t + (8 - 2 * t) = 10 by omega]
    exact small
  have size_dvd : 2 ^ (8 - 2 * t) ∣ 256 := Nat.pow_dvd_pow 2 (show 8 - 2 * t ≤ 8 by omega)
  have joined_lt : 2 ^ (8 - 2 * t) * upper + val / 2 ^ (2 + 2 * t) < 256 := by
    obtain ⟨count, count_eq⟩ := size_dvd
    rw [count_eq] at byte_lt ⊢
    have upper_le := Nat.mul_le_mul_left (2 ^ (8 - 2 * t)) (Nat.lt_of_mul_lt_mul_left byte_lt)
    rw [Nat.mul_succ] at upper_le
    omega
  have next_eq : val <<< (6 - 2 * t) % 256 = val % 2 ^ (2 + 2 * t) * 2 ^ (6 - 2 * t) := by
    have split : 256 = 2 ^ (2 + 2 * t) * 2 ^ (6 - 2 * t) := by
      rw [← Nat.pow_add, show 2 + 2 * t + (6 - 2 * t) = 8 by omega]
    rw [Nat.shiftLeft_eq, split, Nat.mul_mod_mul_right]
  rw [compress]
  simp only [table_eq]
  rw [Nat.shiftRight_eq_div_pow, ← Nat.two_pow_add_eq_or_of_lt upper_lt,
    Nat.mod_eq_of_lt joined_lt, next_eq]
  by_cases last : t = 3
  · subst last
    have whole : val % 2 ^ (2 + 2 * 3) * 2 ^ (6 - 2 * 3) = val % 256 := Nat.mul_one _
    rw [if_pos (by decide), if_pos rfl, whole]
  · rw [if_neg last, if_neg (by omega)]

/-- The state of the loop after a group. -/
theorem Aligned.next {t byte val : Nat} (aligned : Aligned t byte) (inner : t ≠ 3) :
    Aligned (t + 1) (val % 2 ^ (2 + 2 * t) * 2 ^ (6 - 2 * t)) := by
  have table_lt := aligned.table_lt
  refine ⟨by omega, ?_, ?_⟩
  · rw [show 8 - 2 * (t + 1) = 6 - 2 * t by omega]
    exact Nat.dvd_mul_left _ _
  · have mod_lt : val % 2 ^ (2 + 2 * t) < 2 ^ (2 + 2 * t) := Nat.mod_lt _ (Nat.two_pow_pos _)
    have less := Nat.mul_lt_mul_of_pos_right mod_lt (Nat.two_pow_pos (6 - 2 * t))
    rwa [← Nat.pow_add, show 2 + 2 * t + (6 - 2 * t) = 8 by omega] at less

theorem aligned_start : Aligned 0 0 := ⟨by decide, Nat.dvd_zero _, by decide⟩

/-! ## The order of compressed coefficients -/

/-- What is written begins with the byte under `k`, and with more than nothing if that is not
zero. -/
theorem compress_cases {vals : List Nat} (good : Digits 1000 vals) {t byte : Nat}
    (aligned : Aligned t byte) :
    (compress vals t byte = [] ∧ byte = 0) ∨
      ∃ first rest, compress vals t byte = first :: rest ∧ byte ≤ first ∧
        first < byte + 2 ^ (8 - 2 * t) := by
  cases vals with
  | nil =>
      by_cases zero : byte = 0
      · exact Or.inl ⟨by rw [compress, if_pos zero], zero⟩
      · refine Or.inr ⟨byte, [], by rw [compress, if_neg zero], le_rfl, ?_⟩
        exact Nat.lt_add_of_pos_right (Nat.two_pow_pos _)
  | cons val rest =>
      have small : val < 1000 := good val List.mem_cons_self
      refine Or.inr ⟨_, _, compress_cons aligned (by omega) rest, Nat.le_add_right _ _, ?_⟩
      refine Nat.add_lt_add_left (Nat.div_lt_of_lt_mul ?_) _
      have table_lt := aligned.table_lt
      rw [← Nat.pow_add, show 2 + 2 * t + (8 - 2 * t) = 10 by omega]
      omega

theorem compress_lt_of_byte_lt {vals others : List Nat} (good_vals : Digits 1000 vals)
    (good_others : Digits 1000 others) {t first second : Nat} (aligned_first : Aligned t first)
    (aligned_second : Aligned t second) (less : first < second) :
    compress vals t first < compress others t second := by
  have gap : first + 2 ^ (8 - 2 * t) ≤ second := by
    obtain ⟨count, rfl⟩ := aligned_first.room
    obtain ⟨other, rfl⟩ := aligned_second.room
    have le := Nat.mul_le_mul_left (2 ^ (8 - 2 * t)) (Nat.lt_of_mul_lt_mul_left less)
    rwa [Nat.mul_succ] at le
  rcases compress_cases good_others aligned_second with ⟨-, zero⟩ | ⟨head, tail, eq, ge, -⟩
  · omega
  · rw [eq]
    rcases compress_cases good_vals aligned_first with ⟨nil, -⟩ | ⟨front, back, front_eq, -, lt⟩
    · rw [nil]
      exact List.nil_lt_cons _ _
    · rw [front_eq]
      exact List.cons_lt_cons_iff.mpr (Or.inl (by omega))

/-- Something is written for a group that is not zero. -/
theorem compress_ne_nil {vals : List Nat} (good : Digits 1000 vals) (nonempty : vals ≠ [])
    {t byte : Nat} (aligned : Aligned t byte) : compress vals t byte ≠ [] := by
  obtain ⟨val, rest, rfl⟩ := List.exists_cons_of_ne_nil nonempty
  have small : val < 1000 := good val List.mem_cons_self
  rw [compress_cons aligned (by omega)]
  exact List.cons_ne_nil _ _

theorem compress_lt {vals others : List Nat} (good_vals : Digits 1000 vals)
    (good_others : Digits 1000 others) (trimmed : Trimmed others) {t byte : Nat}
    (aligned : Aligned t byte) (less : vals < others) :
    compress vals t byte < compress others t byte := by
  induction vals generalizing others t byte with
  | nil =>
      cases others with
      | nil => exact absurd less (lt_irrefl _)
      | cons val rest =>
          have small : val < 1000 := good_others val List.mem_cons_self
          have rest_good : Digits 1000 rest := fun _ member =>
            good_others _ (List.mem_cons_of_mem _ member)
          rw [compress_cons aligned (by omega), compress]
          split
          · exact List.nil_lt_cons _ _
          · rw [List.cons_lt_cons_iff]
            rcases Nat.eq_zero_or_pos (val / 2 ^ (2 + 2 * t)) with zero | pos
            · refine Or.inr ⟨by rw [zero, Nat.add_zero], ?_⟩
              split
              · exact List.nil_lt_cons _ _
              · rename_i inner
                have next := @Aligned.next _ _ val aligned inner
                rcases eq_or_ne rest [] with rfl | nonempty
                · have val_ne : val ≠ 0 := by
                    rw [Trimmed, List.getLast?_singleton] at trimmed
                    exact fun zero => trimmed (congrArg some zero)
                  have val_lt : val < 2 ^ (2 + 2 * t) :=
                    (Nat.div_eq_zero_iff_lt (Nat.two_pow_pos _)).mp zero
                  rw [Nat.mod_eq_of_lt val_lt, compress, if_neg]
                  · exact List.nil_lt_cons _ _
                  · exact (Nat.mul_pos (Nat.pos_of_ne_zero val_ne) (Nat.two_pow_pos _)).ne'
                · obtain ⟨head, tail, eq⟩ := List.exists_cons_of_ne_nil
                    (compress_ne_nil rest_good nonempty next)
                  rw [eq]
                  exact List.nil_lt_cons _ _
            · exact Or.inl (by omega)
  | cons val rest ih =>
      cases others with
      | nil => exact absurd less (List.not_lt_nil _)
      | cons other later =>
          have val_small : val < 1000 := good_vals val List.mem_cons_self
          have other_small : other < 1000 := good_others other List.mem_cons_self
          have rest_good : Digits 1000 rest := fun _ member =>
            good_vals _ (List.mem_cons_of_mem _ member)
          have later_good : Digits 1000 later := fun _ member =>
            good_others _ (List.mem_cons_of_mem _ member)
          rw [compress_cons aligned (by omega), compress_cons aligned (by omega),
            List.cons_lt_cons_iff]
          rcases List.cons_lt_cons_iff.mp less with head_less | ⟨rfl, rest_less⟩
          · rcases (Nat.div_le_div_right (c := 2 ^ (2 + 2 * t)) head_less.le).lt_or_eq with
              upper_less | upper_eq
            · exact Or.inl (Nat.add_lt_add_left upper_less _)
            · refine Or.inr ⟨congrArg (byte + ·) upper_eq, ?_⟩
              have lower_less : val % 2 ^ (2 + 2 * t) < other % 2 ^ (2 + 2 * t) := by
                have val_eq := Nat.div_add_mod val (2 ^ (2 + 2 * t))
                have other_eq := Nat.div_add_mod other (2 ^ (2 + 2 * t))
                rw [upper_eq] at val_eq
                omega
              by_cases last : t = 3
              · subst last
                rw [if_pos rfl, if_pos rfl, List.cons_lt_cons_iff]
                exact Or.inl lower_less
              · rw [if_neg last, if_neg last]
                exact compress_lt_of_byte_lt rest_good later_good (aligned.next last)
                  (aligned.next last) (Nat.mul_lt_mul_of_pos_right lower_less (Nat.two_pow_pos _))
          · refine Or.inr ⟨rfl, ?_⟩
            by_cases last : t = 3
            · rw [if_pos last, if_pos last, List.cons_lt_cons_iff]
              exact Or.inr ⟨rfl, ih rest_good later_good trimmed.of_cons aligned_start rest_less⟩
            · rw [if_neg last, if_neg last]
              exact ih rest_good later_good trimmed.of_cons (aligned.next last) rest_less

/-- Coefficients without zeros at their ends compare as the bytes they are compressed to. -/
theorem compress_groups_lt_iff {first second : List Nat} {count : Nat}
    (good_first : Digits 10 first) (good_second : Digits 10 second)
    (trimmed_first : Trimmed first) (trimmed_second : Trimmed second)
    (fits_first : first.length ≤ 3 * count) (fits_second : second.length ≤ 3 * count) :
    compress (groups first) 0 0 < compress (groups second) 0 0 ↔
      filled 10 (3 * count) first < filled 10 (3 * count) second := by
  have groups_first := digits_groups good_first
  have groups_second := digits_groups good_second
  have ends_first := trimmed_groups trimmed_first
  have ends_second := trimmed_groups trimmed_second
  rw [← filled_groups fits_first, ← filled_groups fits_second,
    ← Trimmed.lt_iff (by decide) groups_first groups_second ends_first ends_second
      (length_groups_le fits_first) (length_groups_le fits_second)]
  refine ⟨fun less => ?_, compress_lt groups_first groups_second ends_second aligned_start⟩
  rcases lt_trichotomy (groups first) (groups second) with before | same | after
  · exact before
  · rw [same] at less
    exact absurd less (lt_irrefl _)
  · exact absurd less (compress_lt groups_second groups_first ends_first aligned_start after).not_gt

end DecFloat
end Firebird
