import Firebird.Common.DecFloat.Compress
import Firebird.Common.DecFloat.SortKey

/-!
# The order of index keys

An index key begins with the biased exponent in two bytes, in the middle of whose range zero lies,
and goes on with the compressed digits.  The bytes order the values whose biased exponent lies on
the side of their sign.
-/

namespace Firebird
namespace DecFloat

open Positional (number Digits Trimmed filled)
open Scientific (Full scaled Ranked RankLt)

/-! ## The digits of negative values -/

/-- The digits from the end of the coefficient to its next power of ten. -/
def inverted (coeff : List Nat) (dig : Nat) : List Nat :=
  (coeff.modify (dig - 1) fun digit => digit - 1).map fun digit => 9 - digit

theorem inverted_concat (front : List Nat) (digit : Nat) :
    inverted (front ++ [digit]) (front.length + 1) =
      front.map (fun digit => 9 - digit) ++ [9 - (digit - 1)] := by
  have modified : (front ++ [digit]).modify front.length (fun digit => digit - 1) =
      front ++ [digit - 1] := by
    rw [List.modify_eq_set, List.set_append_right _ _ le_rfl, Nat.sub_self,
      List.getElem?_concat_length]
    rfl
  rw [inverted, Nat.add_sub_cancel, modified, List.map_append]
  rfl

/-- The inverted digits of a coefficient without zeros at its end. -/
structure Inverted (coeff result : List Nat) : Prop where
  length_eq : result.length = coeff.length
  digits : Digits 10 result
  trimmed : Trimmed result
  number_eq : number 10 result + number 10 coeff = 10 ^ coeff.length

theorem inverted_spec {coeff : List Nat} (good : Digits 10 coeff) (trimmed : Trimmed coeff)
    (nonempty : coeff ≠ []) : Inverted coeff (inverted coeff coeff.length) := by
  rcases List.eq_nil_or_concat' coeff with rfl | ⟨front, digit, rfl⟩
  · exact absurd rfl nonempty
  · have front_good := good.of_append_left
    have digit_lt := good digit (by simp)
    have digit_ne : digit ≠ 0 := by
      rw [Trimmed, List.getLast?_concat] at trimmed
      exact fun zero => trimmed (congrArg some zero)
    have front_sum := Positional.number_complement front_good
    rw [List.length_append, List.length_singleton, inverted_concat]
    refine ⟨?_, fun other member => ?_, ?_, ?_⟩
    · simp
    · rcases List.mem_append.mp member with inside | last
      · obtain ⟨before, -, rfl⟩ := List.mem_map.mp inside
        omega
      · rw [List.mem_singleton.mp last]
        omega
    · rw [Trimmed, List.getLast?_concat]
      intro zero
      have value_eq := Option.some.inj zero
      omega
    · rw [Positional.number_concat, Positional.number_concat, List.length_append,
        List.length_singleton, Nat.pow_succ, ← front_sum]
      have same : (front.map fun digit => 9 - digit) =
          front.map fun digit => 10 - 1 - digit := rfl
      rw [same]
      omega

/-! ## Two bytes of an exponent -/

theorem exponent_lt_iff {first second : Nat} (first_lt : first < 65536) (second_lt : second < 65536)
    {left right : List Nat} :
    (first / 256 % 256 :: first % 256 :: left) < (second / 256 % 256 :: second % 256 :: right) ↔
      first < second ∨ first = second ∧ left < right := by
  rw [List.cons_lt_cons_iff, List.cons_lt_cons_iff]
  constructor
  · rintro (upper | ⟨upper, lower | ⟨lower, less⟩⟩)
    · exact Or.inl (by omega)
    · exact Or.inl (by omega)
    · exact Or.inr ⟨by omega, less⟩
  · rintro (less | ⟨rfl, less⟩)
    · rcases Nat.lt_or_ge (first / 256 % 256) (second / 256 % 256) with upper | upper
      · exact Or.inl upper
      · exact Or.inr ⟨by omega, Or.inl (by omega)⟩
    · exact Or.inr ⟨rfl, Or.inr ⟨rfl, less⟩⟩

/-! ## The key of a value -/

/-- The exponent and the digits that an index key is made of. -/
structure IndexKeyed (decimal : Decimal decQuad) (exp : Int) (ds : List Nat) : Prop where
  least : -12354 ≤ exp
  most : exp < 53182
  digits : Digits 10 ds
  trimmed : Trimmed ds
  length_le : ds.length ≤ 36
  key_eq : decimal.makeIndexKey =
    ((exp + 12354).toNat / 256 % 256) :: ((exp + 12354).toNat % 256) :: compress (groups ds) 0 0

theorem IndexKeyed.lt_iff {first second : Decimal decQuad} {left right : Int}
    {ds others : List Nat} (keyed_first : IndexKeyed first left ds)
    (keyed_second : IndexKeyed second right others) :
    first.makeIndexKey < second.makeIndexKey ↔
      RankLt (left, filled 10 36 ds) (right, filled 10 36 others) := by
  have left_least := keyed_first.least
  have left_most := keyed_first.most
  have right_least := keyed_second.least
  have right_most := keyed_second.most
  have coefficient_iff : compress (groups ds) 0 0 < compress (groups others) 0 0 ↔
      filled 10 36 ds < filled 10 36 others :=
    @compress_groups_lt_iff ds others 12 keyed_first.digits keyed_second.digits
      keyed_first.trimmed keyed_second.trimmed keyed_first.length_le keyed_second.length_le
  rw [keyed_first.key_eq, keyed_second.key_eq, exponent_lt_iff (by omega) (by omega),
    coefficient_iff]
  unfold RankLt
  dsimp only
  omega

theorem indexKeyed_of_zero {decimal : Decimal decQuad} (zero : decimal.value = 0) :
    IndexKeyed decimal 0 [] := by
  have digits_eq := digits_of_number_eq_zero ((value_eq_zero_iff decimal).mp zero) decimal.exp
  rw [decimal.length_coeff] at digits_eq
  refine ⟨by decide, by decide, fun _ member => absurd member List.not_mem_nil,
    Positional.trimmed_nil, Nat.zero_le _, ?_⟩
  rw [Decimal.makeIndexKey, digits_eq]
  simp [groups, decQuad]

theorem indexKeyed_of_ne_zero {decimal : Decimal decQuad} (nonzero : decimal.value ≠ 0) :
    ∃ coefficient exp ds, Full 35 coefficient ∧
      decimal.value =
        (if decimal.sign then -scaled coefficient (exp - 2) else scaled coefficient (exp - 2)) ∧
      IndexKeyed decimal (if decimal.sign then -(exp + 6177) else exp + 6177) ds ∧ ds ≠ [] ∧
      filled 10 36 ds = if decimal.sign then 10 ^ 36 - coefficient else coefficient := by
  have number_ne : number 10 decimal.coeff ≠ 0 := fun zero =>
    nonzero ((value_eq_zero_iff decimal).mpr zero)
  obtain ⟨dig, normal, shift, digits_eq, normalized⟩ :=
    digits_of_number_ne_zero decimal.digits number_ne decimal.exp
  rw [decimal.length_coeff] at digits_eq normalized
  have pMax_eq : decQuad.pMax = 34 := rfl
  have dig_le : dig ≤ 34 := normalized.dig_le
  have shift_lt : shift < 34 := normalized.shift_lt
  have least : -6176 ≤ decimal.exp := decimal.least
  have most : decimal.exp ≤ 6111 := decimal.most
  have front_length : (normal.take dig).length = dig := by
    rw [List.length_take_of_le]
    rw [normalized.length_eq]
    exact normalized.dig_le
  have front_digits : Digits 10 (normal.take dig) := fun _ member =>
    normalized.digits _ (List.mem_of_mem_take member)
  have front_ne : normal.take dig ≠ [] := by
    rw [← List.length_pos_iff_ne_nil, front_length]
    exact Nat.pos_of_ne_zero normalized.dig_ne
  have front_filled : filled 10 36 (normal.take dig) = number 10 normal * 10 ^ 2 := by
    conv_rhs => rw [normalized.filled]
    rw [Positional.number_append_zeros, filled, front_length, Nat.mul_assoc, ← Nat.pow_add, pMax_eq,
      show 34 - dig + 2 = 36 - dig by omega]
  have full : Full 35 (number 10 normal * 10 ^ 2) := by
    have normal_full : Full 33 (number 10 normal) := normalized.full
    have normal_least := normal_full.least
    have normal_most := normal_full.most
    exact ⟨by omega, by omega⟩
  have value_eq : scaled (number 10 normal * 10 ^ 2) (decimal.exp - shift - 2) =
      scaled (number 10 decimal.coeff) decimal.exp := by
    have moved := scaled_shift (number 10 normal) 2 (decimal.exp - shift)
    rw [Nat.cast_ofNat] at moved
    rw [moved, normalized.number_eq, scaled_shift]
  refine ⟨number 10 normal * 10 ^ 2, decimal.exp - shift,
    if decimal.sign then inverted (normal.take dig) dig else normal.take dig, full, ?_, ?_⟩
  · rw [value_eq, Decimal.value, denoted_eq]
  · have inverse := inverted_spec front_digits normalized.trimmed front_ne
    rw [front_length] at inverse
    rcases sign : decimal.sign with _ | _
    · simp only [Bool.false_eq_true, if_false]
      refine ⟨⟨by omega, by omega, front_digits, normalized.trimmed, by omega, ?_⟩, front_ne,
        front_filled⟩
      rw [Decimal.makeIndexKey, digits_eq]
      simp only [sign, normalized.dig_ne, if_false, Bool.false_eq_true, false_and]
      rfl
    · simp only [if_true]
      refine ⟨⟨by omega, by omega, inverse.digits, inverse.trimmed, ?_, ?_⟩, ?_, ?_⟩
      · rw [inverse.length_eq, front_length]
        omega
      · rw [Decimal.makeIndexKey, digits_eq]
        simp only [sign, normalized.dig_ne, if_false, if_true, ne_eq, not_false_eq_true, and_self]
        rfl
      · rw [← List.length_pos_iff_ne_nil, inverse.length_eq, front_length]
        exact Nat.pos_of_ne_zero normalized.dig_ne
      · have sum := inverse.number_eq
        have power_eq : 10 ^ 36 = 10 ^ dig * 10 ^ (36 - dig) := by
          rw [← Nat.pow_add, Nat.add_sub_cancel' (by omega)]
        rw [front_length] at sum
        rw [← front_filled, filled, filled, inverse.length_eq, front_length, power_eq, ← sum,
          Nat.add_mul, Nat.add_sub_cancel]

/-! ## The order of index keys -/

/-- Zero, or a magnitude that leaves the biased exponent on the side of the sign. -/
def IndexRegular (decimal : Decimal decQuad) : Prop :=
  decimal.value = 0 ∨
    (10 : ℚ) ^ ((decQuad.pMax : Int) - 2 - decQuad.bias) ≤ decimal.value ∨
    decimal.value ≤ -(10 : ℚ) ^ ((decQuad.pMax : Int) - 1 - decQuad.bias)

/-- The index key of a value is right: against every regular value the bytes compare as the values
do. -/
def IndexRight (decimal : Decimal decQuad) : Prop :=
  ∀ other : Decimal decQuad, IndexRegular other →
    (decimal.makeIndexKey < other.makeIndexKey ↔ decimal.value < other.value) ∧
    (other.makeIndexKey < decimal.makeIndexKey ↔ other.value < decimal.value) ∧
    (decimal.makeIndexKey = other.makeIndexKey ↔ decimal.value = other.value)

theorem indexRegular_iff_of_positive {decimal : Decimal decQuad} {coefficient : Nat} {exp : Int}
    (full : Full 35 coefficient) (value_eq : decimal.value = scaled coefficient (exp - 2)) :
    IndexRegular decimal ↔ 0 ≤ exp + 6177 := by
  have pos := Scientific.scaled_pos full (exp - 2)
  have power_pos : (0 : ℚ) < 10 ^ ((decQuad.pMax : Int) - 1 - decQuad.bias) :=
    zpow_pos (by norm_num) _
  have exponent_eq : (decQuad.pMax : Int) - 2 - decQuad.bias = ((35 : Nat) : Int) + (-6179) := rfl
  have not_below : ¬ scaled coefficient (exp - 2) ≤
      -(10 : ℚ) ^ ((decQuad.pMax : Int) - 1 - decQuad.bias) :=
    fun below => absurd (pos.trans_le below) (neg_neg_of_pos power_pos).not_gt
  rw [IndexRegular, value_eq, or_iff_right pos.ne', or_iff_left not_below, exponent_eq,
    pow_le_scaled_iff full]
  omega

theorem indexRegular_iff_of_negative {decimal : Decimal decQuad} {coefficient : Nat} {exp : Int}
    (full : Full 35 coefficient) (value_eq : decimal.value = -scaled coefficient (exp - 2)) :
    IndexRegular decimal ↔ 0 < exp + 6177 := by
  have pos := Scientific.scaled_pos full (exp - 2)
  have power_pos : (0 : ℚ) < 10 ^ ((decQuad.pMax : Int) - 2 - decQuad.bias) :=
    zpow_pos (by norm_num) _
  have exponent_eq : (decQuad.pMax : Int) - 1 - decQuad.bias = ((35 : Nat) : Int) + (-6178) := rfl
  have not_above : ¬ (10 : ℚ) ^ ((decQuad.pMax : Int) - 2 - decQuad.bias) ≤
      -scaled coefficient (exp - 2) :=
    fun above => absurd (power_pos.trans_le above) (neg_neg_of_pos pos).not_gt
  rw [IndexRegular, value_eq, or_iff_right (neg_neg_of_pos pos).ne, or_iff_right not_above,
    neg_le_neg_iff, exponent_eq, pow_le_scaled_iff full]
  omega

/-- An index key is the rank of its value. -/
theorem indexRank_of_regular {decimal : Decimal decQuad} (regular : IndexRegular decimal) :
    ∃ exp ds, IndexKeyed decimal exp ds ∧
      Ranked 35 6179 (10 ^ 36) decimal.value (exp, filled 10 36 ds) := by
  by_cases zero : decimal.value = 0
  · refine ⟨0, [], indexKeyed_of_zero zero, ?_⟩
    rw [zero, filled_nil]
    exact .zero
  · obtain ⟨coefficient, exp, ds, full, value_eq, keyed, -, filled_eq⟩ := indexKeyed_of_ne_zero zero
    have exponent_eq : exp - 2 + 6179 = exp + 6177 := by ring
    refine ⟨_, ds, keyed, ?_⟩
    rw [filled_eq]
    rcases sign : decimal.sign with _ | _
    · rw [sign] at value_eq
      have nonneg := (indexRegular_iff_of_positive full value_eq).mp regular
      have ranked := @Ranked.positive 35 6179 (10 ^ 36) coefficient (exp - 2) full
        (by rw [exponent_eq]; exact nonneg)
      rw [exponent_eq] at ranked
      rw [value_eq]
      exact ranked
    · rw [sign] at value_eq
      have positive := (indexRegular_iff_of_negative full value_eq).mp regular
      have ranked := @Ranked.negative 35 6179 (10 ^ 36) coefficient (exp - 2) full full.most.le
        (by rw [exponent_eq]; exact positive)
      rw [exponent_eq] at ranked
      rw [value_eq]
      exact ranked

theorem indexKey_lt_iff {first second : Decimal decQuad} (regular_first : IndexRegular first)
    (regular_second : IndexRegular second) :
    first.makeIndexKey < second.makeIndexKey ↔ first.value < second.value := by
  obtain ⟨left, ds, keyed_first, ranked_first⟩ := indexRank_of_regular regular_first
  obtain ⟨right, others, keyed_second, ranked_second⟩ := indexRank_of_regular regular_second
  rw [keyed_first.lt_iff keyed_second, ranked_first.lt_iff ranked_second]

theorem indexRight_of_regular {decimal : Decimal decQuad} (regular : IndexRegular decimal) :
    IndexRight decimal := by
  intro other other_regular
  have less_iff := indexKey_lt_iff regular other_regular
  have more_iff := indexKey_lt_iff other_regular regular
  refine ⟨less_iff, more_iff, fun same => ?_, fun same => ?_⟩
  · rw [same] at less_iff more_iff
    exact le_antisymm (not_lt.mp fun more => lt_irrefl _ (more_iff.mpr more))
      (not_lt.mp fun less => lt_irrefl _ (less_iff.mpr less))
  · rw [same] at less_iff more_iff
    exact le_antisymm (not_lt.mp fun more => lt_irrefl _ (more_iff.mp more))
      (not_lt.mp fun less => lt_irrefl _ (less_iff.mp less))

theorem regular_of_indexRight {decimal : Decimal decQuad} (right : IndexRight decimal) :
    IndexRegular decimal := by
  by_contra irregular
  have nonzero : decimal.value ≠ 0 := fun zero => irregular (Or.inl zero)
  have zero_value := value_zero decQuad
  have zero_keyed := indexKeyed_of_zero zero_value
  obtain ⟨coefficient, exp, ds, full, value_eq, keyed, ds_ne, -⟩ := indexKeyed_of_ne_zero nonzero
  have pos := Scientific.scaled_pos full (exp - 2)
  obtain ⟨less_iff, more_iff, -⟩ := right (Decimal.zero decQuad) (Or.inl zero_value)
  rw [keyed.lt_iff zero_keyed, zero_value] at less_iff
  rw [zero_keyed.lt_iff keyed, zero_value] at more_iff
  rcases sign : decimal.sign with _ | _
  · rw [sign] at value_eq less_iff
    have below := not_le.mp (mt (indexRegular_iff_of_positive full value_eq).mpr irregular)
    have negative := less_iff.mp (Or.inl below)
    rw [value_eq] at negative
    exact absurd negative pos.le.not_gt
  · rw [sign] at value_eq more_iff
    have below := not_lt.mp (mt (indexRegular_iff_of_negative full value_eq).mpr irregular)
    have ds_pos : 0 < filled 10 36 ds :=
      Positional.filled_pos (by decide) keyed.trimmed ds_ne
    have wrong : RankLt (0, filled 10 36 []) (-(exp + 6177), filled 10 36 ds) := by
      rcases below.lt_or_eq with less | eq
      · exact Or.inl (neg_pos.mpr less)
      · refine Or.inr ⟨by rw [eq, neg_zero], ?_⟩
        rw [filled_nil]
        exact ds_pos
    have positive := more_iff.mp wrong
    rw [value_eq] at positive
    exact absurd positive (neg_neg_of_pos pos).not_gt

/-- The least positive value of `Decimal64`, `1E-398`. -/
def leastDouble : Decimal decDouble where
  sign := false
  coeff := List.replicate 15 0 ++ [1]
  exp := -398
  length_coeff := rfl
  digits := by
    unfold Digits
    decide
  least := by decide
  most := by decide

end DecFloat
end Firebird
