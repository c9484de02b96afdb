import Firebird.Common.DecFloat.Normal

/-!
# The order of sort keys

A sort key is a rank: the biased exponent, turned around for negative values, and the digits in
words of nine.  It orders values from the least magnitude on whose biased exponent is positive;
`grabKey` takes the sign from that exponent and so gives these values back.
-/

namespace Firebird
namespace DecFloat

open Positional (number Digits words)
open Scientific (Full scaled Ranked RankLt)

variable {format : Format}

/-! ## The words -/

/-- A digit as it is put into a key. -/
def oriented (sign : Bool) (digit : Nat) : Nat := if sign then 9 - digit else digit

theorem oriented_oriented (sign : Bool) {digit : Nat} (good : digit < 10) :
    oriented sign (oriented sign digit) = digit := by
  cases sign with
  | false => rfl
  | true =>
      simp only [oriented, if_true]
      omega

theorem digits_oriented {sign : Bool} {coeff : List Nat} (good : Digits 10 coeff) :
    Digits 10 (coeff.map (oriented sign)) := by
  intro digit member
  obtain ⟨other, other_member, rfl⟩ := List.mem_map.mp member
  have other_lt := good other other_member
  cases sign with
  | false => exact other_lt
  | true =>
      simp only [oriented, if_true]
      omega

theorem fits (format : Format) : format.pMax ≤ 9 * format.decWords := by
  have lt := format.pMax_lt
  omega

/-- The words after the first digits. -/
def packed (format : Format) (sign : Bool) (coeff : List Nat) (count : Nat) : List Nat :=
  (List.range count).foldl
    (fun key i => key.modify (i / 9) fun word =>
      ulong (ulong (word * 10) + if sign then 9 - coeff.getD i 0 else coeff.getD i 0))
    (List.replicate format.decWords 0)

theorem packed_succ (sign : Bool) (coeff : List Nat) (count : Nat) :
    packed format sign coeff (count + 1) =
      (packed format sign coeff count).modify (count / 9) fun word =>
        ulong (ulong (word * 10) + oriented sign (coeff.getD count 0)) := by
  rw [packed, List.range_succ, List.foldl_append]
  rfl

theorem modify_congr {list : List Nat} {index : Nat} {first second : Nat → Nat}
    (same : ∀ word, list[index]? = some word → first word = second word) :
    list.modify index first = list.modify index second := by
  refine List.ext_getElem? fun other => ?_
  rcases eq_or_ne index other with rfl | differs
  · rw [List.getElem?_modify_eq, List.getElem?_modify_eq]
    rcases here : list[index]? with _ | word
    · rfl
    · exact congrArg some (same word here)
  · rw [List.getElem?_modify_ne _ _ differs, List.getElem?_modify_ne _ _ differs]

/-- A word never gets too great for a `ULONG`. -/
theorem word_lt {count : Nat} {coeff : List Nat} (good : Digits 10 coeff) {word : Nat}
    (member : word ∈ words 10 9 count coeff) : word < 10 ^ 9 := by
  induction count generalizing coeff with
  | zero => exact absurd member List.not_mem_nil
  | succ count ih =>
      rcases List.mem_cons.mp member with rfl | later
      · have taken : Digits 10 (coeff.take 9) := fun _ inside =>
          good _ (List.mem_of_mem_take inside)
        exact (Positional.number_lt taken).trans_le
          (Nat.pow_le_pow_right (by decide) (List.length_take_le _ _))
      · exact ih (fun _ inside => good _ (List.mem_of_mem_drop inside)) later

theorem packed_eq (sign : Bool) {coeff : List Nat} (good : Digits 10 coeff)
    (length_eq : coeff.length = format.pMax) {count : Nat} (le : count ≤ format.pMax) :
    packed format sign coeff count =
      words 10 9 format.decWords ((coeff.map (oriented sign)).take count) := by
  have good_map : Digits 10 (coeff.map (oriented sign)) := digits_oriented good
  induction count with
  | zero => rw [List.take_zero, Positional.words_nil]; rfl
  | succ count ih =>
      have inside : count < (coeff.map (oriented sign)).length := by
        rw [List.length_map, length_eq]
        exact le
      have fits := fits format
      have digit_eq : (coeff.map (oriented sign))[count] = oriented sign (coeff.getD count 0) := by
        rw [List.getElem_map, List.getD_eq_getElem]
      have grown := @Positional.words_take_succ 10 9 format.decWords count (by decide) _
        inside (by omega)
      rw [packed_succ, ih (Nat.le_of_succ_le le), grown]
      refine modify_congr fun word here => ?_
      have member : word * 10 + (coeff.map (oriented sign))[count] ∈
          words 10 9 format.decWords ((coeff.map (oriented sign)).take (count + 1)) := by
        rw [grown]
        refine List.mem_of_getElem? (i := count / 9) ?_
        rw [List.getElem?_modify_eq, here]
        rfl
      have small := word_lt (fun _ inside => good_map _ (List.mem_of_mem_take inside)) member
      rw [digit_eq] at small ⊢
      rw [ulong, ulong, Nat.mod_add_mod]
      exact Nat.mod_eq_of_lt (small.trans (by decide))

theorem packed_step (sign : Bool) {coeff : List Nat} (good : Digits 10 coeff)
    (length_eq : coeff.length = format.pMax) {count : Nat} (lt : count < format.pMax) :
    packed format sign coeff (count + 1) =
      (packed format sign coeff count).modify (count / 9) fun word =>
        word * 10 + oriented sign (coeff.getD count 0) := by
  have inside : count < (coeff.map (oriented sign)).length := by
    rw [List.length_map, length_eq]
    exact lt
  have fits := fits format
  have digit_eq : (coeff.map (oriented sign))[count] = oriented sign (coeff.getD count 0) := by
    rw [List.getElem_map, List.getD_eq_getElem]
  rw [packed_eq sign good length_eq lt, packed_eq sign good length_eq lt.le, ← digit_eq]
  exact @Positional.words_take_succ 10 9 format.decWords count (by decide) _ inside (by omega)

/-- Taking the digits out of the words again. -/
theorem unpack_packed (sign : Bool) {coeff : List Nat} (good : Digits 10 coeff)
    (length_eq : coeff.length = format.pMax) {count : Nat} (le : count ≤ format.pMax)
    (bcd : List Nat) :
    unpack sign count (packed format sign coeff count) bcd = coeff.take count ++ bcd := by
  induction count generalizing bcd with
  | zero => rfl
  | succ count ih =>
      have fits := fits format
      have inside : count < coeff.length := by
        rw [length_eq]
        exact le
      have length_packed : (packed format sign coeff count).length = format.decWords := by
        rw [packed_eq sign good length_eq (Nat.le_of_succ_le le), Positional.length_words]
      have word_inside : count / 9 < (packed format sign coeff count).length := by
        rw [length_packed]
        omega
      have digit_lt : oriented sign (coeff.getD count 0) < 10 := by
        rw [List.getD_eq_getElem _ _ inside]
        exact digits_oriented good _ (List.mem_map_of_mem (List.getElem_mem inside))
      have restored : oriented sign (oriented sign (coeff.getD count 0)) = coeff[count] := by
        rw [List.getD_eq_getElem _ _ inside]
        exact oriented_oriented sign (good _ (List.getElem_mem inside))
      have step : packed format sign coeff (count + 1) =
          (packed format sign coeff count).set (count / 9)
            ((packed format sign coeff count)[count / 9] * 10 +
              oriented sign (coeff.getD count 0)) := by
        rw [packed_step sign good length_eq le, List.modify_eq_set,
          List.getElem?_eq_getElem word_inside, Option.getD_some]
      set word := (packed format sign coeff count)[count / 9] with word_eq
      have div_eq : (word * 10 + oriented sign (coeff.getD count 0)) / 10 = word := by omega
      have mod_eq : (word * 10 + oriented sign (coeff.getD count 0)) % 10 =
          oriented sign (coeff.getD count 0) := by omega
      have read : (packed format sign coeff (count + 1)).getD (count / 9) 0 =
          word * 10 + oriented sign (coeff.getD count 0) := by
        rw [step, List.getD_eq_getElem _ _ (by rw [List.length_set]; exact word_inside),
          List.getElem_set_self]
      have back : (packed format sign coeff (count + 1)).set (count / 9) word =
          packed format sign coeff count := by
        rw [step, List.set_set, word_eq, List.set_getElem_self]
      have oriented_eq : (if sign then 9 - oriented sign (coeff.getD count 0)
          else oriented sign (coeff.getD count 0)) = coeff[count] := restored
      rw [unpack]
      simp only [read, div_eq, mod_eq, back, oriented_eq]
      rw [ih (Nat.le_of_succ_le le), List.take_succ_eq_append_getElem inside, List.append_assoc,
        List.singleton_append]

/-! ## The key of a value -/

theorem make_eq (decimal : Decimal format) :
    decimal.makeKey =
      match digits format.pMax decimal.coeff decimal.exp with
      | (dig, coeff, exp) =>
          let sign := if dig = 0 then false else decimal.sign
          { exp := if dig = 0 then 0
              else if sign then -(exp + (format.bias + 2)) else exp + (format.bias + 2)
            words := packed format sign coeff format.pMax } := by
  rw [Decimal.makeKey, make]
  rcases digits format.pMax decimal.coeff decimal.exp with ⟨dig, coeff, exp⟩
  by_cases zero : dig = 0
  · simp only [zero, if_true, packed]
  · simp only [zero, if_false, packed]

/-- The key of a value that is not zero, in terms of its normalized coefficient. -/
structure Keyed (decimal : Decimal format) (normal : List Nat) (exp : Int) : Prop where
  length_eq : normal.length = format.pMax
  digits : Digits 10 normal
  full : Full (format.pMax - 1) (number 10 normal)
  value_eq : decimal.value =
    if decimal.sign then -scaled (number 10 normal) exp else scaled (number 10 normal) exp
  exp_eq : decimal.makeKey.exp =
    if decimal.sign then -(exp + (format.bias + 2)) else exp + (format.bias + 2)
  words_eq : decimal.makeKey.words = packed format decimal.sign normal format.pMax

theorem denoted_eq (sign : Bool) (coeff : List Nat) (exp : Int) :
    denoted sign coeff exp =
      if sign then -scaled (number 10 coeff) exp else scaled (number 10 coeff) exp := by
  cases sign with
  | false => simp [denoted, scaled]
  | true => simp [denoted, scaled]

theorem scaled_shift (coefficient shift : Nat) (exp : Int) :
    scaled (coefficient * 10 ^ shift) (exp - shift) = scaled coefficient exp := by
  have split : exp = (shift : Int) + (exp - shift) := by ring
  rw [scaled, scaled, Nat.cast_mul, Nat.cast_pow, Nat.cast_ofNat]
  conv_rhs => rw [split, zpow_add₀ (by norm_num), zpow_natCast]
  ring

theorem value_eq_zero_iff (decimal : Decimal format) :
    decimal.value = 0 ↔ number 10 decimal.coeff = 0 := by
  have power_ne : (10 : ℚ) ^ decimal.exp ≠ 0 := zpow_ne_zero _ (by norm_num)
  rw [Decimal.value, denoted_eq, scaled]
  cases decimal.sign with
  | false => simp [power_ne]
  | true => simp [power_ne]

theorem makeKey_of_zero {decimal : Decimal format} (zero : decimal.value = 0) :
    decimal.makeKey =
      { exp := 0
        words := packed format false decimal.coeff format.pMax } := by
  have digits_eq := digits_of_number_eq_zero ((value_eq_zero_iff decimal).mp zero) decimal.exp
  rw [decimal.length_coeff] at digits_eq
  rw [make_eq, digits_eq]
  rfl

theorem keyed_of_ne_zero {decimal : Decimal format} (nonzero : decimal.value ≠ 0) :
    ∃ normal exp, Keyed decimal normal exp := by
  have number_ne : number 10 decimal.coeff ≠ 0 := fun zero =>
    nonzero ((value_eq_zero_iff decimal).mpr zero)
  obtain ⟨dig, normal, shift, digits_eq, normalized⟩ :=
    digits_of_number_ne_zero decimal.digits number_ne decimal.exp
  rw [decimal.length_coeff] at digits_eq normalized
  refine ⟨normal, decimal.exp - shift, normalized.length_eq, normalized.digits, normalized.full,
    ?_, ?_, ?_⟩
  · rw [Decimal.value, denoted_eq, normalized.number_eq, scaled_shift]
  · rw [make_eq, digits_eq]
    simp only [normalized.dig_ne, if_false]
  · rw [make_eq, digits_eq]
    simp only [normalized.dig_ne, if_false]

/-! ## The order of sort keys -/

/-- Zero, or a magnitude that leaves the biased exponent positive. -/
def SortRegular (decimal : Decimal format) : Prop :=
  decimal.value = 0 ∨ (10 : ℚ) ^ ((format.pMax : Int) - 2 - format.bias) ≤ |decimal.value|

theorem Keyed.abs_value {decimal : Decimal format} {normal : List Nat} {exp : Int}
    (keyed : Keyed decimal normal exp) : |decimal.value| = scaled (number 10 normal) exp := by
  have pos := Scientific.scaled_pos keyed.full exp
  rw [keyed.value_eq]
  split
  · rw [abs_neg, abs_of_pos pos]
  · exact abs_of_pos pos

theorem Keyed.value_ne_zero {decimal : Decimal format} {normal : List Nat} {exp : Int}
    (keyed : Keyed decimal normal exp) : decimal.value ≠ 0 := by
  have pos := Scientific.scaled_pos keyed.full exp
  rw [← abs_pos, keyed.abs_value]
  exact pos

/-- A magnitude of one digit less tells where the biased exponent changes its sign. -/
theorem pow_le_scaled_iff {digits coefficient : Nat} (full : Full digits coefficient)
    {least exp : Int} : (10 : ℚ) ^ (digits + least) ≤ scaled coefficient exp ↔ least ≤ exp := by
  constructor
  · intro le
    by_contra less
    have lt := le.trans_lt (Scientific.scaled_lt_pow full exp)
    have exponent_lt := (zpow_lt_zpow_iff_right₀ (by norm_num : (1 : ℚ) < 10)).mp lt
    omega
  · intro le
    exact (zpow_le_zpow_right₀ (by norm_num) (by omega)).trans (Scientific.pow_le_scaled full exp)

theorem Keyed.regular_iff {decimal : Decimal format} {normal : List Nat} {exp : Int}
    (keyed : Keyed decimal normal exp) : SortRegular decimal ↔ 0 < exp + (format.bias + 2) := by
  have pMax_pos := format.pMax_pos
  have split : (format.pMax : Int) - 2 - format.bias =
      ((format.pMax - 1 : Nat) : Int) + (-1 - format.bias) := by omega
  rw [SortRegular, or_iff_right keyed.value_ne_zero, keyed.abs_value, split,
    pow_le_scaled_iff keyed.full]
  omega

theorem map_oriented_false (coeff : List Nat) : coeff.map (oriented false) = coeff :=
  List.map_id' coeff

theorem number_oriented_true {coeff : List Nat} (good : Digits 10 coeff) :
    number 10 (coeff.map (oriented true)) = 10 ^ coeff.length - 1 - number 10 coeff := by
  have sum := Positional.number_complement good
  have same : coeff.map (oriented true) = coeff.map fun digit => 10 - 1 - digit := rfl
  rw [same]
  omega

/-- A sort key is the rank of its value. -/
structure IsRank (decimal : Decimal format) (ds : List Nat) : Prop where
  ranked : Ranked (format.pMax - 1) (format.bias + 2) (10 ^ format.pMax - 1) decimal.value
    (decimal.makeKey.exp, number 10 ds)
  length_eq : ds.length = format.pMax
  digits : Digits 10 ds
  words_eq : decimal.makeKey.words = words 10 9 format.decWords ds

theorem isRank_of_regular {decimal : Decimal format} (regular : SortRegular decimal) :
    ∃ ds, IsRank decimal ds := by
  by_cases zero : decimal.value = 0
  · have key_eq := makeKey_of_zero zero
    have number_zero := (value_eq_zero_iff decimal).mp zero
    refine ⟨decimal.coeff, ⟨?_, decimal.length_coeff, decimal.digits, ?_⟩⟩
    · rw [zero, key_eq, number_zero]
      exact .zero
    · rw [key_eq, packed_eq false decimal.digits decimal.length_coeff le_rfl, map_oriented_false,
        List.take_of_length_le decimal.length_coeff.le]
  · obtain ⟨normal, exp, keyed⟩ := keyed_of_ne_zero zero
    have positive := keyed.regular_iff.mp regular
    have map_length : (normal.map (oriented decimal.sign)).length = format.pMax := by
      rw [List.length_map, keyed.length_eq]
    refine ⟨normal.map (oriented decimal.sign), ⟨?_, map_length, digits_oriented keyed.digits, ?_⟩⟩
    · have below := keyed.full.most
      have pMax_eq : format.pMax - 1 + 1 = format.pMax := Nat.sub_add_cancel format.pMax_pos
      rw [pMax_eq] at below
      rw [keyed.value_eq, keyed.exp_eq]
      cases decimal.sign with
      | false =>
          rw [map_oriented_false]
          exact .positive keyed.full positive.le
      | true =>
          rw [number_oriented_true keyed.digits, keyed.length_eq]
          exact .negative keyed.full (by omega) positive
    · rw [keyed.words_eq, packed_eq _ keyed.digits keyed.length_eq le_rfl,
        List.take_of_length_le map_length.le]

theorem IsRank.lt_iff {first second : Decimal format} {left right : List Nat}
    (rank_first : IsRank first left) (rank_second : IsRank second right) :
    first.makeKey < second.makeKey ↔ first.value < second.value := by
  have fits := fits format
  rw [rank_first.ranked.lt_iff rank_second.ranked]
  have words_iff := @Positional.words_lt_iff 10 9 format.decWords left right rank_first.digits
    rank_second.digits (rank_first.length_eq.trans rank_second.length_eq.symm)
    (by rw [rank_first.length_eq]; exact fits)
  rw [← rank_first.words_eq, ← rank_second.words_eq] at words_iff
  unfold RankLt
  rw [← words_iff]
  rfl

theorem SortKey.not_lt_self (key : SortKey) : ¬ key < key := by
  rintro (less | ⟨-, less⟩)
  · exact lt_irrefl _ less
  · exact lt_irrefl _ less

theorem SortKey.eq_of_not_lt {first second : SortKey} (not_less : ¬ first < second)
    (not_more : ¬ second < first) : first = second := by
  have exp_eq : first.exp = second.exp := by
    refine le_antisymm (not_lt.mp fun more => ?_) (not_lt.mp fun less => ?_)
    · exact not_more (Or.inl more)
    · exact not_less (Or.inl less)
  have words_eq : first.words = second.words := by
    refine le_antisymm (not_lt.mp fun more => ?_) (not_lt.mp fun less => ?_)
    · exact not_more (Or.inr ⟨exp_eq.symm, more⟩)
    · exact not_less (Or.inr ⟨exp_eq, less⟩)
  cases first
  cases second
  exact congrArg₂ SortKey.mk exp_eq words_eq

theorem IsRank.eq_iff {first second : Decimal format} {left right : List Nat}
    (rank_first : IsRank first left) (rank_second : IsRank second right) :
    first.makeKey = second.makeKey ↔ first.value = second.value := by
  constructor
  · intro same
    have not_less := mt (rank_first.lt_iff rank_second).mpr (same ▸ SortKey.not_lt_self _)
    have not_more := mt (rank_second.lt_iff rank_first).mpr (same ▸ SortKey.not_lt_self _)
    exact le_antisymm (not_lt.mp not_more) (not_lt.mp not_less)
  · intro same
    refine SortKey.eq_of_not_lt (fun less => ?_) fun more => ?_
    · exact ((rank_first.lt_iff rank_second).mp less).ne same
    · exact ((rank_second.lt_iff rank_first).mp more).ne' same

/-! ## Taking the value back -/

theorem length_unpack (sign : Bool) (count : Nat) (key bcd : List Nat) :
    (unpack sign count key bcd).length = count + bcd.length := by
  induction count generalizing key bcd with
  | zero => rw [unpack, Nat.zero_add]
  | succ count ih =>
      rw [unpack]
      simp only [ih, List.length_cons]
      omega

/-- Moving the digits to the right does not change the number. -/
theorem grabbed_eq (key : SortKey) :
    Decimal.grabbed format key =
      denoted (decide (key.exp < 0)) (unpack (decide (key.exp < 0)) format.pMax key.words [])
        (if |key.exp| = 0 then |key.exp| else |key.exp| - (format.bias + 2)) := by
  set bcd := unpack (decide (key.exp < 0)) format.pMax key.words [] with bcd_eq
  have length_eq : bcd.length = format.pMax := length_unpack _ _ _ _
  rw [Decimal.grabbed, grab, ← bcd_eq]
  rcases count_eq : significant bcd format.pMax with _ | last
  · rfl
  · have le := significant_le bcd format.pMax
    have split := @take_significant bcd
    rw [length_eq, count_eq] at split
    have number_eq : number 10 bcd =
        number 10 (bcd.take (last + 1)) * 10 ^ (format.pMax - (last + 1)) := by
      conv_lhs => rw [split]
      exact Positional.number_append_zeros _ _
    have shift_eq : format.pMax - 1 - last = format.pMax - (last + 1) := by omega
    dsimp only
    rw [denoted_eq, denoted_eq, Positional.number_zeros_append, number_eq, shift_eq]
    generalize (if |key.exp| = 0 then |key.exp| else |key.exp| - (format.bias + 2)) = exp
    have shifted := scaled_shift (number 10 (bcd.take (last + 1))) (format.pMax - (last + 1))
      (exp + (format.pMax - (last + 1) : Nat))
    rw [add_sub_cancel_right] at shifted
    rw [shifted]

theorem Keyed.unpack_eq {decimal : Decimal format} {normal : List Nat} {exp : Int}
    (keyed : Keyed decimal normal exp) :
    unpack decimal.sign format.pMax decimal.makeKey.words [] = normal := by
  rw [keyed.words_eq, unpack_packed decimal.sign keyed.digits keyed.length_eq le_rfl,
    List.append_nil, List.take_of_length_le keyed.length_eq.le]

theorem grabbed_makeKey {decimal : Decimal format} (regular : SortRegular decimal) :
    Decimal.grabbed format decimal.makeKey = decimal.value := by
  by_cases zero : decimal.value = 0
  · have key_eq := makeKey_of_zero zero
    have number_zero := (value_eq_zero_iff decimal).mp zero
    have bcd_eq := unpack_packed false decimal.digits decimal.length_coeff le_rfl []
    rw [List.append_nil, List.take_of_length_le decimal.length_coeff.le] at bcd_eq
    have positive : decide (decimal.makeKey.exp < 0) = false := by
      rw [key_eq]
      rfl
    have words_eq : decimal.makeKey.words = packed format false decimal.coeff format.pMax := by
      rw [key_eq]
    rw [grabbed_eq, positive, words_eq, bcd_eq, denoted_eq, number_zero, zero]
    simp [scaled]
  · obtain ⟨normal, exp, keyed⟩ := keyed_of_ne_zero zero
    have positive := keyed.regular_iff.mp regular
    have sign_eq : decide (decimal.makeKey.exp < 0) = decimal.sign := by
      rw [keyed.exp_eq]
      cases decimal.sign with
      | false =>
          simp only [Bool.false_eq_true, if_false, decide_eq_false_iff_not]
          omega
      | true =>
          simp only [if_true, decide_eq_true_eq]
          omega
    have abs_eq : |decimal.makeKey.exp| = exp + (format.bias + 2) := by
      rw [keyed.exp_eq]
      split
      · rw [abs_neg, abs_of_pos positive]
      · exact abs_of_pos positive
    rw [grabbed_eq, sign_eq, abs_eq, if_neg positive.ne', keyed.unpack_eq, add_sub_cancel_right,
      denoted_eq, keyed.value_eq]

/-- The sort key of a value is right: the value comes back from it, and against every regular value
the keys compare as the values do. -/
def SortRight (decimal : Decimal format) : Prop :=
  Decimal.grabbed format decimal.makeKey = decimal.value ∧
    ∀ other : Decimal format, SortRegular other →
      (decimal.makeKey < other.makeKey ↔ decimal.value < other.value) ∧
      (other.makeKey < decimal.makeKey ↔ other.value < decimal.value) ∧
      (decimal.makeKey = other.makeKey ↔ decimal.value = other.value)

theorem sortRight_of_regular {decimal : Decimal format} (regular : SortRegular decimal) :
    SortRight decimal := by
  obtain ⟨ds, rank⟩ := isRank_of_regular regular
  refine ⟨grabbed_makeKey regular, fun other other_regular => ?_⟩
  obtain ⟨others, other_rank⟩ := isRank_of_regular other_regular
  exact ⟨rank.lt_iff other_rank, other_rank.lt_iff rank, rank.eq_iff other_rank⟩

theorem value_zero (format : Format) : (Decimal.zero format).value = 0 := by
  rw [value_eq_zero_iff]
  exact Positional.number_replicate_zero _

/-- With a biased exponent of zero the value that comes back is a natural number. -/
theorem Keyed.not_grabbed {decimal : Decimal format} {normal : List Nat} {exp : Int}
    (keyed : Keyed decimal normal exp) (bias_eq : exp + (format.bias + 2) = 0) :
    Decimal.grabbed format decimal.makeKey ≠ decimal.value := by
  have exp_zero : decimal.makeKey.exp = 0 := by
    rw [keyed.exp_eq, bias_eq, neg_zero, ite_self]
  have positive : decide ((0 : Int) < 0) = false := rfl
  rw [grabbed_eq, exp_zero, positive, abs_zero, if_pos rfl, denoted_eq]
  simp only [Bool.false_eq_true, if_false, scaled, zpow_zero, mul_one]
  intro same
  have le_bias := format.pMax_le_bias
  have pMax_pos := format.pMax_pos
  have small : |decimal.value| < 1 := by
    rw [keyed.abs_value]
    refine (Scientific.scaled_lt_pow keyed.full exp).trans_le ?_
    exact zpow_le_one_of_nonpos₀ (by norm_num) (by omega)
  rw [← same, abs_of_nonneg (Nat.cast_nonneg _), Nat.cast_lt_one] at small
  rw [small, Nat.cast_zero] at same
  exact keyed.value_ne_zero same.symm

theorem regular_of_sortRight {decimal : Decimal format} (right : SortRight decimal) :
    SortRegular decimal := by
  by_contra irregular
  have nonzero : decimal.value ≠ 0 := fun zero => irregular (Or.inl zero)
  obtain ⟨normal, exp, keyed⟩ := keyed_of_ne_zero nonzero
  have not_positive := not_lt.mp (mt keyed.regular_iff.mpr irregular)
  rcases not_positive.lt_or_eq with negative | bias_eq
  · -- the sign of the biased exponent is the opposite of that of the value
    have zero_key := makeKey_of_zero (value_zero format)
    have pos := Scientific.scaled_pos keyed.full exp
    obtain ⟨less_iff, more_iff, -⟩ := right.2 (Decimal.zero format) (Or.inl (value_zero format))
    rw [value_zero, keyed.value_eq] at less_iff more_iff
    have exp_eq := keyed.exp_eq
    rcases sign : decimal.sign with _ | _
    · rw [sign] at less_iff exp_eq
      have wrong : decimal.makeKey < (Decimal.zero format).makeKey := by
        refine Or.inl ?_
        rw [exp_eq, zero_key]
        exact negative
      exact absurd (less_iff.mp wrong) (by simpa using pos.le)
    · rw [sign] at more_iff exp_eq
      have wrong : (Decimal.zero format).makeKey < decimal.makeKey := by
        refine Or.inl ?_
        rw [exp_eq, zero_key]
        exact neg_pos.mpr negative
      exact absurd (more_iff.mp wrong) (by simpa using pos.le)
  · exact keyed.not_grabbed bias_eq right.1

end DecFloat
end Firebird
