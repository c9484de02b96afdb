import Firebird.Jrd.Btr.Int64Key

/-!
# The order of 64-bit integer keys

The quotients of two numbers are apart by a whole unit, or equal at the same scale, or they meet at a
boundary of the table; only there the rests are not comparable.
-/

namespace Firebird
namespace Int64Key

/-- What the table does to the absolute value of a number that is not zero. -/
structure Scaled (uq : Nat) (row : ScaleControl) : Prop where
  factor_eq : row.factor = 10 ^ row.scale_change
  fits : uq * row.factor ≤ uq ∨ uq * row.factor < 2 ^ 63
  lower : 922337203500000000 ≤ uq * row.factor
  /-- Below this the quotient is that of a boundary. -/
  boundary : uq * row.factor < 922337203685480000 →
    uq * row.factor / 10000 = 92233720368547 ∨ uq * row.factor / 10000 = 92233720350000 ∨
      uq * row.factor / 10000 = 92233720360000

theorem scaled_cons {uq : Nat} {row : ScaleControl} {rows : List ScaleControl}
    (here : row.limit ≤ uq → Scaled uq row) (later : uq < row.limit → Scaled uq (scaleRow uq rows)) :
    Scaled uq (scaleRow uq (row :: rows)) := by
  rw [scaleRow]
  split_ifs with below
  · exact later below
  · exact here (not_lt.mp below)

theorem control_scaled {q : Int} (q_ne : q ≠ 0) : Scaled q.natAbs (control q) := by
  have positive : 0 < q.natAbs := Int.natAbs_pos.mpr q_ne
  rw [control]
  generalize q.natAbs = uq at positive
  -- Each row is taken for the numbers from its limit up to the limit of the row before.
  iterate 19
    refine scaled_cons (fun from_limit => ?_) fun below => ?_
    · dsimp only at *
      exact ⟨rfl, by dsimp only; omega, by dsimp only; omega, by dsimp only; omega⟩
  dsimp only at *
  omega

/-- The product is a `SINT64` again. -/
theorem isSINT64_product {q : Int} (in_range : IsSINT64 q) :
    IsSINT64 (q * (control q).factor) := by
  obtain ⟨lower, upper⟩ := in_range
  by_cases zero : q = 0
  · rw [zero, Int.zero_mul]
    exact ⟨by norm_num, by norm_num⟩
  · have fits := (control_scaled zero).fits
    have abs_eq : (q * (control q).factor).natAbs = q.natAbs * (control q).factor := by
      rw [Int.natAbs_mul, Int.natAbs_natCast]
    rw [← abs_eq] at fits
    constructor
    · omega
    · rcases Int.lt_or_gt_of_ne zero with negative | positive
      · have : q * (control q).factor ≤ 0 := Int.mul_nonpos_of_nonpos_of_nonneg negative.le (by omega)
        omega
      · omega

/-- The entry for a scale: its reciprocal is near the power of ten. -/
structure Power (scale : Int) (power : ℚ) : Prop where
  table_eq : powerof10 scale = some power
  pos : 0 < power
  near : |1 / power - 10 ^ scale| ≤ 5 / 2 ^ 54 * 10 ^ scale

/-- The scales of the table. -/
def scales : List Int := (List.range 73).map fun index : Nat => (index : Int) - 36

theorem mem_scales {scale : Int} (lower : -36 ≤ scale) (upper : scale ≤ 36) : scale ∈ scales := by
  have in_range : (scale + 36).toNat ∈ List.range 73 := List.mem_range.mpr (by omega)
  refine List.mem_map.mpr ⟨_, in_range, ?_⟩
  omega

theorem table_near : ∀ scale ∈ scales, (powerof10 scale).any (fun power =>
    decide (0 < power ∧ |1 / power - 10 ^ scale| ≤ 5 / 2 ^ 54 * 10 ^ scale)) = true := by
  decide +kernel

theorem exists_power {scale : Int} (lower : -36 ≤ scale) (upper : scale ≤ 36) :
    ∃ power, Power scale power := by
  have checked := table_near scale (mem_scales lower upper)
  obtain ⟨power, table_eq, near⟩ := (Option.any_eq_true _ _).mp checked
  obtain ⟨pos, near⟩ := of_decide_eq_true near
  exact ⟨power, table_eq, pos, near⟩

theorem tabled_of_power {scale : Int} {power : ℚ} (table_eq : powerof10 scale = some power) :
    -36 ≤ scale ∧ scale ≤ 36 := by
  rw [powerof10] at table_eq
  by_contra outside
  split_ifs at table_eq with sign
  · rw [pow10_table, if_neg (by omega)] at table_eq
    cases table_eq
  · rw [pow10_table, if_neg (by omega)] at table_eq
    cases table_eq

/-- At a boundary the two quotients of one value are compared for each scale. -/
theorem table_split : ∀ boundary ∈ boundaries, ∀ scale ∈ scales, (powerof10 scale).all (fun power =>
    (powerof10 (scale - 1)).all fun next =>
      compare (double (boundary.quotient / power)) (double (10 * boundary.quotient / next)) =
        boundary.split scale) = true := by
  decide +kernel

theorem split_spec {boundary : Boundary} (member : boundary ∈ boundaries) {scale : Int}
    {power next : ℚ} (power_spec : Power scale power) (next_spec : Power (scale - 1) next) :
    compare (double (boundary.quotient / power)) (double (10 * boundary.quotient / next)) =
      boundary.split scale := by
  obtain ⟨lower, upper⟩ := tabled_of_power power_spec.table_eq
  have checked := table_split boundary member scale (mem_scales lower upper)
  rw [power_spec.table_eq, next_spec.table_eq] at checked
  exact of_decide_eq_true checked

/-! ## The part that is a `double` -/

theorem double_neg (number : ℚ) : double (-number) = -double number := BinaryRounding.round_neg number

theorem double_natCast {number : Nat} (small : number < 2 ^ 53) : double (number : ℚ) = number := by
  have rounded := @BinaryRounding.round_intCast 52 number (by rw [Int.abs_natCast]; exact_mod_cast small)
  rw [Int.cast_natCast] at rounded
  exact rounded

/-- The greatest quotient is far from 53 bits. -/
def MAX_QUOTIENT : Nat := 922337203685477

variable {scale : Int} {power : ℚ}

/-- The `double` of a quotient is near its value. -/
theorem double_near (spec : Power scale power) (quotient : Nat) :
    |double (quotient / power) - quotient * 10 ^ scale| ≤ 4 / 2 ^ 53 * (quotient * 10 ^ scale) := by
  have ten_pos : (0 : ℚ) < 10 ^ scale := zpow_pos (by norm_num) scale
  have quotient_nonneg : (0 : ℚ) ≤ quotient := Nat.cast_nonneg quotient
  obtain ⟨near_lower, near_upper⟩ := abs_le.mp spec.near
  have product_nonneg : 0 ≤ quotient * (10 : ℚ) ^ scale := mul_nonneg quotient_nonneg ten_pos.le
  have division_eq : (quotient : ℚ) / power = quotient * (1 / power) := by ring
  have division_nonneg : 0 ≤ (quotient : ℚ) / power := div_nonneg quotient_nonneg spec.pos.le
  have division_upper : (quotient : ℚ) / power ≤ (1 + 5 / 2 ^ 54) * (quotient * 10 ^ scale) := by
    rw [division_eq]
    calc (quotient : ℚ) * (1 / power) ≤ quotient * (10 ^ scale + 5 / 2 ^ 54 * 10 ^ scale) :=
          mul_le_mul_of_nonneg_left (by linarith) quotient_nonneg
      _ = (1 + 5 / 2 ^ 54) * (quotient * 10 ^ scale) := by ring
  have division_lower : (1 - 5 / 2 ^ 54) * (quotient * 10 ^ scale) ≤ (quotient : ℚ) / power := by
    rw [division_eq]
    calc (1 - 5 / 2 ^ 54) * (quotient * (10 : ℚ) ^ scale)
        = quotient * (10 ^ scale - 5 / 2 ^ 54 * 10 ^ scale) := by ring
      _ ≤ quotient * (1 / power) := mul_le_mul_of_nonneg_left (by linarith) quotient_nonneg
  have rounded : |double (quotient / power) - quotient / power| ≤ quotient / power / 2 ^ 53 := by
    have error := @BinaryRounding.abs_round_sub_le 52 ((quotient : ℚ) / power)
    rw [abs_of_nonneg division_nonneg] at error
    exact error
  obtain ⟨rounded_lower, rounded_upper⟩ := abs_le.mp rounded
  rw [abs_le]
  constructor <;> linarith

/-- Values that are a unit apart have different `double`s. -/
theorem lt_of_gap {first second double1 double2 unit : ℚ} (unit_pos : 0 < unit)
    (near1 : |double1 - first| ≤ 4 / 2 ^ 53 * first)
    (near2 : |double2 - second| ≤ 4 / 2 ^ 53 * second)
    (small : first ≤ MAX_QUOTIENT * unit) (gap : first + unit ≤ second) : double1 < double2 := by
  obtain ⟨-, upper⟩ := abs_le.mp near1
  obtain ⟨lower, -⟩ := abs_le.mp near2
  have quotient_eq : ((MAX_QUOTIENT : Nat) : ℚ) = 922337203685477 := by norm_num [MAX_QUOTIENT]
  rw [quotient_eq] at small
  linarith

theorem double_pos (spec : Power scale power) {quotient : Nat} (positive : 0 < quotient) :
    0 < double (quotient / power) := by
  have value_pos : (0 : ℚ) < quotient * 10 ^ scale :=
    mul_pos (Nat.cast_pos.mpr positive) (zpow_pos (by norm_num) scale)
  obtain ⟨lower, -⟩ := abs_le.mp (double_near spec quotient)
  linarith

/-! ## Positive numbers -/

/-- The key of a number that is not negative. -/
def keyOfNat (scaled : Nat) (power : ℚ) : INT64_KEY :=
  ⟨double ((scaled / 10000 : Nat) / power), (scaled % 10000 : Nat)⟩

/-- A number after the multiplication. -/
structure Normal (scaled : Nat) : Prop where
  lower : 922337203500000000 ≤ scaled
  upper : scaled ≤ 2 ^ 63
  boundary : scaled < 922337203685480000 → ∃ boundary ∈ boundaries, scaled / 10000 = boundary.quotient

theorem Normal.quotient_le {scaled : Nat} (normal : Normal scaled) : scaled / 10000 ≤ MAX_QUOTIENT := by
  have := normal.upper
  rw [MAX_QUOTIENT]
  omega

theorem keyOf_natCast {scaled : Nat} (normal : Normal scaled) (power : ℚ) :
    keyOf (scaled : Int) power = keyOfNat scaled power := by
  have quotient_eq : ((scaled : Int).tdiv 10000 : Int) = ((scaled / 10000 : Nat) : Int) := by
    rw [Int.tdiv_eq_ediv_of_nonneg (by omega)]
    rfl
  have rest_eq : (scaled : Int).tmod 10000 = ((scaled % 10000 : Nat) : Int) := by
    rw [Int.tmod_eq_emod_of_nonneg (by omega)]
    rfl
  have small : scaled / 10000 < 2 ^ 53 :=
    normal.quotient_le.trans_lt (by norm_num [MAX_QUOTIENT])
  rw [keyOf, keyOfNat, quotient_eq, rest_eq, Int.cast_natCast, double_natCast small]

variable {scaled1 scaled2 : Nat} {scale1 scale2 : Int} {power1 power2 : ℚ}

theorem compare_of_lt (less : double ((scaled1 / 10000 : Nat) / power1) <
    double ((scaled2 / 10000 : Nat) / power2)) :
    (keyOfNat scaled1 power1).compare (keyOfNat scaled2 power2) = .lt := by
  rw [INT64_KEY.compare, keyOfNat, keyOfNat, compare_lt_iff_lt.mpr less]
  rfl

theorem compare_of_gt (greater : double ((scaled2 / 10000 : Nat) / power2) <
    double ((scaled1 / 10000 : Nat) / power1)) :
    (keyOfNat scaled1 power1).compare (keyOfNat scaled2 power2) = .gt := by
  rw [INT64_KEY.compare, keyOfNat, keyOfNat, compare_gt_iff_gt.mpr greater]
  rfl

theorem compare_of_eq (same : double ((scaled1 / 10000 : Nat) / power1) =
    double ((scaled2 / 10000 : Nat) / power2)) :
    (keyOfNat scaled1 power1).compare (keyOfNat scaled2 power2) =
      compare (scaled1 % 10000) (scaled2 % 10000) := by
  rw [INT64_KEY.compare, keyOfNat, keyOfNat, compare_eq_iff_eq.mpr same]
  dsimp only [Ordering.then]
  rcases lt_trichotomy (scaled1 % 10000) (scaled2 % 10000) with less | rests_eq | greater
  · rw [compare_lt_iff_lt.mpr less, compare_lt_iff_lt]
    exact_mod_cast less
  · rw [compare_eq_iff_eq.mpr rests_eq, compare_eq_iff_eq]
    exact_mod_cast rests_eq
  · rw [compare_gt_iff_gt.mpr greater, compare_gt_iff_gt]
    exact_mod_cast greater

/-- With the same scale the order of the keys is that of the numbers. -/
theorem compare_same_scale (normal1 : Normal scaled1) (normal2 : Normal scaled2)
    (spec : Power scale power) :
    (keyOfNat scaled1 power).compare (keyOfNat scaled2 power) = compare scaled1 scaled2 := by
  have unit_pos : (0 : ℚ) < 10 ^ scale := zpow_pos (by norm_num) scale
  have apart : ∀ first second : Nat, first ≤ MAX_QUOTIENT → first < second →
      double (first / power) < double (second / power) := by
    intro first second small less
    refine lt_of_gap unit_pos (double_near spec first) (double_near spec second)
      (mul_le_mul_of_nonneg_right (Nat.cast_le.mpr small) unit_pos.le) ?_
    have gap : ((first + 1 : Nat) : ℚ) ≤ second := Nat.cast_le.mpr less
    calc (first : ℚ) * 10 ^ scale + 10 ^ scale = ((first + 1 : Nat) : ℚ) * 10 ^ scale := by
          push_cast
          ring
      _ ≤ second * 10 ^ scale := mul_le_mul_of_nonneg_right gap unit_pos.le
  rcases lt_trichotomy (scaled1 / 10000) (scaled2 / 10000) with less | same | greater
  · rw [compare_of_lt (apart _ _ normal1.quotient_le less), compare_lt_iff_lt.mpr (by omega)]
  · rw [compare_of_eq (by rw [same])]
    rcases lt_trichotomy scaled1 scaled2 with less | rfl | greater
    · rw [compare_lt_iff_lt.mpr less, compare_lt_iff_lt]
      omega
    · exact (compare_eq_iff_eq.mpr rfl).trans (compare_eq_iff_eq.mpr rfl).symm
    · rw [compare_gt_iff_gt.mpr greater, compare_gt_iff_gt]
      omega
  · rw [compare_of_gt (apart _ _ normal2.quotient_le greater), compare_gt_iff_gt.mpr (by omega)]

/-- The double of the quotient at the greater scale is that of a greater value. -/
theorem double_gt_of_quotient {times : Nat} (spec1 : Power scale1 power1)
    (spec2 : Power scale2 power2) (times_eq : (10 : ℚ) ^ scale1 = times * 10 ^ scale2)
    {first second : Nat} (small : second ≤ MAX_QUOTIENT) (gap : second + 1 ≤ times * first) :
    double (second / power2) < double (first / power1) := by
  have unit_pos : (0 : ℚ) < 10 ^ scale2 := zpow_pos (by norm_num) scale2
  refine lt_of_gap unit_pos (double_near spec2 second) (double_near spec1 first)
    (mul_le_mul_of_nonneg_right (Nat.cast_le.mpr small) unit_pos.le) ?_
  have gap_cast : ((second + 1 : Nat) : ℚ) ≤ (times * first : Nat) := Nat.cast_le.mpr gap
  calc (second : ℚ) * 10 ^ scale2 + 10 ^ scale2 = ((second + 1 : Nat) : ℚ) * 10 ^ scale2 := by
        push_cast
        ring
    _ ≤ (times * first : Nat) * 10 ^ scale2 := mul_le_mul_of_nonneg_right gap_cast unit_pos.le
    _ = first * 10 ^ scale1 := by
        rw [times_eq]
        push_cast
        ring

theorem double_lt_of_quotient {times : Nat} (spec1 : Power scale1 power1)
    (spec2 : Power scale2 power2) (times_eq : (10 : ℚ) ^ scale1 = times * 10 ^ scale2)
    {first second : Nat} (small : times * first ≤ MAX_QUOTIENT) (gap : times * first + 1 ≤ second) :
    double (first / power1) < double (second / power2) := by
  have unit_pos : (0 : ℚ) < 10 ^ scale2 := zpow_pos (by norm_num) scale2
  have first_eq : (first : ℚ) * 10 ^ scale1 = (times * first : Nat) * 10 ^ scale2 := by
    rw [times_eq]
    push_cast
    ring
  refine lt_of_gap unit_pos (double_near spec1 first) (double_near spec2 second) ?_ ?_
  · rw [first_eq]
    exact mul_le_mul_of_nonneg_right (Nat.cast_le.mpr small) unit_pos.le
  · have gap_cast : ((times * first + 1 : Nat) : ℚ) ≤ second := Nat.cast_le.mpr gap
    calc (first : ℚ) * 10 ^ scale1 + 10 ^ scale2
        = ((times * first + 1 : Nat) : ℚ) * 10 ^ scale2 := by
          rw [first_eq]
          push_cast
          ring
      _ ≤ second * 10 ^ scale2 := mul_le_mul_of_nonneg_right gap_cast unit_pos.le

/-- Values at two scales compare as their multiples do at one. -/
theorem compare_values {times : Nat} (times_eq : (10 : ℚ) ^ scale1 = times * 10 ^ scale2) :
    compare ((scaled1 : ℚ) * 10 ^ scale1) (scaled2 * 10 ^ scale2) = compare (times * scaled1) scaled2 := by
  have unit_pos : (0 : ℚ) < 10 ^ scale2 := zpow_pos (by norm_num) scale2
  have first_eq : (scaled1 : ℚ) * 10 ^ scale1 = (times * scaled1 : Nat) * 10 ^ scale2 := by
    rw [times_eq]
    push_cast
    ring
  rw [first_eq]
  rcases lt_trichotomy (times * scaled1) scaled2 with less | same | greater
  · rw [compare_lt_iff_lt.mpr less, compare_lt_iff_lt]
    exact mul_lt_mul_of_pos_right (Nat.cast_lt.mpr less) unit_pos
  · rw [compare_eq_iff_eq.mpr same, compare_eq_iff_eq, same]
  · rw [compare_gt_iff_gt.mpr greater, compare_gt_iff_gt]
    exact mul_lt_mul_of_pos_right (Nat.cast_lt.mpr greater) unit_pos

/-- Scales that are two or more apart decide alone. -/
theorem compare_far {times : Nat} (normal1 : Normal scaled1) (normal2 : Normal scaled2)
    (spec1 : Power scale1 power1) (spec2 : Power scale2 power2)
    (times_eq : (10 : ℚ) ^ scale1 = times * 10 ^ scale2) (far : 100 ≤ times) :
    (keyOfNat scaled1 power1).compare (keyOfNat scaled2 power2) = .gt ∧
      compare (times * scaled1) scaled2 = .gt := by
  have := normal1.lower
  have := normal2.upper
  have quotient_times : 100 * (scaled1 / 10000) ≤ times * (scaled1 / 10000) :=
    Nat.mul_le_mul_right _ far
  have scaled_times : 100 * scaled1 ≤ times * scaled1 := Nat.mul_le_mul_right _ far
  refine ⟨compare_of_gt ?_, ?_⟩
  · exact double_gt_of_quotient spec1 spec2 times_eq normal2.quotient_le (by omega)
  · rw [compare_gt_iff_gt]
    omega

theorem boundary_unique {boundary : Boundary} {scaled : Nat} (same : scaled / 10000 = boundary.quotient)
    {other : Boundary} (lower : 10000 * other.quotient ≤ scaled)
    (upper : scaled < 10000 * (other.quotient + 1)) : other.quotient = boundary.quotient := by
  omega

theorem boundaries_injective : ∀ first ∈ boundaries, ∀ second ∈ boundaries,
    first.quotient = second.quotient → first.split = second.split := by
  intro first first_mem second second_mem
  simp only [boundaries, List.mem_cons, List.not_mem_nil, or_false] at first_mem second_mem
  rcases first_mem with rfl | rfl | rfl <;> rcases second_mem with rfl | rfl | rfl <;>
    first | exact fun _ => rfl | exact fun same => absurd same (by decide)

/-- Next to a boundary the crossing depends on the rests only. -/
theorem crossed_iff {boundary : Boundary} (member : boundary ∈ boundaries)
    (same : scaled1 / 10000 = boundary.quotient) :
    Crossed scaled1 scaled2 scale1 ↔ 100000 * boundary.quotient ≤ scaled2 ∧
      Disordered (boundary.split scale1) (scaled1 % 10000) (scaled2 - 100000 * boundary.quotient) := by
  have rest_eq : scaled1 - 10000 * boundary.quotient = scaled1 % 10000 := by omega
  constructor
  · rintro ⟨other, other_mem, lower, upper, behind, disordered⟩
    have quotient_eq := boundary_unique same lower upper
    rw [boundaries_injective other other_mem boundary member quotient_eq, quotient_eq, rest_eq]
      at disordered
    exact ⟨quotient_eq ▸ behind, disordered⟩
  · rintro ⟨behind, disordered⟩
    exact ⟨boundary, member, by omega, by omega, behind, rest_eq.symm ▸ disordered⟩

/-- Scales that are one apart agree unless the numbers cross a boundary. -/
theorem compare_adjacent (normal1 : Normal scaled1) (normal2 : Normal scaled2)
    (spec1 : Power scale1 power1) (spec2 : Power scale2 power2) (adjacent : scale1 = scale2 + 1) :
    (keyOfNat scaled1 power1).compare (keyOfNat scaled2 power2) = compare (10 * scaled1) scaled2 ↔
      ¬ Crossed scaled1 scaled2 scale1 := by
  have times_eq : (10 : ℚ) ^ scale1 = (10 : Nat) * 10 ^ scale2 := by
    rw [adjacent, zpow_add₀ (by norm_num), zpow_one, mul_comm]
    norm_num
  have lower1 := normal1.lower
  have upper2 := normal2.upper
  rcases Nat.lt_or_ge (scaled2 / 10000) (10 * (scaled1 / 10000)) with less | others
  · have keys_gt := compare_of_gt
      (double_gt_of_quotient spec1 spec2 times_eq normal2.quotient_le less)
    have values_gt : compare (10 * scaled1) scaled2 = .gt := compare_gt_iff_gt.mpr (by omega)
    refine iff_of_true (keys_gt.trans values_gt.symm) ?_
    rintro ⟨boundary, -, lower, upper, behind, -⟩
    omega
  · obtain ⟨boundary, member, quotient_eq⟩ := normal1.boundary (by omega)
    rw [crossed_iff member quotient_eq, not_and]
    have behind : 100000 * boundary.quotient ≤ scaled2 := by omega
    rw [imp_iff_right behind]
    unfold Disordered
    generalize excess1_eq : scaled1 % 10000 = excess1
    generalize excess2_eq : scaled2 - 100000 * boundary.quotient = excess2
    have values_eq : compare (10 * scaled1) scaled2 = compare (10 * excess1) excess2 := by
      rcases lt_trichotomy (10 * scaled1) scaled2 with less | same | greater
      · rw [compare_lt_iff_lt.mpr less, eq_comm, compare_lt_iff_lt]
        omega
      · rw [compare_eq_iff_eq.mpr same, eq_comm, compare_eq_iff_eq]
        omega
      · rw [compare_gt_iff_gt.mpr greater, eq_comm, compare_gt_iff_gt]
        omega
    rw [values_eq]
    rcases Nat.lt_or_ge (10 * (scaled1 / 10000)) (scaled2 / 10000) with beyond | within
    · have keys_lt := compare_of_lt (double_lt_of_quotient spec1 spec2 times_eq
        (Nat.le_of_lt (beyond.trans_le normal2.quotient_le)) beyond)
      rw [keys_lt, if_pos (by omega), eq_comm, compare_lt_iff_lt, not_le]
    · have same : scaled2 / 10000 = 10 * boundary.quotient := by omega
      have rest_eq : scaled2 % 10000 = excess2 := by omega
      have split_eq := @split_spec boundary member scale1 power1 power2 spec1
        (by rw [adjacent, add_sub_cancel_right]; exact spec2)
      have doubles : compare (double ((scaled1 / 10000 : Nat) / power1))
          (double ((scaled2 / 10000 : Nat) / power2)) = boundary.split scale1 := by
        rw [quotient_eq, same]
        push_cast
        exact split_eq
      rw [if_neg (by omega)]
      cases split : boundary.split scale1 with
      | lt =>
          rw [split] at doubles
          rw [compare_of_lt (compare_lt_iff_lt.mp doubles), eq_comm, compare_lt_iff_lt]
          exact not_le.symm
      | gt =>
          rw [split] at doubles
          rw [compare_of_gt (compare_gt_iff_gt.mp doubles), eq_comm, compare_gt_iff_gt]
          exact not_le.symm
      | eq =>
          rw [split] at doubles
          rw [compare_of_eq (compare_eq_iff_eq.mp doubles), excess1_eq, rest_eq]
          dsimp only
          rcases lt_trichotomy excess1 excess2 with less | rfl | greater
          · rw [compare_lt_iff_lt.mpr less, eq_comm, compare_lt_iff_lt]
            omega
          · rw [compare_eq_iff_eq.mpr rfl, eq_comm, compare_eq_iff_eq]
            omega
          · rw [compare_gt_iff_gt.mpr greater, eq_comm, compare_gt_iff_gt]
            omega

/-! ## Both orders turned around -/

theorem compare_swap {Element : Type*} [LinearOrder Element] (first second : Element) :
    (compare first second).swap = compare second first := by
  rcases lt_trichotomy first second with less | same | greater
  · rw [compare_lt_iff_lt.mpr less, compare_gt_iff_gt.mpr less]
    rfl
  · rw [compare_eq_iff_eq.mpr same, compare_eq_iff_eq.mpr same.symm]
    rfl
  · rw [compare_gt_iff_gt.mpr greater, compare_lt_iff_lt.mpr greater]
    rfl

theorem INT64_KEY.compare_swap (key1 key2 : INT64_KEY) :
    (key1.compare key2).swap = key2.compare key1 := by
  rw [INT64_KEY.compare, Ordering.swap_then, Int64Key.compare_swap, Int64Key.compare_swap]
  rfl

/-- The key of the opposite number. -/
def INT64_KEY.neg (key : INT64_KEY) : INT64_KEY := ⟨-key.d_part, -key.s_part⟩

theorem compare_neg {Element : Type*} [AddCommGroup Element] [LinearOrder Element]
    [IsOrderedAddMonoid Element] (first second : Element) :
    compare (-first) (-second) = compare second first := by
  rcases lt_trichotomy first second with less | rfl | greater
  · rw [compare_gt_iff_gt.mpr less, compare_gt_iff_gt.mpr (neg_lt_neg less)]
  · rw [compare_eq_iff_eq.mpr rfl, compare_eq_iff_eq.mpr rfl]
  · rw [compare_lt_iff_lt.mpr greater, compare_lt_iff_lt.mpr (neg_lt_neg greater)]

theorem INT64_KEY.compare_neg (key1 key2 : INT64_KEY) :
    key1.neg.compare key2.neg = key2.compare key1 := by
  rw [INT64_KEY.compare, INT64_KEY.neg, INT64_KEY.neg]
  dsimp only
  rw [Int64Key.compare_neg, Int64Key.compare_neg]
  rfl

theorem keyOf_neg (q : Int) (power : ℚ) : keyOf (-q) power = (keyOf q power).neg := by
  rw [keyOf, keyOf, INT64_KEY.neg, Int.neg_tdiv, Int.neg_tmod, Int.cast_neg, double_neg, neg_div,
    double_neg]

/-- The keys of positive numbers are ordered as the values are, unless they cross a boundary. -/
theorem positive_agrees_of_gt (normal1 : Normal scaled1) (normal2 : Normal scaled2)
    (spec1 : Power scale1 power1) (spec2 : Power scale2 power2) (greater : scale2 < scale1) :
    (keyOfNat scaled1 power1).compare (keyOfNat scaled2 power2) =
        compare ((scaled1 : ℚ) * 10 ^ scale1) (scaled2 * 10 ^ scale2) ↔
      (scale1 = scale2 + 1 → ¬ Crossed scaled1 scaled2 scale1) := by
  obtain ⟨apart, apart_eq⟩ : ∃ apart : Nat, scale1 = scale2 + apart :=
    ⟨(scale1 - scale2).toNat, by omega⟩
  have times_eq : (10 : ℚ) ^ scale1 = (10 ^ apart : Nat) * 10 ^ scale2 := by
    rw [apart_eq, zpow_add₀ (by norm_num), zpow_natCast, mul_comm]
    push_cast
    rfl
  rw [compare_values times_eq]
  by_cases adjacent : apart = 1
  · have adjacent_eq : scale1 = scale2 + 1 := by omega
    rw [adjacent, pow_one, imp_iff_right adjacent_eq]
    exact compare_adjacent normal1 normal2 spec1 spec2 adjacent_eq
  · have far : 100 ≤ 10 ^ apart := by
      calc 100 = 10 ^ 2 := by norm_num
        _ ≤ 10 ^ apart := Nat.pow_le_pow_right (by norm_num) (by omega)
    obtain ⟨keys_gt, values_gt⟩ := compare_far normal1 normal2 spec1 spec2 times_eq far
    exact iff_of_true (keys_gt.trans values_gt.symm) fun adjacent_eq => by omega

theorem positive_agrees (normal1 : Normal scaled1) (normal2 : Normal scaled2)
    (spec1 : Power scale1 power1) (spec2 : Power scale2 power2) :
    (keyOfNat scaled1 power1).compare (keyOfNat scaled2 power2) =
        compare ((scaled1 : ℚ) * 10 ^ scale1) (scaled2 * 10 ^ scale2) ↔
      (scale1 = scale2 + 1 → ¬ Crossed scaled1 scaled2 scale1) ∧
        (scale2 = scale1 + 1 → ¬ Crossed scaled2 scaled1 scale2) := by
  rcases lt_trichotomy scale1 scale2 with less | rfl | greater
  · have turned := positive_agrees_of_gt normal2 normal1 spec2 spec1 less
    rw [← INT64_KEY.compare_swap, ← compare_swap, Ordering.swap_inj] at turned
    rw [turned]
    exact ⟨fun apart => ⟨fun adjacent => by omega, apart⟩, fun apart => apart.2⟩
  · obtain rfl := Option.some.inj (spec1.table_eq.symm.trans spec2.table_eq)
    have values_eq := @compare_values scaled1 scaled2 scale1 scale1 1 (by rw [Nat.cast_one, one_mul])
    rw [values_eq, one_mul, compare_same_scale normal1 normal2 spec1]
    exact iff_of_true rfl ⟨fun adjacent => by omega, fun adjacent => by omega⟩
  · rw [positive_agrees_of_gt normal1 normal2 spec1 spec2 greater]
    exact ⟨fun apart => ⟨apart, fun adjacent => by omega⟩, fun apart => apart.1⟩

/-! ## All numbers -/

/-- The product with the factor, and the key. -/
def product (q : Int) : Int := q * (control q).factor

theorem normal_scaledUp {q : Int} (q_ne : q ≠ 0) (in_range : IsSINT64 q) : Normal (scaledUp q) := by
  have scaled := control_scaled q_ne
  have abs_le : q.natAbs ≤ 2 ^ 63 := by
    obtain ⟨lower, upper⟩ := in_range
    omega
  refine ⟨scaled.lower, ?_, fun below => ?_⟩
  · rcases scaled.fits with same | less
    · exact same.trans abs_le
    · exact less.le
  · rcases scaled.boundary below with quotient | quotient | quotient
    · exact ⟨_, List.mem_cons_self, quotient⟩
    · exact ⟨_, List.mem_cons_of_mem _ List.mem_cons_self, quotient⟩
    · exact ⟨_, List.mem_cons_of_mem _ (List.mem_cons_of_mem _ List.mem_cons_self), quotient⟩

theorem value_eq (q scale : Int) (q_ne : q ≠ 0) :
    value q scale = product q * 10 ^ scaledScale q scale := by
  have factor_eq : (((control q).factor : Nat) : ℚ) = 10 ^ ((control q).scale_change : Int) := by
    rw [(control_scaled q_ne).factor_eq, zpow_natCast]
    push_cast
    rfl
  rw [value, product, scaledScale, Int.cast_mul, Int.cast_natCast, factor_eq, mul_assoc,
    ← zpow_add₀ (by norm_num), add_sub_cancel]

theorem product_of_pos {q : Int} (positive : 0 < q) : product q = scaledUp q := by
  rw [product, scaledUp, Nat.cast_mul, Int.natAbs_of_nonneg positive.le]

theorem product_of_neg {q : Int} (negative : q < 0) : product q = -scaledUp q := by
  rw [product, scaledUp, Nat.cast_mul, Int.ofNat_natAbs_of_nonpos negative.le, Int.neg_mul, neg_neg]

section Keys

variable {q q1 q2 : Int}

theorem key_of_pos (positive : 0 < q) (in_range : IsSINT64 q) (scale : Int) (power : ℚ) :
    keyOf (product q) power = keyOfNat (scaledUp q) power ∧
      value q scale = scaledUp q * 10 ^ scaledScale q scale := by
  rw [value_eq q scale positive.ne', product_of_pos positive,
    keyOf_natCast (normal_scaledUp positive.ne' in_range), Int.cast_natCast]
  exact ⟨rfl, rfl⟩

theorem key_of_neg (negative : q < 0) (in_range : IsSINT64 q) (scale : Int) (power : ℚ) :
    keyOf (product q) power = (keyOfNat (scaledUp q) power).neg ∧
      value q scale = -(scaledUp q * 10 ^ scaledScale q scale) := by
  rw [value_eq q scale negative.ne, product_of_neg negative, keyOf_neg,
    keyOf_natCast (normal_scaledUp negative.ne in_range), Int.cast_neg, Int.cast_natCast, neg_mul]
  exact ⟨rfl, rfl⟩

theorem double_zero : double 0 = 0 := BinaryRounding.round_zero

theorem key_of_zero (scale : Int) (power : ℚ) :
    keyOf (product 0) power = ⟨0, 0⟩ ∧ value 0 scale = 0 := by
  rw [product, Int.zero_mul, keyOf, Int.zero_tdiv, Int.zero_tmod, Int.cast_zero, double_zero, zero_div,
    double_zero, value, Int.cast_zero, zero_mul]
  exact ⟨rfl, rfl⟩

theorem scaledUp_pos (q_ne : q ≠ 0) (in_range : IsSINT64 q) (scale : Int) {power : ℚ}
    (spec : Power (scaledScale q scale) power) :
    0 < (keyOfNat (scaledUp q) power).d_part ∧ (0 : ℚ) < scaledUp q * 10 ^ scaledScale q scale := by
  have lower := (normal_scaledUp q_ne in_range).lower
  have quotient_pos : 0 < scaledUp q / 10000 := by omega
  exact ⟨double_pos spec quotient_pos,
    mul_pos (Nat.cast_pos.mpr (by omega)) (zpow_pos (by norm_num) _)⟩

/-- A number that is smaller by its sign has the smaller key and the smaller value. -/
theorem compare_of_signs (in_range1 : IsSINT64 q1) (in_range2 : IsSINT64 q2) {scale1 scale2 : Int}
    (spec1 : Power (scaledScale q1 scale1) power1) (spec2 : Power (scaledScale q2 scale2) power2)
    (signs : q1 < 0 ∧ 0 ≤ q2 ∨ q1 = 0 ∧ 0 < q2) :
    (keyOf (product q1) power1).compare (keyOf (product q2) power2) = .lt ∧
      compare (value q1 scale1) (value q2 scale2) = .lt := by
  obtain ⟨parts_less, values_less⟩ : (keyOf (product q1) power1).d_part <
      (keyOf (product q2) power2).d_part ∧ value q1 scale1 < value q2 scale2 := by
    have second_nonneg : 0 ≤ q2 → 0 ≤ (keyOf (product q2) power2).d_part ∧ 0 ≤ value q2 scale2 := by
      intro nonneg
      rcases nonneg.eq_or_lt with rfl | positive
      · obtain ⟨key_eq, value_zero⟩ := key_of_zero scale2 power2
        rw [key_eq, value_zero]
        exact ⟨le_rfl, le_rfl⟩
      · obtain ⟨key_eq, value_pos⟩ := key_of_pos positive in_range2 scale2 power2
        rw [key_eq, value_pos]
        exact (scaledUp_pos positive.ne' in_range2 scale2 spec2).imp le_of_lt le_of_lt
    rcases signs with ⟨negative, nonneg⟩ | ⟨rfl, positive⟩
    · obtain ⟨key_eq, value_neg⟩ := key_of_neg negative in_range1 scale1 power1
      obtain ⟨part_pos, value_pos⟩ := scaledUp_pos negative.ne in_range1 scale1 spec1
      obtain ⟨part_nonneg, value_nonneg⟩ := second_nonneg nonneg
      rw [key_eq, value_neg]
      exact ⟨(neg_neg_of_pos part_pos).trans_le part_nonneg,
        (neg_neg_of_pos value_pos).trans_le value_nonneg⟩
    · obtain ⟨key_zero, value_zero⟩ := key_of_zero scale1 power1
      obtain ⟨key_eq, value_pos⟩ := key_of_pos positive in_range2 scale2 power2
      rw [key_zero, value_zero, key_eq, value_pos]
      exact scaledUp_pos positive.ne' in_range2 scale2 spec2
  refine ⟨?_, compare_lt_iff_lt.mpr values_less⟩
  rw [INT64_KEY.compare, compare_lt_iff_lt.mpr parts_less]
  rfl

theorem not_crossed_zero (scaled : Nat) (scale : Int) : ¬ Crossed 0 scaled scale := by
  rintro ⟨boundary, member, lower, -⟩
  simp only [boundaries, List.mem_cons, List.not_mem_nil, or_false] at member
  rcases member with rfl | rfl | rfl <;> exact absurd lower (by decide)

/-- The keys of two numbers are ordered as the values are, unless they cross a boundary. -/
theorem compare_iff (in_range1 : IsSINT64 q1) (in_range2 : IsSINT64 q2) {scale1 scale2 : Int}
    (spec1 : Power (scaledScale q1 scale1) power1) (spec2 : Power (scaledScale q2 scale2) power2) :
    (keyOf (product q1) power1).compare (keyOf (product q2) power2) =
        compare (value q1 scale1) (value q2 scale2) ↔
      (q1.sign = q2.sign →
        (scaledScale q1 scale1 = scaledScale q2 scale2 + 1 →
          ¬ Crossed (scaledUp q1) (scaledUp q2) (scaledScale q1 scale1)) ∧
        (scaledScale q2 scale2 = scaledScale q1 scale1 + 1 →
          ¬ Crossed (scaledUp q2) (scaledUp q1) (scaledScale q2 scale2))) := by
  have of_less : q1 < 0 ∧ 0 ≤ q2 ∨ q1 = 0 ∧ 0 < q2 →
      (keyOf (product q1) power1).compare (keyOf (product q2) power2) =
        compare (value q1 scale1) (value q2 scale2) := fun signs =>
    let ⟨keys, values⟩ := compare_of_signs in_range1 in_range2 spec1 spec2 signs
    keys.trans values.symm
  have of_greater : q2 < 0 ∧ 0 ≤ q1 ∨ q2 = 0 ∧ 0 < q1 →
      (keyOf (product q1) power1).compare (keyOf (product q2) power2) =
        compare (value q1 scale1) (value q2 scale2) := fun signs => by
    obtain ⟨keys, values⟩ := compare_of_signs in_range2 in_range1 spec2 spec1 signs
    rw [← INT64_KEY.compare_swap, ← compare_swap, keys, values]
  rcases lt_trichotomy q1 0 with negative1 | rfl | positive1
  · rcases lt_or_ge q2 0 with negative2 | nonneg2
    · obtain ⟨key1_eq, value1_eq⟩ := key_of_neg negative1 in_range1 scale1 power1
      obtain ⟨key2_eq, value2_eq⟩ := key_of_neg negative2 in_range2 scale2 power2
      have same : q1.sign = q2.sign := by
        rw [Int.sign_eq_neg_one_of_neg negative1, Int.sign_eq_neg_one_of_neg negative2]
      rw [imp_iff_right same, key1_eq, key2_eq, value1_eq, value2_eq, INT64_KEY.compare_neg,
        compare_neg, positive_agrees (normal_scaledUp negative2.ne in_range2)
          (normal_scaledUp negative1.ne in_range1) spec2 spec1]
      exact and_comm
    · refine iff_of_true (of_less (.inl ⟨negative1, nonneg2⟩)) fun same => ?_
      have negative2 := Int.sign_eq_neg_one_iff_neg.mp
        (same.symm.trans (Int.sign_eq_neg_one_of_neg negative1))
      omega
  · rcases lt_trichotomy q2 0 with negative2 | rfl | positive2
    · refine iff_of_true (of_greater (.inl ⟨negative2, le_rfl⟩)) fun same => ?_
      rw [Int.sign_eq_neg_one_of_neg negative2] at same
      cases same
    · refine iff_of_true ?_ fun _ => ⟨fun _ => not_crossed_zero _ _, fun _ => not_crossed_zero _ _⟩
      rw [(key_of_zero scale1 power1).1, (key_of_zero scale2 power2).1, (key_of_zero scale1 power1).2,
        (key_of_zero scale2 power2).2, compare_eq_iff_eq.mpr rfl, INT64_KEY.compare,
        compare_eq_iff_eq.mpr rfl, compare_eq_iff_eq.mpr rfl]
      rfl
    · refine iff_of_true (of_less (.inr ⟨rfl, positive2⟩)) fun same => ?_
      rw [Int.sign_eq_one_of_pos positive2] at same
      cases same
  · rcases lt_trichotomy q2 0 with negative2 | rfl | positive2
    · refine iff_of_true (of_greater (.inl ⟨negative2, positive1.le⟩)) fun same => ?_
      rw [Int.sign_eq_neg_one_of_neg negative2, Int.sign_eq_one_of_pos positive1] at same
      cases same
    · refine iff_of_true (of_greater (.inr ⟨rfl, positive1⟩)) fun same => ?_
      rw [Int.sign_eq_one_of_pos positive1] at same
      cases same
    · obtain ⟨key1_eq, value1_eq⟩ := key_of_pos positive1 in_range1 scale1 power1
      obtain ⟨key2_eq, value2_eq⟩ := key_of_pos positive2 in_range2 scale2 power2
      have same : q1.sign = q2.sign := by
        rw [Int.sign_eq_one_of_pos positive1, Int.sign_eq_one_of_pos positive2]
      rw [imp_iff_right same, key1_eq, key2_eq, value1_eq, value2_eq]
      exact positive_agrees (normal_scaledUp positive1.ne' in_range1)
        (normal_scaledUp positive2.ne' in_range2) spec1 spec2

end Keys

theorem make_int64_key_eq {q : Int} (in_range : IsSINT64 q) (scale : Int) :
    make_int64_key q scale = (powerof10 (scaledScale q scale)).map fun power =>
      keyOf (product q) power := by
  obtain ⟨lower, upper⟩ := isSINT64_product in_range
  have product_eq : (q * (control q).factor).bmod (2 ^ 64) = product q :=
    Int.bmod_eq_of_le (by push_cast; omega) (by push_cast; omega)
  rw [make_int64_key, product_eq]
  rfl

/-- The product never overflows, and the keys of two scaled integers are ordered as their values are
exactly if the scales stay in the table and the numbers do not cross a boundary of it. -/
theorem keys_ordered_iff {q1 q2 : Int} (in_range1 : IsSINT64 q1) (in_range2 : IsSINT64 q2)
    (scale1 scale2 : Int) : Agrees q1 scale1 q2 scale2 ↔ Ordered q1 scale1 q2 scale2 := by
  rw [Agrees, make_int64_key_eq in_range1, make_int64_key_eq in_range2]
  constructor
  · rintro ⟨-, -, key1, key2, key1_eq, key2_eq, compare_eq⟩
    obtain ⟨power1, table1, rfl⟩ := Option.map_eq_some_iff.mp key1_eq
    obtain ⟨power2, table2, rfl⟩ := Option.map_eq_some_iff.mp key2_eq
    have tabled1 := tabled_of_power table1
    have tabled2 := tabled_of_power table2
    obtain ⟨other1, spec1⟩ := exists_power tabled1.1 tabled1.2
    obtain ⟨other2, spec2⟩ := exists_power tabled2.1 tabled2.2
    obtain rfl := Option.some.inj (table1.symm.trans spec1.table_eq)
    obtain rfl := Option.some.inj (table2.symm.trans spec2.table_eq)
    exact ⟨tabled1, tabled2, (compare_iff in_range1 in_range2 spec1 spec2).mp compare_eq⟩
  · rintro ⟨tabled1, tabled2, apart⟩
    obtain ⟨power1, spec1⟩ := exists_power tabled1.1 tabled1.2
    obtain ⟨power2, spec2⟩ := exists_power tabled2.1 tabled2.2
    refine ⟨isSINT64_product in_range1, isSINT64_product in_range2, keyOf (product q1) power1,
      keyOf (product q2) power2, ?_, ?_, ?_⟩
    · rw [spec1.table_eq]
      rfl
    · rw [spec2.table_eq]
      rfl
    · exact (compare_iff in_range1 in_range2 spec1 spec2).mpr apart

/-- The value 2.5 at two scales. -/
theorem same_value_same_key : Agrees 25 (-1) 250 (-2) := by
  refine (keys_ordered_iff ⟨by norm_num, by norm_num⟩ ⟨by norm_num, by norm_num⟩ (-1) (-2)).mpr
    ⟨⟨by decide, by decide⟩, ⟨by decide, by decide⟩, fun _ => ⟨fun adjacent => ?_, fun adjacent => ?_⟩⟩
  · exact absurd adjacent (by decide)
  · exact absurd adjacent (by decide)

/-- One value at two scales, with different keys. -/
theorem same_value_different_keys :
    value 922337203685470001 0 = value 9223372036854700010 (-1) ∧
      make_int64_key 922337203685470001 0 = some ⟨92233720368547, 1⟩ ∧
      make_int64_key 9223372036854700010 (-1) = some ⟨92233720368547, 10⟩ ∧
      ¬ Agrees 922337203685470001 0 9223372036854700010 (-1) := by
  have values_eq : value 922337203685470001 0 = value 9223372036854700010 (-1) := by
    norm_num [value]
  have key1_eq : make_int64_key 922337203685470001 0 = some ⟨92233720368547, 1⟩ := by decide +kernel
  have key2_eq : make_int64_key 9223372036854700010 (-1) = some ⟨92233720368547, 10⟩ := by
    decide +kernel
  refine ⟨values_eq, key1_eq, key2_eq, ?_⟩
  rintro ⟨-, -, key1, key2, made1, made2, compare_eq⟩
  obtain rfl := Option.some.inj (key1_eq.symm.trans made1)
  obtain rfl := Option.some.inj (key2_eq.symm.trans made2)
  rw [values_eq, compare_eq_iff_eq.mpr rfl] at compare_eq
  exact absurd compare_eq (by decide +kernel)

end Int64Key
end Firebird
