import Firebird.Library.HalfAway
import Mathlib.Algebra.Order.Ring.Pow

/-!
# Integers of a given scale

`CVT_get_long` and `CVT_get_int64` for sources of an exact numeric type: the value is multiplied or
divided by ten once for every step between the scales.  An operation whose result does not fit its
machine type has no result.
-/

namespace Firebird
namespace Cvt

/-- The exact numeric types. -/
inductive ExactType where
  | short
  | long
  | int64
  deriving DecidableEq, Repr

namespace ExactType

/-- The bits of the type. -/
def bits : ExactType → Nat
  | .short => 16
  | .long => 32
  | .int64 => 64

/-- The value is one of the type. -/
def Fits (type : ExactType) (value : Int) : Prop :=
  -2 ^ (type.bits - 1) ≤ value ∧ value < 2 ^ (type.bits - 1)

instance (type : ExactType) (value : Int) : Decidable (type.Fits value) :=
  inferInstanceAs (Decidable (_ ∧ _))

/-- The value of a variable of the type that an integer is stored in. -/
def wrap (type : ExactType) (value : Int) : Int :=
  (value + 2 ^ (type.bits - 1)) % 2 ^ type.bits - 2 ^ (type.bits - 1)

theorem wrap_of_fits {type : ExactType} {value : Int} (fits : type.Fits value) :
    type.wrap value = value := by
  cases type <;>
    simp only [Fits, wrap, bits] at fits ⊢ <;>
    omega

end ExactType

/-- A descriptor of an exact numeric value. -/
structure Exact where
  dsc_dtype : ExactType
  value : Int
  dsc_scale : Int
  value_fits : dsc_dtype.Fits value
  /-- `dsc_scale` is an `SCHAR`. -/
  scale_fits : -128 ≤ dsc_scale ∧ dsc_scale ≤ 127

/-- Ways a conversion ends without a value. -/
inductive CvtError where
  /-- `CVT_conversion_error`. -/
  | conversion
  /-- `isc_arith_except` with `isc_numeric_out_of_range`. -/
  | outOfRange
  /-- A result does not fit the machine type it is computed in. -/
  | overflow
  deriving DecidableEq, Repr

/-- The value of an operation of a machine type. -/
def checked (type : ExactType) (value : Int) : Except CvtError Int :=
  if type.Fits value then .ok value else .error .overflow

/-- `LONG_LIMIT` and `INT64_LIMIT`. -/
def limit : ExactType → Int
  | .short => 2 ^ 14 / 5
  | .long => 2 ^ 30 / 5
  | .int64 => 2 ^ 62 / 5

/-- The loop that divides by ten.  Returns the value and the last digit cut off. -/
def divideLoop : Nat → Int → Int × Int
  | 0, value => (value, 0)
  | 1, value => (value.tdiv 10, value.tmod 10)
  | scale + 2, value => divideLoop (scale + 1) (value.tdiv 10)

/-- The loop that multiplies by ten. -/
def multiplyLoop (type : ExactType) : Nat → Int → Except CvtError Int
  | 0, value => .ok value
  | scale + 1, value => do
      if value > limit type ∨ value < -limit type then .error .outOfRange
      else multiplyLoop type scale (← checked type (value * 10))

/-- The adjustment of a value for a scale. -/
def adjust (type : ExactType) (scale value : Int) : Except CvtError Int :=
  if scale > 0 then
    let (value, fraction) := divideLoop scale.toNat value
    if fraction > 4 then checked type (value + 1)
    else if fraction < -4 then checked type (value - 1)
    else .ok value
  else multiplyLoop type (-scale).toNat value

/-- `CVT_get_long`. -/
def get_long (desc : Exact) (scale : Int) : Except CvtError Int :=
  let scale := ExactType.short.wrap (scale - desc.dsc_scale)
  match desc.dsc_dtype with
  | .short | .long => adjust .long scale desc.value
  | .int64 => do
      -- adjust for scale first, before range-checking the value
      let val64 ← adjust .int64 scale desc.value
      if val64 > 2147483647 ∨ val64 < -2147483648 then .error .outOfRange else return val64

/-- `CVT_get_int64`. -/
def get_int64 (desc : Exact) (scale : Int) : Except CvtError Int :=
  adjust .int64 (ExactType.short.wrap (scale - desc.dsc_scale)) desc.value

/-! ## The value -/

/-- The value of a source in units of a scale, rounded half away from zero. -/
def Exact.rescaled (desc : Exact) (scale : Int) : Int :=
  HalfAway.halfAway ((desc.value : ℚ) * 10 ^ (desc.dsc_scale - scale))

/-- The result is the value if it fits the type, and the overflow error otherwise. -/
def Delivers (type : ExactType) (value : Int) (result : Except CvtError Int) : Prop :=
  result = if type.Fits value then .ok value else .error .outOfRange

theorem divideLoop_eq (scale : Nat) (value : Int) :
    divideLoop (scale + 1) value =
      (value.tdiv (10 ^ scale * 10 : ℕ), (value.tdiv (10 ^ scale : ℕ)).tmod 10) := by
  induction scale generalizing value with
  | zero =>
      rw [divideLoop, Nat.pow_zero, Nat.one_mul, Nat.cast_one, Int.tdiv_one]
      rfl
  | succ scale ih =>
      have power : 10 * 10 ^ scale = 10 ^ (scale + 1) := (Nat.pow_succ' ..).symm
      rw [divideLoop, ih, ← power, Nat.mul_assoc]
      exact Prod.ext (HalfAway.tdiv_tdiv value 10 _)
        (congrArg (Int.tmod · 10) (HalfAway.tdiv_tdiv value 10 _))

/-- The last digit that is cut off rounds half away from zero. -/
theorem halfAway_divideLoop (scale : Nat) (value : Int) :
    HalfAway.halfAway ((value : ℚ) / 10 ^ (scale + 1)) =
      (divideLoop (scale + 1) value).1 +
        if 4 < (divideLoop (scale + 1) value).2 then 1
        else if (divideLoop (scale + 1) value).2 < -4 then -1 else 0 := by
  have power : (10 : ℚ) ^ (scale + 1) = (10 ^ scale * 10 : ℕ) := by
    push_cast
    ring
  rw [divideLoop_eq, power, HalfAway.halfAway_intCast_div value (Nat.pow_pos (by decide))]

/-- A value divided by ten leaves room for the rounding. -/
theorem ExactType.Fits.round {type : ExactType} {value : Int} (fits : type.Fits value) (scale : Nat)
    {step : Int} (small : -1 ≤ step ∧ step ≤ 1) :
    type.Fits ((divideLoop (scale + 1) value).1 + step) := by
  have bound : (value.tdiv (10 ^ scale * 10 : ℕ)).natAbs * 10 ≤ value.natAbs := by
    rw [Int.natAbs_tdiv, Int.natAbs_natCast]
    change value.natAbs / _ * 10 ≤ _
    rw [← Nat.div_div_eq_div_mul]
    exact (Nat.div_mul_le_self _ _).trans (Nat.div_le_self _ _)
  rw [divideLoop_eq]
  generalize value.tdiv (10 ^ scale * 10 : ℕ) = quotient at bound ⊢
  cases type <;>
    simp only [ExactType.Fits, ExactType.bits] at fits ⊢ <;>
    omega

/-- A value outside the type stays outside when it is multiplied. -/
theorem ExactType.not_fits_mul {type : ExactType} {value factor : Int} (grows : 1 ≤ factor)
    (outside : ¬type.Fits value) : ¬type.Fits (value * factor) := by
  intro fits
  apply outside
  have power_pos : (0 : Int) < 2 ^ (type.bits - 1) := Int.pow_pos (by decide)
  obtain ⟨low, high⟩ := fits
  rcases le_total 0 value with positive | negative
  · have larger : value ≤ value * factor := le_mul_of_one_le_right positive grows
    exact ⟨by linarith, by linarith⟩
  · have smaller : value * factor ≤ value := mul_le_of_one_le_right negative grows
    exact ⟨by linarith, by linarith⟩

/-- The limit separates the products that fit. -/
theorem fits_mul_ten_iff {type : ExactType} {value : Int} (wide : type ≠ .short) :
    type.Fits (value * 10) ↔ ¬(value > limit type ∨ value < -limit type) := by
  cases type with
  | short => exact absurd rfl wide
  | long =>
      simp only [ExactType.Fits, ExactType.bits, limit]
      omega
  | int64 =>
      simp only [ExactType.Fits, ExactType.bits, limit]
      omega

theorem multiplyLoop_delivers {type : ExactType} (scale : Nat) {value : Int} (wide : type ≠ .short)
    (fits : type.Fits value) :
    Delivers type (value * 10 ^ scale) (multiplyLoop type scale value) := by
  induction scale generalizing value with
  | zero =>
      rw [Delivers, pow_zero, mul_one, if_pos fits]
      rfl
  | succ scale ih =>
      rw [multiplyLoop]
      by_cases fits_product : type.Fits (value * 10)
      · have step := ih fits_product
        rw [if_neg ((fits_mul_ten_iff wide).mp fits_product), checked, if_pos fits_product]
        rwa [mul_assoc, ← pow_succ'] at step
      · have grows : (1 : Int) ≤ 10 ^ scale := one_le_pow₀ (by decide)
        have outside := ExactType.not_fits_mul grows fits_product
        rw [mul_assoc, ← pow_succ'] at outside
        rw [if_pos (not_not.mp (mt (fits_mul_ten_iff wide).mpr fits_product)), Delivers,
          if_neg outside]

/-- The value in units of a scale is the one the adjustment computes. -/
theorem adjust_delivers {type : ExactType} {value : Int} (wide : type ≠ .short)
    (fits : type.Fits value) (scale : Int) :
    Delivers type (HalfAway.halfAway ((value : ℚ) * 10 ^ (-scale))) (adjust type scale value) := by
  rw [adjust]
  by_cases positive : scale > 0
  · obtain ⟨steps, rfl⟩ : ∃ steps : ℕ, scale = (steps + 1 : ℕ) := ⟨scale.toNat - 1, by omega⟩
    rw [if_pos positive, zpow_neg, zpow_natCast, ← div_eq_mul_inv, halfAway_divideLoop,
      Int.toNat_natCast]
    have upper := ExactType.Fits.round fits steps (show -1 ≤ (1 : Int) ∧ (1 : Int) ≤ 1 by decide)
    have lower := ExactType.Fits.round fits steps (show -1 ≤ (-1 : Int) ∧ (-1 : Int) ≤ 1 by decide)
    have same := ExactType.Fits.round fits steps (show -1 ≤ (0 : Int) ∧ (0 : Int) ≤ 1 by decide)
    generalize divideLoop (steps + 1) value = divided at upper lower same ⊢
    obtain ⟨quotient, fraction⟩ := divided
    simp only [← Int.sub_eq_add_neg, add_zero] at upper lower same ⊢
    by_cases up : fraction > 4
    · rw [if_pos up, if_pos up, Delivers, checked, if_pos upper, if_pos upper]
    · rw [if_neg up, if_neg up]
      by_cases down : fraction < -4
      · rw [if_pos down, if_pos down, Delivers, checked, ← Int.sub_eq_add_neg, if_pos lower,
          if_pos lower]
      · rw [if_neg down, if_neg down, Delivers, add_zero, if_pos same]
  · obtain ⟨steps, rfl⟩ : ∃ steps : ℕ, scale = -(steps : ℕ) := ⟨(-scale).toNat, by omega⟩
    have product : (value : ℚ) * 10 ^ (- -(steps : ℤ)) = (value * 10 ^ steps : ℤ) := by
      rw [neg_neg, zpow_natCast]
      push_cast
      ring
    rw [if_neg positive, product, HalfAway.halfAway_intCast, neg_neg, Int.toNat_natCast]
    exact multiplyLoop_delivers steps wide fits

theorem ExactType.Fits.int64 {type : ExactType} {value : Int} (fits : type.Fits value) :
    ExactType.int64.Fits value := by
  cases type <;>
    simp only [ExactType.Fits, ExactType.bits] at fits ⊢ <;>
    omega

theorem Exact.fits_long {desc : Exact} (narrow : desc.dsc_dtype ≠ .int64) :
    ExactType.long.Fits desc.value := by
  have fits := desc.value_fits
  rcases type_eq : desc.dsc_dtype with _ | _ | _
  · simp only [type_eq, ExactType.Fits, ExactType.bits] at fits ⊢
    omega
  · rwa [type_eq] at fits
  · exact absurd type_eq narrow

/-- The range check of `CVT_get_long` turns an `int64` result into a `long` one. -/
theorem narrow_delivers {value : Int} {result : Except CvtError Int}
    (wide : Delivers .int64 value result) :
    Delivers .long value (do
      let val64 ← result
      if val64 > 2147483647 ∨ val64 < -2147483648 then .error .outOfRange else return val64) := by
  rw [wide, Delivers]
  by_cases fits : ExactType.int64.Fits value
  · rw [if_pos fits]
    change (if value > 2147483647 ∨ value < -2147483648 then _ else _) = _
    by_cases inside : ExactType.long.Fits value
    · rw [if_pos inside, if_neg]
      · rfl
      · simp only [ExactType.Fits, ExactType.bits] at inside
        omega
    · rw [if_neg inside, if_pos]
      simp only [ExactType.Fits, ExactType.bits] at inside
      omega
  · rw [if_neg fits, if_neg (mt ExactType.Fits.int64 fits)]
    rfl

/-- The value is not rescaled for a target of its own scale. -/
theorem get_int64_same (desc : Exact) : get_int64 desc desc.dsc_scale = .ok desc.value := by
  rw [get_int64, Int.sub_self]
  rfl

theorem get_int64_delivers (desc : Exact) {scale : Int}
    (apart : ExactType.short.Fits (scale - desc.dsc_scale)) :
    Delivers .int64 (desc.rescaled scale) (get_int64 desc scale) := by
  have units : desc.rescaled scale =
      HalfAway.halfAway ((desc.value : ℚ) * 10 ^ (-(scale - desc.dsc_scale))) := by
    rw [Exact.rescaled, neg_sub]
  rw [units, get_int64, ExactType.wrap_of_fits apart]
  exact adjust_delivers (by decide) desc.value_fits.int64 (scale - desc.dsc_scale)

/-- Both functions return the value of the source in units of the target scale, rounded half away
from zero, and the error exactly when it does not fit; no operation in between overflows. -/
theorem get_long_get_int64_deliver (desc : Exact) {scale : Int}
    (apart : ExactType.short.Fits (scale - desc.dsc_scale)) :
    Delivers .long (desc.rescaled scale) (get_long desc scale) ∧
      Delivers .int64 (desc.rescaled scale) (get_int64 desc scale) := by
  have units : desc.rescaled scale =
      HalfAway.halfAway ((desc.value : ℚ) * 10 ^ (-(scale - desc.dsc_scale))) := by
    rw [Exact.rescaled, neg_sub]
  have wide := get_int64_delivers desc apart
  refine ⟨?_, wide⟩
  rw [get_int64, ExactType.wrap_of_fits apart] at wide
  rw [get_long, ExactType.wrap_of_fits apart]
  have long := fun narrow =>
    adjust_delivers (by decide) (desc.fits_long narrow) (scale - desc.dsc_scale)
  rw [← units] at long
  rcases type_eq : desc.dsc_dtype with _ | _ | _
  · exact long (by rw [type_eq]; decide)
  · exact long (by rw [type_eq]; decide)
  · exact narrow_delivers wide

/-- A half below zero is rounded away from zero. -/
theorem get_long_get_int64_deliver_half :
    let desc : Exact := ⟨.short, -5, -1, by decide, by decide⟩
    (Delivers .long (desc.rescaled 0) (get_long desc 0) ∧
        Delivers .int64 (desc.rescaled 0) (get_int64 desc 0)) ∧
      get_long desc 0 = .ok (-1) := by
  intro desc
  exact ⟨get_long_get_int64_deliver desc (by decide), rfl⟩

end Cvt
end Firebird
