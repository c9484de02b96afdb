import Firebird.Common.Rescale

/-!
# Arithmetic of exact numbers

`add2`, `multiply2` and `divide2` of `ArithmeticNode` for operands of the exact numeric types, in the
semantics of SQL dialect 3.  The values are those of 64-bit variables; an operation of the machine that
has no result there, and would wrap around or stop the process, is `fault`.
-/

namespace Firebird
namespace ArithmeticNode

open Cvt

/-- `blrOp`. -/
inductive BlrOp where
  | add
  | subtract
  | multiply
  | divide
  deriving DecidableEq, Repr

/-- Ways an operation ends without a value. -/
inductive ArithmeticError where
  /-- The conversion of an operand. -/
  | operand (error : CvtError)
  /-- `isc_exception_integer_overflow`. -/
  | integer_overflow
  /-- `isc_arith_except` with `isc_numeric_out_of_range`. -/
  | numeric_out_of_range
  /-- `isc_arith_except` with `isc_exception_integer_divide_by_zero`. -/
  | integer_divide_by_zero
  /-- A step has no result in its machine type. -/
  | fault
  deriving DecidableEq, Repr

/-- The errors that report an overflow. -/
def ArithmeticError.IsOverflow (error : ArithmeticError) : Prop :=
  error = .operand .outOfRange ∨ error = .integer_overflow ∨ error = .numeric_out_of_range

/-- The value of an operation of 64 bits. -/
def checked64 (value : Int) : Except ArithmeticError Int :=
  if ExactType.int64.Fits value then .ok value else .error .fault

/-- `MIN_SINT64`. -/
def minSint64 : Int := -2 ^ 63

/-- `MAX_SINT64`. -/
def maxSint64 : Int := 2 ^ 63 - 1

/-- `MAX_INT64_LIMIT`. -/
def maxInt64Limit : Int := maxSint64.tdiv 10

/-- `MIN_INT64_LIMIT`. -/
def minInt64Limit : Int := minSint64.tdiv 10

/-- The exclusive or of two values of 64 bits. -/
def xor64 (first second : Int) : Int := (BitVec.ofInt 64 first ^^^ BitVec.ofInt 64 second).toInt

/-- An `SCHAR` variable's value. -/
def schar (value : Int) : Int := (value + 128) % 256 - 128

/-- `nodScale`, as `getDescDialect3` sets it for operands of exact types. -/
def nodScale (blrOp : BlrOp) (desc1 desc2 : Exact) : Int :=
  match blrOp with
  | .add | .subtract => min desc1.dsc_scale desc2.dsc_scale
  | .multiply | .divide => schar (desc1.dsc_scale + desc2.dsc_scale)

/-- `MOV_get_int64`. -/
def mov_get_int64 (desc : Exact) (scale : Int) : Except ArithmeticError Int :=
  (get_int64 desc scale).mapError .operand

/-- `add2`.  The sum is stored in 64 bits before it is known to be right. -/
def add2 (blrOp : BlrOp) (scale : Int) (desc value : Exact) : Except ArithmeticError Int := do
  let i1 ← mov_get_int64 desc scale
  let i2 ← mov_get_int64 value scale
  let vlu_int64 := ExactType.int64.wrap (if blrOp = .subtract then i2 - i1 else i1 + i2)
  -- invert the sign bit
  let i1 := if blrOp = .subtract then xor64 i1 minSint64 else i1
  if xor64 i1 i2 ≥ 0 ∧ xor64 i1 vlu_int64 < 0 then .error .integer_overflow else .ok vlu_int64

/-- The `FB_UINT64` that the magnitude of a value is stored in.  The negation is one of 64 bits. -/
def magnitude (i : Int) : Nat :=
  if i ≥ 0 then i.toNat else (ExactType.int64.wrap (-i) % 2 ^ 64).toNat

/-- `multiply2`. -/
def multiply2 (scale : Int) (desc value : Exact) : Except ArithmeticError Int := do
  let i1 ← mov_get_int64 desc (scale - value.dsc_scale)
  let i2 ← mov_get_int64 value value.dsc_scale
  let u1 := magnitude i1
  let u2 := magnitude i2
  -- largest product
  let u_limit := if xor64 i1 i2 ≥ 0 then maxSint64.toNat else maxSint64.toNat + 1
  if u1 ≠ 0 ∧ u_limit / u1 < u2 then .error .integer_overflow else checked64 (i1 * i2)

/-- A loop that multiplies by ten while scaling is needed and there is room.  Returns what is still
needed. -/
def scaleUp (positive : Bool) : Nat → Int → Except ArithmeticError (Nat × Int)
  | 0, i => .ok (0, i)
  | needed + 1, i =>
      if (if positive then i ≤ maxInt64Limit else i ≥ minInt64Limit) then do
        scaleUp positive needed (← checked64 (i * 10))
      else .ok (needed + 1, i)

/-- The loop that divides the divisor by ten while scaling is needed and it ends in a zero. -/
def scaleDown : Nat → Int → Nat × Int
  | 0, i => (0, i)
  | needed + 1, i => if i.tmod 10 = 0 then scaleDown needed (i.tdiv 10) else (needed + 1, i)

/-- `divide2`. -/
def divide2 (scale : Int) (desc value : Exact) : Except ArithmeticError Int := do
  let i2 ← mov_get_int64 desc desc.dsc_scale
  if i2 = 0 then .error .integer_divide_by_zero
  else
    let i1 ← mov_get_int64 value (scale - desc.dsc_scale)
    if i1 = minSint64 ∧ i2 = -1 then .error .integer_overflow
    else
      let (needed, i1) ← scaleUp (decide (i1 ≥ 0)) (-(2 * desc.dsc_scale)).toNat i1
      let (needed, i2) := scaleDown needed i2
      let vlu_int64 ← checked64 (i1.tdiv i2)
      let (needed, vlu_int64) ← scaleUp (decide (vlu_int64 ≥ 0)) needed vlu_int64
      if needed > 0 then .error .numeric_out_of_range else .ok vlu_int64

/-- `execute` of a node with two operands of exact types: `desc2` is the right one. -/
def execute (blrOp : BlrOp) (desc1 desc2 : Exact) : Except ArithmeticError Int :=
  let scale := nodScale blrOp desc1 desc2
  match blrOp with
  | .add | .subtract => add2 blrOp scale desc2 desc1
  | .multiply => multiply2 scale desc2 desc1
  | .divide => divide2 scale desc2 desc1

end ArithmeticNode
end Firebird
