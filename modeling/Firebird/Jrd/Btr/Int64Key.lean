import Firebird.Library.BinaryRounding

/-!
# Index keys of 64-bit integers

`make_int64_key` multiplies a scaled integer by a power of ten from a table, and makes a key of a
`double` and the last four digits.  A `double` stands for its value; all values here are far from the
ends of its exponents.
-/

namespace Firebird
namespace Int64Key

/-- The nearest `double`. -/
def double (number : ℚ) : ℚ := BinaryRounding.round 52 number

/-- A row of `int64_scale_control`. -/
structure ScaleControl where
  limit : Nat
  factor : Nat
  scale_change : Nat
  deriving DecidableEq, Repr

def int64_scale_control : List ScaleControl :=
  [⟨922337203685470000, 1, 0⟩,
    ⟨92233720368547000, 10, 1⟩,
    ⟨9223372036854700, 100, 2⟩,
    ⟨922337203685470, 1000, 3⟩,
    ⟨92233720368548, 10000, 4⟩,
    ⟨9223372036855, 100000, 5⟩,
    ⟨922337203686, 1000000, 6⟩,
    ⟨92233720369, 10000000, 7⟩,
    ⟨9223372035, 100000000, 8⟩,
    ⟨922337204, 1000000000, 9⟩,
    ⟨92233721, 10000000000, 10⟩,
    ⟨9223373, 100000000000, 11⟩,
    ⟨922338, 1000000000000, 12⟩,
    ⟨92234, 10000000000000, 13⟩,
    ⟨9224, 100000000000000, 14⟩,
    ⟨923, 1000000000000000, 15⟩,
    ⟨93, 10000000000000000, 16⟩,
    ⟨10, 100000000000000000, 17⟩,
    ⟨1, 1000000000000000000, 18⟩,
    ⟨0, 0, 0⟩]

/-- The loop that looks for the row. -/
def scaleRow (uq : Nat) : List ScaleControl → ScaleControl
  | [] => ⟨0, 0, 0⟩
  | row :: rows => if uq < row.limit then scaleRow uq rows else row

/-- The row of the table for a number. -/
def control (q : Int) : ScaleControl := scaleRow q.natAbs int64_scale_control

/-- `pow10_table`. -/
def pow10_table (index : Nat) : Option ℚ := if index ≤ 36 then some (double (10 ^ index)) else none

def powerof10 (index : Int) : Option ℚ :=
  if index ≤ 0 then pow10_table (-index).toNat
  else (pow10_table index.toNat).map fun power => double (1 / power)

/-- `INT64_KEY`. -/
structure INT64_KEY where
  d_part : ℚ
  s_part : Int
  deriving DecidableEq

/-- The order of the keys. -/
def INT64_KEY.compare (key1 key2 : INT64_KEY) : Ordering :=
  (Ord.compare key1.d_part key2.d_part).then (Ord.compare key1.s_part key2.s_part)

/-- The quotient and the rest of `q / 10000`, with the scale of the quotient. -/
def keyOf (q : Int) (power : ℚ) : INT64_KEY where
  d_part := double (double (q.tdiv 10000) / power)
  s_part := q.tmod 10000

/-- `make_int64_key`, unless the scale leads out of `pow10_table`; the product is a `SINT64`. -/
def make_int64_key (q scale : Int) : Option INT64_KEY :=
  let row := control q
  (powerof10 (scale - row.scale_change)).map fun power =>
    keyOf ((q * row.factor).bmod (2 ^ 64)) power

/-- The numbers of a `SINT64`. -/
def IsSINT64 (q : Int) : Prop := -2 ^ 63 ≤ q ∧ q < 2 ^ 63

/-- The decimal value. -/
def value (q scale : Int) : ℚ := q * 10 ^ scale

/-- The keys are made, without an overflow, and ordered as the values are. -/
def Agrees (q1 scale1 q2 scale2 : Int) : Prop :=
  IsSINT64 (q1 * (control q1).factor) ∧ IsSINT64 (q2 * (control q2).factor) ∧
    ∃ key1 key2, make_int64_key q1 scale1 = some key1 ∧ make_int64_key q2 scale2 = some key2 ∧
      key1.compare key2 = compare (value q1 scale1) (value q2 scale2)

/-- The limits in the table are not the same number of digits at each length: this quotient can have
one digit more in the key of the same value at another scale.  The scales are those of the shorter
quotient at which the shorter one rounds to a smaller `double`, or to a greater one. -/
structure Boundary where
  quotient : Nat
  rises : List Int
  falls : List Int

def boundaries : List Boundary :=
  [⟨92233720368547, [-32, -30, -27, 5, 9, 17, 22, 31],
      [-24, -23, 6, 11, 19, 20, 25, 30, 32, 35, 36]⟩,
    ⟨92233720350000, [-25, 12, 22, 27, 31], [-35, -29, -24, -23, 6, 11, 16, 19, 25, 30, 32, 36]⟩,
    ⟨92233720360000, [-32, -30, -28, -27, -25, 5, 8, 17, 22, 27, 31, 33, 34],
      [-35, -29, -24, -23, 6, 11, 20, 21, 25, 30, 32, 36]⟩]

/-- How the `double` of the shorter quotient compares with that of the longer one. -/
def Boundary.split (boundary : Boundary) (scale : Int) : Ordering :=
  if scale ∈ boundary.rises then .lt else if scale ∈ boundary.falls then .gt else .eq

/-- How far two numbers lie beyond the boundary decides that their keys are in disorder. -/
def Disordered (split : Ordering) (excess1 excess2 : Nat) : Prop :=
  if 10000 ≤ excess2 then excess2 ≤ 10 * excess1
  else match split with
    | .lt => excess2 ≤ 10 * excess1
    | .eq => 0 < excess1 ∧ excess1 ≤ excess2 ∧ excess2 ≤ 10 * excess1
    | .gt => 10 * excess1 ≤ excess2

/-- A number, multiplied to this absolute value, lies at a boundary with the shorter quotient, and
another one at the same boundary with the longer quotient. -/
def Crossed (scaled1 scaled2 : Nat) (scale1 : Int) : Prop :=
  ∃ boundary ∈ boundaries, 10000 * boundary.quotient ≤ scaled1 ∧
    scaled1 < 10000 * (boundary.quotient + 1) ∧ 100000 * boundary.quotient ≤ scaled2 ∧
    Disordered (boundary.split scale1) (scaled1 - 10000 * boundary.quotient)
      (scaled2 - 100000 * boundary.quotient)

/-- The absolute value after the multiplication. -/
def scaledUp (q : Int) : Nat := q.natAbs * (control q).factor

/-- The scale after the multiplication. -/
def scaledScale (q scale : Int) : Int := scale - (control q).scale_change

/-- The scale stays in `pow10_table`. -/
def Tabled (q scale : Int) : Prop := -36 ≤ scaledScale q scale ∧ scaledScale q scale ≤ 36

/-- When the order of the keys is that of the values. -/
def Ordered (q1 scale1 q2 scale2 : Int) : Prop :=
  Tabled q1 scale1 ∧ Tabled q2 scale2 ∧
    (q1.sign = q2.sign →
      (scaledScale q1 scale1 = scaledScale q2 scale2 + 1 →
        ¬ Crossed (scaledUp q1) (scaledUp q2) (scaledScale q1 scale1)) ∧
      (scaledScale q2 scale2 = scaledScale q1 scale1 + 1 →
        ¬ Crossed (scaledUp q2) (scaledUp q1) (scaledScale q2 scale2)))

end Int64Key
end Firebird
