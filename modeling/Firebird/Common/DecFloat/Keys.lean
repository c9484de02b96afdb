import Mathlib
import Firebird.Library.Positional

/-!
# Keys of decimal floating point values

`makeKey` and `grabKey` of `Decimal64`, `Decimal128` and `DecimalFixed`, which put a value into the
words of a sort record and take it out again, and `makeIndexKey`, which writes the bytes of an index
key.  Coefficients and exponents are those the decimal library gives.
-/

namespace Firebird
namespace DecFloat

open Positional (number)

/-- The constants of a decimal format. -/
structure Format where
  pMax : Nat
  bias : Nat
  /-- The greatest exponent of a coefficient of `pMax` digits. -/
  maxExponent : Int
  /-- `decSize / sizeof(int)`. -/
  decWords : Nat
  maxExponent_nonneg : 0 ≤ maxExponent
  pMax_pos : 0 < pMax
  pMax_le_bias : pMax ≤ bias
  /-- The assertion of `make`. -/
  pMax_lt : pMax / 9 < decWords

/-- `DECDOUBLE`, the format of `Decimal64`. -/
def decDouble : Format where
  pMax := 16
  bias := 398
  maxExponent := 369
  decWords := 2
  maxExponent_nonneg := by decide
  pMax_pos := Nat.zero_lt_succ 15
  pMax_le_bias := by decide
  pMax_lt := by decide

/-- `DECQUAD`, the format of `Decimal128` and `DecimalFixed`. -/
def decQuad : Format where
  pMax := 34
  bias := 6176
  maxExponent := 6111
  decWords := 4
  maxExponent_nonneg := by decide
  pMax_pos := by decide
  pMax_le_bias := by decide
  pMax_lt := by decide

/-- A finite value, as `GetCoefficient` and `GetExponent` give it. -/
structure Decimal (format : Format) where
  sign : Bool
  /-- The digits, most significant first. -/
  coeff : List Nat
  exp : Int
  length_coeff : coeff.length = format.pMax
  digits : Positional.Digits 10 coeff
  least : -(format.bias : Int) ≤ exp
  most : exp ≤ format.maxExponent

/-- Zero. -/
def Decimal.zero (format : Format) : Decimal format where
  sign := false
  coeff := List.replicate format.pMax 0
  exp := 0
  length_coeff := List.length_replicate
  digits digit member := by
    rw [List.eq_of_mem_replicate member]
    decide
  least := by omega
  most := format.maxExponent_nonneg

/-- The number that a sign, digits and an exponent denote. -/
def denoted (sign : Bool) (coeff : List Nat) (exp : Int) : ℚ :=
  (if sign then -1 else 1) * number 10 coeff * 10 ^ exp

/-- The number a value stands for. -/
def Decimal.value {format : Format} (decimal : Decimal format) : ℚ :=
  denoted decimal.sign decimal.coeff decimal.exp

/-- The value that a `ULONG` keeps. -/
def ulong (value : Nat) : Nat := value % 2 ^ 32

/-- The count of digits up to the last one that is not zero. -/
def significant (coeff : List Nat) : Nat → Nat
  | 0 => 0
  | i + 1 => if coeff.getD i 0 = 0 then significant coeff i else i + 1

/-- `digits`: the coefficient is moved to the left; the result counts its digits without the zeros
at the end. -/
def digits (pMax : Nat) (coeff : List Nat) (exp : Int) : Nat × List Nat × Int :=
  let i := coeff.findIdx (· != 0)
  if i < pMax then
    let coeff := coeff.drop i ++ List.replicate i 0
    (significant coeff (pMax - i), coeff, exp - i)
  else (0, coeff, exp)

/-! ## Sort keys -/

/-- The words of a sort key, the first one read as a signed number. -/
structure SortKey where
  exp : Int
  words : List Nat
  deriving DecidableEq, Repr

/-- The order of sort keys: the first word is compared as signed, the others as unsigned. -/
instance : LT SortKey where
  lt first second :=
    first.exp < second.exp ∨ first.exp = second.exp ∧ first.words < second.words

instance : DecidableLT SortKey := fun first second =>
  inferInstanceAs (Decidable (first.exp < second.exp ∨
    first.exp = second.exp ∧ first.words < second.words))

/-- `make`. -/
def make (format : Format) (coeff : List Nat) (sign : Bool) (exp : Int) : SortKey :=
  -- normalize coeff & exponent
  let (dig, coeff, exp) := digits format.pMax coeff exp
  -- exponent bias and sign
  let (sign, exp) :=
    if dig = 0 then (false, 0)
    else (sign, if sign then -(exp + (format.bias + 2)) else exp + (format.bias + 2))
  { exp := exp
    words := (List.range format.pMax).foldl
      (fun key i => key.modify (i / 9) fun word =>
        ulong (ulong (word * 10) + if sign then 9 - coeff.getD i 0 else coeff.getD i 0))
      (List.replicate format.decWords 0) }

/-- The loop of `grab` that takes the digits out of the words, from the last one on. -/
def unpack (sign : Bool) : Nat → List Nat → List Nat → List Nat
  | 0, _, bcd => bcd
  | i + 1, key, bcd =>
      let word := key.getD (i / 9) 0
      let digit := word % 10
      unpack sign i (key.set (i / 9) (word / 10)) ((if sign then 9 - digit else digit) :: bcd)

/-- `grab`: digits, sign and exponent. -/
def grab (format : Format) (key : SortKey) : List Nat × Bool × Int :=
  let sign := decide (key.exp < 0)
  let exp := |key.exp|
  let exp := if exp = 0 then exp else exp - (format.bias + 2)
  let bcd := unpack sign format.pMax key.words []
  -- normalize
  match significant bcd format.pMax with
  | 0 => (bcd, sign, exp)
  | i + 1 =>
      (List.replicate (format.pMax - 1 - i) 0 ++ bcd.take (i + 1), sign,
        exp + (format.pMax - 1 - i : Nat))

namespace Decimal

variable {format : Format}

/-- `makeKey`. -/
def makeKey (decimal : Decimal format) : SortKey :=
  make format decimal.coeff decimal.sign decimal.exp

/-- The number that `grabKey` hands over to `FromBCD`. -/
def grabbed (format : Format) (key : SortKey) : ℚ :=
  let (bcd, sign, exp) := grab format key
  denoted sign bcd exp

end Decimal

/-! ## Index keys -/

/-- Three digits each; the digits behind the end are zero. -/
def groups : List Nat → List Nat
  | [] => []
  | [first] => [first * 100 + 0 * 10 + 0]
  | [first, second] => [first * 100 + second * 10 + 0]
  | first :: second :: third :: rest => (first * 100 + second * 10 + third) :: groups rest

/-- `ShiftTable`, for moving 10-bit values to the bytes buffer. -/
structure Shift where
  rshift : Nat
  lshift : Nat

/-- `table`. -/
def table : Nat → Shift
  | 0 => ⟨2, 6⟩
  | 1 => ⟨4, 4⟩
  | 2 => ⟨6, 2⟩
  | _ => ⟨8, 0⟩

/-- The loop that compresses the coefficient, 3 decimal digits (999) per 10 bits (1023), with the
place in the table and the byte under `k`. -/
def compress : List Nat → Nat → Nat → List Nat
  | [], _, byte => if byte = 0 then [] else [byte]
  | val :: rest, t, byte =>
      let byte := (byte ||| val >>> (table t).rshift) % 256
      let next := (val <<< (table t).lshift) % 256
      if (table t).lshift = 0 then byte :: next :: compress rest 0 0
      else byte :: compress rest (t + 1) next

/-- `makeIndexKey`: the bytes of the key. -/
def Decimal.makeIndexKey (decimal : Decimal decQuad) : List Nat :=
  -- normalize coeff & exponent
  let (dig, coeff, exp) := DecFloat.digits decQuad.pMax decimal.coeff decimal.exp
  -- exponent bias and sign
  let exp := if dig = 0 then 0 else exp + (decQuad.bias + 1)
  let exp := if decimal.sign then -exp else exp
  -- make it positive
  let exp := exp + 2 * (decQuad.bias + 1)
  let coeff := coeff.take dig
  -- invert negative
  let coeff :=
    if decimal.sign ∧ dig ≠ 0 then
      (coeff.modify (dig - 1) fun digit => digit - 1).map fun digit => 9 - digit
    else coeff
  (exp.toNat / 256 % 256) :: (exp.toNat % 256) :: compress (groups coeff) 0 0

end DecFloat
end Firebird
