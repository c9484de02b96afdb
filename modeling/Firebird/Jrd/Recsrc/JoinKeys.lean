import Firebird.Common.DecFloat.Keys

/-!
# Keys of a hash join

The data types that a join key may have, when two values of a type compare equal (`CVT2_compare`),
and the bytes that `computeHash` puts into the key buffer for a value.  All streams of a join have
keys of the same types.
-/

namespace Firebird
namespace HashJoin

/-- What the join uses of a collation: its comparison and its keys.  Strings that compare equal have
one key. -/
structure Collation where
  equal : List UInt8 → List UInt8 → Bool
  string_to_key : List UInt8 → List UInt8
  key_eq : ∀ first second, equal first second = true →
    string_to_key first = string_to_key second

/-- A decimal floating point value. -/
inductive DecimalValue (format : DecFloat.Format)
  | finite (decimal : DecFloat.Decimal format)
  | infinity (sign : Bool)
  /-- Not a number, with its sign, its kind and its payload in one. -/
  | nan (diagnostic : Nat)

/-- The image of decimal values in memory; each value has its own. -/
structure Encoding (format : DecFloat.Format) where
  length : Nat
  image : DecimalValue format → List UInt8
  length_image : ∀ value, (image value).length = length
  image_injective : Function.Injective image

/-- The types of join keys. -/
inductive KeyType
  /-- Strings of the internal character sets, with the character that pads them. -/
  | text (length : Nat) (pad : UInt8)
  /-- Other strings, with the length that `INTL_key_length` gives for their keys. -/
  | intl (collation : Collation) (key_length : Nat)
  /-- Integers, dates, times and booleans, with their length. -/
  | exact (length : Nat)
  | real
  | double
  | decimal (format : DecFloat.Format) (encoding : Encoding format)

namespace KeyType

/-- The values of a type that are not null; floating point numbers are given by their bits. -/
def Value : KeyType → Type
  | text length _ => { characters : List UInt8 // characters.length ≤ length }
  | intl collation key_length =>
      { characters : List UInt8 // (collation.string_to_key characters).length ≤ key_length }
  | exact length => { image : List UInt8 // image.length = length }
  | real => BitVec 32
  | double => BitVec 64
  | decimal format _ => DecimalValue format

/-- An element of `keyLengths`. -/
def keyLength : KeyType → Nat
  | text length _ => length
  | intl _ key_length => key_length
  | exact length => length
  | real => 4
  | double => 8
  | decimal _ encoding => encoding.length

end KeyType

/-! ## Comparison -/

/-- The comparison of strings of the internal character sets. -/
def equalPadded (pad : UInt8) : List UInt8 → List UInt8 → Bool
  | [], second => second.all (· == pad)
  | first, [] => first.all (· == pad)
  | left :: first, right :: second => left == right && equalPadded pad first second

/-- A floating point number with so many bits behind its sign and its exponent, all of them. -/
def isNan (exponentBits mantissaBits : Nat) (bits : Nat) : Bool :=
  bits / 2 ^ mantissaBits % 2 ^ exponentBits == 2 ^ exponentBits - 1 &&
    bits % 2 ^ mantissaBits != 0

/-- Zero of either sign. -/
def isZero (exponentBits mantissaBits : Nat) (bits : Nat) : Bool :=
  bits % 2 ^ (exponentBits + mantissaBits) == 0

/-- `==` of floating point numbers. -/
def equalFloat (exponentBits mantissaBits first second : Nat) : Bool :=
  !isNan exponentBits mantissaBits first && !isNan exponentBits mantissaBits second &&
    (first == second ||
      isZero exponentBits mantissaBits first && isZero exponentBits mantissaBits second)

/-- `Decimal64::compare` or `Decimal128::compare` gives zero; the comparison with a value that is
not a number is not a number, and its integer is zero. -/
def equalDecimal {format : DecFloat.Format} : DecimalValue format → DecimalValue format → Bool
  | .finite first, .finite second => first.value == second.value
  | .infinity first, .infinity second => first == second
  | .nan _, _ => true
  | _, .nan _ => true
  | _, _ => false

/-- `CVT2_compare` gives zero for values of a type. -/
def KeyType.equal : (type : KeyType) → type.Value → type.Value → Bool
  | .text _ pad, first, second => equalPadded pad first.1 second.1
  | .intl collation _, first, second => collation.equal first.1 second.1
  | .exact _, first, second => first.1 == second.1
  | .real, first, second => equalFloat 8 23 (BitVec.toNat first) (BitVec.toNat second)
  | .double, first, second => equalFloat 11 52 (BitVec.toNat first) (BitVec.toNat second)
  | .decimal _ _, first, second => equalDecimal first second

/-- The values of the keys of a record; a null is `none`. -/
def Keys : List KeyType → Type
  | [] => Unit
  | type :: types => Option type.Value × Keys types

/-- The join condition: no key is null, and each compares equal. -/
def keysEqual : (types : List KeyType) → Keys types → Keys types → Bool
  | [], _, _ => true
  | type :: types, (some first, firsts), (some second, seconds) =>
      type.equal first second && keysEqual types firsts seconds
  | _ :: _, _, _ => false

/-! ## The key buffer -/

/-- The bytes of a number in memory. -/
def littleEndian (value : Nat) : Nat → List UInt8
  | 0 => []
  | length + 1 => UInt8.ofNat value :: littleEndian (value / 256) length

/-- What a part of the key buffer holds after a value has been put there. -/
def KeyType.put : (type : KeyType) → Option type.Value → List UInt8 → List UInt8
  | .text length pad, some value, _ =>
      value.1 ++ List.replicate (length - value.1.length) pad
  | .intl collation _, some value, part =>
      -- the key may be shorter than the part, and `string_to_key` leaves the rest alone
      let key := collation.string_to_key value.1
      key ++ part.drop key.length
  | .exact _, some value, _ => value.1
  | .real, some value, _ => littleEndian (BitVec.toNat value) 4
  | .double, some value, _ => littleEndian (BitVec.toNat value) 8
  | .decimal _ encoding, some value, _ => encoding.image value
  | type, none, _ => List.replicate type.keyLength 0

/-- `computeHash` up to the hash: what the key buffer holds after the keys of a record. -/
def fillBuffer : (types : List KeyType) → Keys types → List UInt8 → List UInt8
  | [], _, _ => []
  | type :: types, (value, values), keyBuffer =>
      type.put value (keyBuffer.take type.keyLength) ++
        fillBuffer types values (keyBuffer.drop type.keyLength)

/-- `totalKeyLength`. -/
def totalKeyLength (types : List KeyType) : Nat := (types.map KeyType.keyLength).sum

/-- The loop of `basicHash` over the four bytes of `hash_value`; what is left at the end goes to the
first two of them. -/
def addBytes : List UInt8 → UInt8 → UInt8 → UInt8 → UInt8 → List UInt8
  | q0 :: q1 :: q2 :: q3 :: value, p0, p1, p2, p3 =>
      addBytes value (p0 + q0) (p1 + q1) (p2 + q2) (p3 + q3)
  | [q0, q1, q2], p0, p1, p2, p3 => [p0 + q0 + q2, p1 + q1, p2, p3]
  | [q0, q1], p0, p1, p2, p3 => [p0 + q0, p1 + q1, p2, p3]
  | [q0], p0, p1, p2, p3 => [p0 + q0, p1, p2, p3]
  | [], p0, p1, p2, p3 => [p0, p1, p2, p3]

/-- `basicHash`, the hash function of processors without SSE 4.2. -/
def basicHash (value : List UInt8) : Nat :=
  (addBytes value 0 0 0 0).foldr (fun byte high => byte.toNat + 256 * high) 0

/-! ## Values that are stored in one form -/

/-- Two values are stored in one form: zeros of one sign, decimals of one exponent. -/
def KeyType.SameForm : (type : KeyType) → type.Value → type.Value → Prop
  | .text _ _, _, _ => True
  | .intl _ _, _, _ => True
  | .exact _, _, _ => True
  | .real, first, second => first = second
  | .double, first, second => first = second
  | .decimal _ _, first, second => first = second

/-- A value writes its whole part of the key buffer. -/
def KeyType.FillsPart : (type : KeyType) → Option type.Value → Prop
  | .intl collation key_length, some value =>
      (collation.string_to_key value.1).length = key_length
  | _, _ => True

def SameForms : (types : List KeyType) → Keys types → Keys types → Prop
  | [], _, _ => True
  | type :: types, (some first, firsts), (some second, seconds) =>
      type.SameForm first second ∧ SameForms types firsts seconds
  | _ :: types, (_, firsts), (_, seconds) => SameForms types firsts seconds

def FillParts : (types : List KeyType) → Keys types → Prop
  | [], _ => True
  | type :: types, (value, values) => type.FillsPart value ∧ FillParts types values

theorem equalPadded_nil {pad : UInt8} {second : List UInt8}
    (equal : equalPadded pad [] second = true) :
    second = List.replicate second.length pad := by
  refine List.eq_replicate_of_mem fun byte member => ?_
  rw [equalPadded, List.all_eq_true] at equal
  exact eq_of_beq (equal byte member)

theorem equalPadded_filled {pad : UInt8} {first second : List UInt8} {length : Nat}
    (equal : equalPadded pad first second = true) (first_le : first.length ≤ length)
    (second_le : second.length ≤ length) :
    first ++ List.replicate (length - first.length) pad =
      second ++ List.replicate (length - second.length) pad := by
  induction first generalizing second length with
  | nil =>
      have second_eq := equalPadded_nil equal
      conv_rhs => lhs; rw [second_eq]
      rw [List.replicate_append_replicate, List.nil_append, List.length_nil, Nat.sub_zero,
        Nat.add_sub_cancel' second_le]
  | cons left first ih =>
      cases second with
      | nil =>
          have first_eq : left :: first = List.replicate (first.length + 1) pad :=
            List.eq_replicate_of_mem fun byte member =>
              eq_of_beq (List.all_eq_true.mp equal byte member)
          conv_lhs => lhs; rw [first_eq]
          rw [List.replicate_append_replicate]
          exact congrArg (List.replicate · pad) (Nat.add_sub_cancel' first_le)
      | cons right second =>
          rw [equalPadded, Bool.and_eq_true] at equal
          cases length with
          | zero => exact absurd first_le (Nat.not_succ_le_zero _)
          | succ length =>
              rw [eq_of_beq equal.1, List.cons_append, List.cons_append, List.length_cons,
                List.length_cons, Nat.add_sub_add_right, Nat.add_sub_add_right,
                ih equal.2 (Nat.le_of_succ_le_succ first_le) (Nat.le_of_succ_le_succ second_le)]

/-- Floating point numbers that compare equal are the same or both zero. -/
theorem eq_or_isZero_of_equalFloat {exponentBits mantissaBits first second : Nat}
    (equal : equalFloat exponentBits mantissaBits first second = true) :
    first = second ∨
      isZero exponentBits mantissaBits first = true ∧
        isZero exponentBits mantissaBits second = true := by
  rw [equalFloat, Bool.and_eq_true, Bool.or_eq_true] at equal
  exact equal.2.imp eq_of_beq Bool.and_eq_true_iff.mp

/-- Zero of either sign has one of two images. -/
theorem eq_zero_or_of_isZero {exponentBits mantissaBits bits : Nat}
    (zero : isZero exponentBits mantissaBits bits = true)
    (bits_lt : bits < 2 ^ (exponentBits + mantissaBits + 1)) :
    bits = 0 ∨ bits = 2 ^ (exponentBits + mantissaBits) := by
  have remainder : bits % 2 ^ (exponentBits + mantissaBits) = 0 := eq_of_beq zero
  obtain ⟨quotient, rfl⟩ := Nat.dvd_of_mod_eq_zero remainder
  rw [pow_succ] at bits_lt
  have quotient_lt : quotient < 2 := Nat.lt_of_mul_lt_mul_left bits_lt
  rcases Nat.le_one_iff_eq_zero_or_eq_one.mp (Nat.le_of_lt_succ quotient_lt) with rfl | rfl
  · exact .inl rfl
  · exact .inr (Nat.mul_one _)

theorem littleEndian_eq_iff {exponentBits mantissaBits length first second : Nat}
    (equal : equalFloat exponentBits mantissaBits first second = true)
    (first_lt : first < 2 ^ (exponentBits + mantissaBits + 1))
    (second_lt : second < 2 ^ (exponentBits + mantissaBits + 1))
    (signs : littleEndian 0 length ≠ littleEndian (2 ^ (exponentBits + mantissaBits)) length) :
    littleEndian first length = littleEndian second length ↔ first = second := by
  refine ⟨fun same => ?_, fun same => same ▸ rfl⟩
  rcases eq_or_isZero_of_equalFloat equal with rfl | ⟨first_zero, second_zero⟩
  · rfl
  · rcases eq_zero_or_of_isZero first_zero first_lt with rfl | rfl <;>
      rcases eq_zero_or_of_isZero second_zero second_lt with rfl | rfl
    · rfl
    · exact absurd same signs
    · exact absurd same.symm signs
    · rfl

theorem KeyType.put_eq_iff {type : KeyType} {first second : type.Value} {part other : List UInt8}
    (equal : type.equal first second = true) (first_fills : type.FillsPart (some first))
    (second_fills : type.FillsPart (some second)) (part_le : part.length ≤ type.keyLength)
    (other_le : other.length ≤ type.keyLength) :
    type.put (some first) part = type.put (some second) other ↔ type.SameForm first second := by
  cases type with
  | text length pad =>
      exact ⟨fun _ => trivial, fun _ => equalPadded_filled equal first.2 second.2⟩
  | intl collation key_length =>
      refine ⟨fun _ => trivial, fun _ => ?_⟩
      have first_length : (collation.string_to_key first.1).length = key_length := first_fills
      have second_length : (collation.string_to_key second.1).length = key_length := second_fills
      change collation.string_to_key first.1 ++ part.drop (collation.string_to_key first.1).length =
        collation.string_to_key second.1 ++ other.drop (collation.string_to_key second.1).length
      have part_drop : part.drop key_length = [] := List.drop_of_length_le part_le
      have other_drop : other.drop key_length = [] := List.drop_of_length_le other_le
      rw [first_length, second_length, part_drop, other_drop, collation.key_eq _ _ equal]
  | exact length => exact ⟨fun _ => trivial, fun _ => eq_of_beq equal⟩
  | real =>
      exact (littleEndian_eq_iff equal (BitVec.isLt _) (BitVec.isLt _) (by decide)).trans
        BitVec.toNat_inj
  | double =>
      exact (littleEndian_eq_iff equal (BitVec.isLt _) (BitVec.isLt _) (by decide)).trans
        BitVec.toNat_inj
  | decimal format encoding => exact encoding.image_injective.eq_iff

theorem length_littleEndian (value length : Nat) : (littleEndian value length).length = length := by
  induction length generalizing value with
  | zero => rfl
  | succ length ih => exact congrArg (· + 1) (ih (value / 256))

theorem KeyType.length_put {type : KeyType} {value : Option type.Value} {part : List UInt8}
    (fills : type.FillsPart value) (part_le : part.length ≤ type.keyLength) :
    (type.put value part).length = type.keyLength := by
  cases value with
  | none =>
      cases type <;> exact List.length_replicate
  | some value =>
      cases type with
      | text length pad =>
          change (value.1 ++ List.replicate (length - value.1.length) pad).length = length
          rw [List.length_append, List.length_replicate, Nat.add_sub_cancel' value.2]
      | intl collation key_length =>
          have key_eq : (collation.string_to_key value.1).length = key_length := fills
          change (collation.string_to_key value.1 ++
            part.drop (collation.string_to_key value.1).length).length = key_length
          have part_drop : part.drop key_length = [] := List.drop_of_length_le part_le
          rw [key_eq, part_drop, List.append_nil, key_eq]
      | exact length => exact value.2
      | real => exact length_littleEndian _ 4
      | double => exact length_littleEndian _ 8
      | decimal format encoding => exact encoding.length_image value

/-- Keys that compare equal leave the same bytes in any two buffers exactly when their values are
stored in one form. -/
theorem fillBuffer_eq_iff {types : List KeyType} {firsts seconds : Keys types}
    (equal : keysEqual types firsts seconds = true) (first_fills : FillParts types firsts)
    (second_fills : FillParts types seconds) (buffer other : List UInt8) :
    fillBuffer types firsts buffer = fillBuffer types seconds other ↔
      SameForms types firsts seconds := by
  induction types generalizing buffer other with
  | nil => exact ⟨fun _ => trivial, fun _ => rfl⟩
  | cons type types ih =>
      obtain ⟨first, firsts⟩ := firsts
      obtain ⟨second, seconds⟩ := seconds
      cases first with
      | none => exact absurd equal Bool.false_ne_true
      | some first =>
          cases second with
          | none => exact absurd equal Bool.false_ne_true
          | some second =>
              rw [keysEqual, Bool.and_eq_true] at equal
              have part_le := List.length_take_le type.keyLength buffer
              have other_le := List.length_take_le type.keyLength other
              have here := KeyType.put_eq_iff equal.1 first_fills.1 second_fills.1 part_le other_le
              have later := ih equal.2 first_fills.2 second_fills.2
                (buffer.drop type.keyLength) (other.drop type.keyLength)
              have length_eq := (KeyType.length_put first_fills.1 part_le).trans
                (KeyType.length_put second_fills.1 other_le).symm
              rw [fillBuffer, fillBuffer, SameForms, ← here, ← later]
              exact ⟨fun same => List.append_inj same length_eq,
                fun ⟨same_part, same_rest⟩ => same_part ▸ same_rest ▸ rfl⟩

end HashJoin
end Firebird
