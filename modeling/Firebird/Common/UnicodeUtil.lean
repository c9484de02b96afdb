import Mathlib
import Firebird.Library.CharacterCode

/-!
# Conversions between the Unicode encodings

`utf16ToUtf8`, `utf16ToUtf32`, `utf32ToUtf16` and `utf16Substring` of `common/unicode_util.cpp`.  A
destination is filled from its start, so it is the list of the units that have been stored in it;
lengths and positions of the interface are in bytes.  A call without a destination, which only asks
for a length, is left out.  The macros of ICU are a parameter.
-/

namespace Firebird
namespace UnicodeUtil

open CharacterCode

/-- The macros of ICU that the conversions use, with what is documented for them. -/
structure Icu where
  /-- `UTF_IS_LEAD`. -/
  isLead : Nat → Bool
  /-- `UTF_IS_TRAIL`. -/
  isTrail : Nat → Bool
  /-- `UTF_IS_SURROGATE`. -/
  isSurrogate : Nat → Bool
  /-- `UTF_IS_SURROGATE_FIRST`, for surrogates only. -/
  isSurrogateFirst : Nat → Bool
  /-- `UTF16_GET_PAIR_VALUE`. -/
  getPairValue : Nat → Nat → Nat
  /-- `UTF16_LEAD`. -/
  lead : Nat → Nat
  /-- `UTF16_TRAIL`. -/
  trail : Nat → Nat
  /-- `U8_LENGTH`. -/
  u8Length : Nat → Nat
  /-- The bytes that `U8_APPEND_UNSAFE` stores. -/
  u8Append : Nat → List UInt8
  isLead_iff : ∀ unit, isLead unit = true ↔ IsLead unit
  isTrail_iff : ∀ unit, isTrail unit = true ↔ IsTrail unit
  isSurrogate_iff : ∀ unit, isSurrogate unit = true ↔ IsLead unit ∨ IsTrail unit
  isSurrogateFirst_iff : ∀ unit, IsLead unit ∨ IsTrail unit →
    (isSurrogateFirst unit = true ↔ IsLead unit)
  getPairValue_eq : ∀ lead trail, IsLead lead → IsTrail trail →
    getPairValue lead trail = pairValue lead trail
  lead_eq : ∀ value, 0xFFFF < value → value ≤ 0x10FFFF → lead value = leadOf value
  trail_eq : ∀ value, 0xFFFF < value → value ≤ 0x10FFFF → trail value = trailOf value
  u8Length_eq : ∀ c : Char, u8Length c.toNat = (String.utf8EncodeChar c).length
  u8Append_eq : ∀ c : Char, u8Append c.toNat = String.utf8EncodeChar c

instance : Inhabited Icu where
  default :=
    { isLead := fun unit => decide (IsLead unit)
      isTrail := fun unit => decide (IsTrail unit)
      isSurrogate := fun unit => decide (IsLead unit ∨ IsTrail unit)
      isSurrogateFirst := fun unit => decide (IsLead unit)
      getPairValue := pairValue
      lead := leadOf
      trail := trailOf
      u8Length := fun value => (String.utf8EncodeChar (Char.ofNat value)).length
      u8Append := fun value => String.utf8EncodeChar (Char.ofNat value)
      isLead_iff := fun _ => decide_eq_true_iff
      isTrail_iff := fun _ => decide_eq_true_iff
      isSurrogate_iff := fun _ => decide_eq_true_iff
      isSurrogateFirst_iff := fun _ _ => decide_eq_true_iff
      getPairValue_eq := fun _ _ _ _ => rfl
      lead_eq := fun _ _ _ => rfl
      trail_eq := fun _ _ _ => rfl
      u8Length_eq := fun c => by rw [Char.ofNat_toNat]
      u8Append_eq := fun c => by rw [Char.ofNat_toNat] }

def CS_TRUNCATION_ERROR : Nat := 1

def CS_BAD_INPUT : Nat := 3

/-- What a conversion leaves behind. -/
structure Conversion (β : Type) where
  /-- All units that were stored, from the start of the destination on. -/
  stored : List β
  /-- The number of units in the returned length. -/
  length : Nat
  err_code : Nat
  err_position : Nat
  deriving DecidableEq, Repr

namespace Conversion

/-- The text that the caller is given. -/
def output {β : Type} (conversion : Conversion β) : List β :=
  conversion.stored.take conversion.length

end Conversion

variable (icu : Icu)

/-! ## UTF-16 to UTF-8 -/

/-- The loop of `utf16ToUtf8`; `src` is the source from `i` on. -/
def utf16ToUtf8Loop (dstLen : Nat) (i : Nat) (dst : List UInt8) (err_position : Nat) :
    (src : List UInt16) → Conversion UInt8
  | [] => ⟨dst, dst.length, 0, err_position⟩
  | unit :: rest =>
      if dstLen - dst.length = 0 then ⟨dst, dst.length, CS_TRUNCATION_ERROR, i * 2⟩
      else
        let c := unit.toNat
        if c ≤ 0x7F then
          utf16ToUtf8Loop dstLen (i + 1) (dst ++ [UInt8.ofNat c]) err_position rest
        else if icu.isSurrogate c then
          match rest with
          | [] => ⟨dst, dst.length, CS_BAD_INPUT, i * 2⟩
          | c2 :: rest =>
              if icu.isSurrogateFirst c && icu.isTrail c2.toNat then
                let c := icu.getPairValue c c2.toNat
                if icu.u8Length c ≤ dstLen - dst.length then
                  utf16ToUtf8Loop dstLen (i + 2) (dst ++ icu.u8Append c) (i * 2) rest
                else ⟨dst, dst.length, CS_TRUNCATION_ERROR, i * 2⟩
              else ⟨dst, dst.length, CS_BAD_INPUT, i * 2⟩
        else if icu.u8Length c ≤ dstLen - dst.length then
          utf16ToUtf8Loop dstLen (i + 1) (dst ++ icu.u8Append c) (i * 2) rest
        else ⟨dst, dst.length, CS_TRUNCATION_ERROR, i * 2⟩

/-- `err_position` is what the caller's variable holds before the call. -/
def utf16ToUtf8 (src : List UInt16) (dstLen err_position : Nat) : Conversion UInt8 :=
  utf16ToUtf8Loop icu dstLen 0 [] err_position src

/-! ## UTF-16 to UTF-32 and back -/

/-- The statements behind the loops of `utf16ToUtf32` and `utf32ToUtf16`. -/
def finish {α β : Type} (dst : List β) (err_code : Nat) (err_position : Nat) (src : List α) :
    Conversion β :=
  ⟨dst, dst.length, if err_code = 0 ∧ src ≠ [] then CS_TRUNCATION_ERROR else err_code,
    err_position⟩

/-- The loop of `utf16ToUtf32`; `src` is the source from `position` on. -/
def utf16ToUtf32Loop (capacity : Nat) (position : Nat) (dst : List UInt32) :
    (src : List UInt16) → Conversion UInt32
  | [] => finish dst 0 (position * 2) ([] : List UInt16)
  | unit :: rest =>
      if dst.length < capacity then
        let ch := unit.toNat
        if icu.isLead ch then
          match rest with
          | [] => finish dst CS_BAD_INPUT (position * 2) [unit]
          | ch2 :: rest =>
              if icu.isTrail ch2.toNat then
                utf16ToUtf32Loop capacity (position + 2)
                  (dst ++ [UInt32.ofNat (icu.getPairValue ch ch2.toNat)]) rest
              else finish dst CS_BAD_INPUT (position * 2) (unit :: ch2 :: rest)
        else utf16ToUtf32Loop capacity (position + 1) (dst ++ [UInt32.ofNat ch]) rest
      else finish dst 0 (position * 2) (unit :: rest)

def utf16ToUtf32 (src : List UInt16) (dstLen : Nat) : Conversion UInt32 :=
  utf16ToUtf32Loop icu (dstLen / 4) 0 [] src

/-- The loop of `utf32ToUtf16`; `src` is the source from `position` on. -/
def utf32ToUtf16Loop (capacity : Nat) (position : Nat) (dst : List UInt16) :
    (src : List UInt32) → Conversion UInt16
  | [] => finish dst 0 (position * 4) ([] : List UInt32)
  | ch :: rest =>
      if dst.length < capacity then
        if ch.toNat ≤ 0xFFFF then
          utf32ToUtf16Loop capacity (position + 1) (dst ++ [UInt16.ofNat ch.toNat]) rest
        else if ch.toNat ≤ 0x10FFFF then
          let dst := dst ++ [UInt16.ofNat (icu.lead ch.toNat)]
          if dst.length < capacity then
            utf32ToUtf16Loop capacity (position + 1)
              (dst ++ [UInt16.ofNat (icu.trail ch.toNat)]) rest
          else
            -- `--dst` takes the lead back, and `src` stays behind the character
            ⟨dst, dst.length - 1, CS_TRUNCATION_ERROR, (position + 1) * 4⟩
        else finish dst CS_BAD_INPUT (position * 4) (ch :: rest)
      else finish dst 0 (position * 4) (ch :: rest)

def utf32ToUtf16 (src : List UInt32) (dstLen : Nat) : Conversion UInt16 :=
  utf32ToUtf16Loop icu (dstLen / 2) 0 [] src

/-! ## Substrings -/

/-- The first loop of `utf16Substring`, up to the character at `startPos`. -/
def skipCharacters (capacity : Nat) (startPos : Nat) (pos : Nat) :
    (src : List UInt16) → List UInt16 × Nat
  | [] => ([], pos)
  | unit :: rest =>
      if 0 < capacity ∧ pos < startPos then
        if icu.isLead unit.toNat then
          match rest with
          | [] => skipCharacters capacity startPos (pos + 1) []
          | ch2 :: behind =>
              if icu.isTrail ch2.toNat then skipCharacters capacity startPos (pos + 1) behind
              else skipCharacters capacity startPos (pos + 1) (ch2 :: behind)
        else skipCharacters capacity startPos (pos + 1) rest
      else (unit :: rest, pos)
termination_by src => src.length

/-- The second loop of `utf16Substring`: both units of a pair are stored once the first one fits. -/
def copyCharacters (capacity : Nat) (stop : Nat) (pos : Nat) (dst : List UInt16) :
    (src : List UInt16) → List UInt16
  | [] => dst
  | ch :: rest =>
      if dst.length < capacity ∧ pos < stop then
        if icu.isLead ch.toNat then
          match rest with
          | [] => copyCharacters capacity stop (pos + 1) (dst ++ [ch]) []
          | ch2 :: behind =>
              if icu.isTrail ch2.toNat then
                copyCharacters capacity stop (pos + 1) (dst ++ [ch] ++ [ch2]) behind
              else copyCharacters capacity stop (pos + 1) (dst ++ [ch]) (ch2 :: behind)
        else copyCharacters capacity stop (pos + 1) (dst ++ [ch]) rest
      else dst
termination_by src => src.length

/-- All units that `utf16Substring` stores; it returns their length. -/
def utf16Substring (src : List UInt16) (dstLen : Nat) (startPos length : UInt32) : List UInt16 :=
  if length = 0 then []
  else
    let (src, pos) := skipCharacters icu (dstLen / 2) startPos.toNat 0 src
    copyCharacters icu (dstLen / 2) (startPos + length).toNat pos [] src

end UnicodeUtil
end Firebird
