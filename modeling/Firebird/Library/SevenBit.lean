import Mathlib.Data.Nat.Bitwise
import Firebird.Library.ByteMemory

/-!
# Numbers in groups of bits

A number is written as bytes of some bits each, low bits first.  Every byte but the last has its high
bit set.
-/

namespace Firebird
namespace SevenBit

open ByteMemory (load)

/-- The bytes of a number for these widths of the groups. -/
def encode : List Nat → Nat → List UInt8
  | [], _ => []
  | width :: widths, number =>
      if number < 2 ^ width then [UInt8.ofNat number]
      else UInt8.ofNat (number % 2 ^ width + 128) :: encode widths (number / 2 ^ width)

/-- The number at a place of the memory, and the place behind it. -/
def decode (memory : Nat → UInt8) : List Nat → Nat → Nat × Nat
  | [], place => (0, place)
  | width :: widths, place =>
      if (memory place).toNat < 128 then ((memory place).toNat % 2 ^ width, place + 1)
      else
        ((memory place).toNat % 2 ^ width + 2 ^ width * (decode memory widths (place + 1)).1,
          (decode memory widths (place + 1)).2)

theorem decode_encoded {memory : Nat → UInt8} {widths : List Nat} (nonempty : widths ≠ [])
    (narrow : ∀ width ∈ widths, width ≤ 7) {number place : Nat} (number_lt : number < 2 ^ widths.sum)
    (held : load memory place (encode widths number).length = encode widths number) :
    decode memory widths place = (number, place + (encode widths number).length) := by
  induction widths generalizing number place with
  | nil => exact absurd rfl nonempty
  | cons width widths ih =>
      have power_le : 2 ^ width ≤ 128 :=
        Nat.pow_le_pow_right Nat.two_pos (narrow width List.mem_cons_self)
      have mod_lt := Nat.mod_lt number (Nat.two_pow_pos width)
      rw [encode] at held ⊢
      rw [decode]
      split at held
      · rename_i small
        have value_eq : (memory place).toNat = number := by
          rw [(ByteMemory.load_cons_iff.mp held).1, UInt8.toNat_ofNat']
          exact Nat.mod_eq_of_lt (by omega)
        rw [value_eq, if_pos (by omega), if_pos small, Nat.mod_eq_of_lt small]
        rfl
      · rename_i large
        obtain ⟨byte_eq, held⟩ := ByteMemory.load_cons_iff.mp held
        have value_eq : (memory place).toNat = number % 2 ^ width + 128 := by
          rw [byte_eq, UInt8.toNat_ofNat']
          exact Nat.mod_eq_of_lt (by omega)
        have rest_lt : number / 2 ^ width < 2 ^ widths.sum := by
          rw [Nat.div_lt_iff_lt_mul (Nat.two_pow_pos width), ← Nat.pow_add, Nat.add_comm]
          exact number_lt
        have rest_nonempty : widths ≠ [] := by
          rintro rfl
          rw [List.sum_nil, Nat.pow_zero, Nat.lt_one_iff, Nat.div_eq_zero_iff] at rest_lt
          rcases rest_lt with zero | less
          · exact absurd zero (Nat.two_pow_pos width).ne'
          · exact large less
        have rest_eq := ih rest_nonempty (fun other member => narrow other (.tail _ member)) rest_lt held
        have low_eq : (number % 2 ^ width + 128) % 2 ^ width = number % 2 ^ width := by
          obtain ⟨gap, gap_eq⟩ := Nat.exists_eq_add_of_le (narrow width List.mem_cons_self)
          rw [show 128 = 2 ^ width * 2 ^ gap by rw [← Nat.pow_add, ← gap_eq], Nat.add_mul_mod_self_left,
            Nat.mod_mod]
        rw [value_eq, if_neg (by omega), if_neg large, rest_eq, low_eq, Nat.mod_add_div,
          List.length_cons]
        refine Prod.ext rfl ?_
        dsimp only
        omega

theorem shiftLeft_groups {low width : Nat} (low_lt : low < 2 ^ width) (high shift : Nat) :
    (low + 2 ^ width * high) <<< shift = low <<< shift ||| high <<< (shift + width) := by
  rw [Nat.add_comm, Nat.two_pow_add_eq_or_of_lt low_lt, Nat.shiftLeft_or_distrib, Nat.or_comm,
    Nat.mul_comm, ← Nat.shiftLeft_eq, ← Nat.shiftLeft_add, Nat.add_comm width]

/-- The high bit of a byte that continues. -/
theorem or_high {low : Nat} (low_lt : low < 128) : low ||| 0x80 = low + 128 := by
  have := @Nat.two_pow_add_eq_or_of_lt 7 low low_lt 1
  rw [Nat.or_comm, Nat.add_comm]
  exact this.symm

end SevenBit
end Firebird
