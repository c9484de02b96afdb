import Mathlib

/-!
# Bytes and longwords

`UCHAR` and `ULONG` values compare as numbers, and `BTR_complement_key` turns the order of bytes
around.
-/

namespace Firebird

instance instLinearOrderUInt8 : LinearOrder UInt8 where
  le := (· ≤ ·)
  lt := (· < ·)
  le_refl := UInt8.le_refl
  le_trans _ _ _ := UInt8.le_trans
  le_antisymm _ _ := UInt8.le_antisymm
  le_total := UInt8.le_total
  lt_iff_le_not_ge _ _ := by
    simp only [UInt8.lt_iff_toNat_lt, UInt8.le_iff_toNat_le]
    omega
  toDecidableLE := inferInstance
  toDecidableLT := inferInstance
  toDecidableEq := inferInstance

instance instLinearOrderUInt32 : LinearOrder UInt32 where
  le := (· ≤ ·)
  lt := (· < ·)
  le_refl := UInt32.le_refl
  le_trans _ _ _ := UInt32.le_trans
  le_antisymm _ _ := UInt32.le_antisymm
  le_total := UInt32.le_total
  lt_iff_le_not_ge _ _ := by
    simp only [UInt32.lt_iff_toNat_lt, UInt32.le_iff_toNat_le]
    omega
  toDecidableLE := inferInstance
  toDecidableLT := inferInstance
  toDecidableEq := inferInstance

/-- `*p ^= -1` of `BTR_complement_key`. -/
def complement (byte : UInt8) : UInt8 := byte ^^^ 255

theorem complement_toNat (byte : UInt8) : (complement byte).toNat = 255 - byte.toNat := by
  have ones : (255 : UInt8) = -1 := by decide
  rw [complement, ones, UInt8.xor_neg_one, UInt8.toNat_not]
  rfl

theorem complement_strictAnti : StrictAnti complement := by
  intro low high less
  rw [UInt8.lt_iff_toNat_lt] at less ⊢
  rw [complement_toNat, complement_toNat]
  have bound := high.toNat_lt
  omega

end Firebird
