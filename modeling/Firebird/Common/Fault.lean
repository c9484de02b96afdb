import Mathlib.Data.List.Basic

/-!
# Machine conventions shared by the models

Bytes are `UInt8`.  A routine that can stop on an internal consistency check, or that would touch
memory outside the area it was given, returns `Except Fault`.
-/

namespace Firebird

/-- Ways a modelled routine stops without a result. -/
inductive Fault where
  /-- `BUGCHECK(code)`: an internal consistency check failed. -/
  | bugcheck (code : Nat)
  /-- A read or write outside the memory area handed to the routine. -/
  | outOfBounds
  /-- The bound on the rounds of a loop is used up. -/
  | exhausted
  deriving DecidableEq, Repr

theorem bind_eq_ok.{u} {α β : Type u} {routine : Except Fault α} {next : α → Except Fault β}
    {result : β} :
    routine >>= next = .ok result ↔ ∃ value, routine = .ok value ∧ next value = .ok result := by
  cases routine with
  | error fault => simp [bind, Except.bind]
  | ok value => simp [bind, Except.bind]

/-- The value of a byte read through `(signed char)`. -/
def signedChar (byte : UInt8) : Int :=
  if byte.toNat < 128 then byte.toNat else (byte.toNat : Int) - 256

theorem signedChar_ofNat {value : Nat} (small : value < 128) :
    signedChar (UInt8.ofNat value) = value := by
  have toNat_eq : (UInt8.ofNat value).toNat = value := by
    simp [UInt8.toNat_ofNat']
    omega
  simp [signedChar, toNat_eq, small]

theorem signedChar_neg {value : Nat} (positive : 0 < value) (small : value ≤ 128) :
    signedChar (UInt8.ofNat (256 - value)) = -(value : Int) := by
  have toNat_eq : (UInt8.ofNat (256 - value)).toNat = 256 - value := by
    simp [UInt8.toNat_ofNat']
    omega
  rw [signedChar, toNat_eq, if_neg (by omega)]
  omega

end Firebird
