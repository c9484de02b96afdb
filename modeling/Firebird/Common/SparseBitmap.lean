import Firebird.Library.BitMask
import Firebird.Common.BePlusTree

/-!
# Sparse bitmaps

A sparse bitmap holds one value, or buckets of bits in a tree.  `locate` looks for the value that is
nearest to a key in one direction.
-/

namespace Firebird

open BePlusTree (LocType Accessor)

/-- The template arguments of `SparseBitmap`. -/
structure BitmapTypes where
  /-- The bits of `T`. -/
  valueBits : Nat
  /-- `BUNCH_BITS` is a power of two with this exponent. -/
  bunchLog : Nat
  bunchLog_pos : 0 < bunchLog
  bunchLog_le : bunchLog ≤ valueBits

namespace BitmapTypes

variable (types : BitmapTypes)

/-- The bits of a bucket. -/
def BUNCH_BITS : Nat := 2 ^ types.bunchLog

/-- `key & ~(T) (BUNCH_BITS - 1)`. -/
def aligned (key : Nat) : Nat := key &&& (2 ^ types.valueBits - types.BUNCH_BITS)

end BitmapTypes

/-- `Bucket`: its bits are the values from an aligned one on, and at least one is set. -/
structure SparseBitmap.Bucket (types : BitmapTypes) where
  start_value : Nat
  bits : Nat
  start_aligned : types.BUNCH_BITS ∣ start_value
  start_lt : start_value < 2 ^ types.valueBits
  bits_pos : 0 < bits
  bits_lt : bits < 2 ^ types.BUNCH_BITS

/-- `SparseBitmap`. -/
structure SparseBitmap (types : BitmapTypes) where
  singular : Bool
  singular_value : Nat
  tree : BePlusTree (SparseBitmap.Bucket types)
  formed : tree.WellFormed SparseBitmap.Bucket.start_value

namespace SparseBitmap

variable {types : BitmapTypes}

/-- The loop that scans a bucket forwards; `bit` is the place of `bit_mask`. -/
def scanForwards (types : BitmapTypes) (tree_bits : Nat) : Nat → Nat → Nat → Option Nat
  | 0, _, _ => none
  | left + 1, bit, current_value =>
      if tree_bits.testBit bit then some current_value
      else scanForwards types tree_bits left (bit + 1) ((current_value + 1) % 2 ^ types.valueBits)

/-- The loop that scans a bucket backwards; `bit` is the place of `bit_mask`. -/
def scanBackwards (types : BitmapTypes) (tree_bits : Nat) : Nat → Nat → Option Nat
  | 0, current_value => if tree_bits.testBit 0 then some current_value else none
  | bit + 1, current_value =>
      if tree_bits.testBit (bit + 1) then some current_value
      else scanBackwards types tree_bits bit
        ((current_value + 2 ^ types.valueBits - 1) % 2 ^ types.valueBits)

variable (bitmap : SparseBitmap types)

/-- The scan of the found bucket forwards, and of the next one. -/
def locateForwards (treeAccessor : Accessor) (current : Bucket types) (key : Nat) : Option Nat :=
  let key_aligned := types.aligned key
  let (bit, current_value) :=
    if current.start_value = key_aligned then (key - key_aligned, key) else (0, current.start_value)
  match scanForwards types current.bits (types.BUNCH_BITS - bit) bit current_value with
  | some current_value => some current_value
  | none =>
      match treeAccessor.getNext bitmap.tree with
      | (false, _) => none
      | (true, treeAccessor) =>
          (treeAccessor.current bitmap.tree).bind fun current =>
            scanForwards types current.bits types.BUNCH_BITS 0 current.start_value

/-- The scan of the found bucket backwards, and of the previous one. -/
def locateBackwards (treeAccessor : Accessor) (current : Bucket types) (key : Nat) : Option Nat :=
  let key_aligned := types.aligned key
  let (bit, current_value) :=
    if current.start_value = key_aligned then (key - key_aligned, key)
    else (types.BUNCH_BITS - 1, current.start_value)
  match scanBackwards types current.bits bit current_value with
  | some current_value => some current_value
  | none =>
      match treeAccessor.getPrev bitmap.tree with
      | (false, _) => none
      | (true, treeAccessor) =>
          (treeAccessor.current bitmap.tree).bind fun current =>
            scanBackwards types current.bits (types.BUNCH_BITS - 1)
              (current.start_value + types.BUNCH_BITS - 1)

/-- `locate` in the tree, with the relations that are left. -/
def locateTree (lt : LocType) (key : Nat) : Option Nat :=
  match Accessor.locate bitmap.tree Bucket.start_value lt (types.aligned key) with
  | (false, _) => none
  | (true, treeAccessor) =>
      (treeAccessor.current bitmap.tree).bind fun current =>
        match lt with
        | .locEqual => if current.bits.testBit (key - types.aligned key) then some key else none
        | .locGreatEqual => bitmap.locateForwards treeAccessor current key
        | .locLessEqual => bitmap.locateBackwards treeAccessor current key
        | _ => none

/-- The singular value is in the relation to the key. -/
def compare (current_value : Nat) (key : Nat) : LocType → Bool
  | .locEqual => current_value = key
  | .locGreatEqual => key ≤ current_value
  | .locLessEqual => current_value ≤ key
  | .locLess => current_value < key
  | .locGreat => key < current_value

/-- `locate`: the current value if it returns true. -/
def locate (lt : LocType) (key : Nat) : Option Nat :=
  if bitmap.singular then
    if compare bitmap.singular_value key lt then some bitmap.singular_value else none
  else
    match lt with
    | .locLess => if key = 0 then none else bitmap.locateTree .locLessEqual (key - 1)
    | .locGreat =>
        if key = 2 ^ types.valueBits - 1 then none else bitmap.locateTree .locGreatEqual (key + 1)
    | lt => bitmap.locateTree lt key

/-- The bucket holds the value. -/
def Bucket.Has (bucket : Bucket types) (value : Nat) : Prop :=
  bucket.start_value ≤ value ∧ bucket.bits.testBit (value - bucket.start_value) = true

/-- The bitmap holds the value. -/
def Has (value : Nat) : Prop :=
  if bitmap.singular then value = bitmap.singular_value
  else ∃ bucket ∈ bitmap.tree.items, bucket.Has value

/-- The value is in the relation to the key. -/
def Satisfies (key value : Nat) : LocType → Prop
  | .locEqual => value = key
  | .locGreatEqual => key ≤ value
  | .locLessEqual => value ≤ key
  | .locLess => value < key
  | .locGreat => key < value

/-- The current value is no farther from the key than the other one. -/
def Nearest (current other : Nat) : LocType → Prop
  | .locEqual => other = current
  | .locGreatEqual | .locGreat => current ≤ other
  | .locLessEqual | .locLess => other ≤ current

/-- What `locate` is for: it finds the nearest value in the relation if there is one. -/
def Right (lt : LocType) (key : Nat) : Option Nat → Prop
  | none => ∀ value, bitmap.Has value → ¬ Satisfies key value lt
  | some current => bitmap.Has current ∧ Satisfies key current lt ∧
      ∀ other, bitmap.Has other → Satisfies key other lt → Nearest current other lt

/-- The bucket of the key is there, or no bucket lies before it. -/
def Covered (key : Nat) : Prop :=
  (∃ bucket ∈ bitmap.tree.items, bucket.start_value = types.aligned key) ∨
    ∀ bucket ∈ bitmap.tree.items, key < bucket.start_value

/-- When `locate` does what it is for. -/
def Located (lt : LocType) (key : Nat) : Prop :=
  bitmap.singular = true ∨
    match lt with
    | .locLessEqual => bitmap.Covered key
    | .locLess => key = 0 ∨ bitmap.Covered (key - 1)
    | _ => True

end SparseBitmap
end Firebird
