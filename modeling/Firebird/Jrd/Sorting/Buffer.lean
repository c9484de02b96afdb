import Firebird.Common.Byte
import Firebird.Common.Fault

/-!
# The sort buffer

Records are put into the buffer from its end downwards, pointers to them from its start upwards.
Every record has a pointer back to its pointer in front of it.  `quick` sorts the pointers.
-/

namespace Firebird

/-- A pointer of the pointer area. -/
inductive SortPointer where
  /-- `low_key`. -/
  | low
  /-- `high_key`. -/
  | high
  /-- The record that was put after this number of other ones. -/
  | record (address : Nat)
  /-- The record was eliminated as a duplicate. -/
  | null
  deriving DecidableEq, Repr

/-- The sort buffer. -/
structure SortBuffer where
  /-- The number of records. -/
  count : Nat
  pointers : Nat → SortPointer
  /-- `sr_bckptr`, as the number of a pointer. -/
  sr_bckptr : Nat → Option Nat
  /-- `sort_record_key` and the data behind it. -/
  sort_record : Nat → List UInt32
  /-- The address of the pointer area. -/
  m_first_pointer : Nat
  /-- The longword behind the buffer. -/
  beyond : UInt32

namespace SortBuffer

/-- The longwords at a pointer. -/
def words (buffer : SortBuffer) : SortPointer → List UInt32
  | .low => List.replicate 6 0
  | .high => List.replicate 64 (UInt32.ofNat 4294967295)
  | .record address => buffer.sort_record address
  | .null => []

/-- The first longword at the pointer with a number. -/
def head (buffer : SortBuffer) (number : Nat) : UInt32 :=
  (buffer.words (buffer.pointers number)).headD 0

/-- The low longword of a pointer back. -/
def bckptrWord (buffer : SortBuffer) (address : Nat) : UInt32 :=
  match buffer.sr_bckptr address with
  | none => 0
  | some number => UInt32.ofNat (buffer.m_first_pointer + 8 * number)

/-- What a comparison of records reads: the record and one longword more, which belongs to the
record that was put before. -/
def longs (buffer : SortBuffer) (number : Nat) : List UInt32 :=
  match buffer.pointers number with
  | .record 0 => buffer.sort_record 0 ++ [buffer.beyond]
  | .record (address + 1) => buffer.sort_record (address + 1) ++ [buffer.bckptrWord address]
  | pointer => buffer.words pointer

/-- `while (tl && *p == *q)`, and the comparison behind it. -/
def compareLongs : Nat → List UInt32 → List UInt32 → Ordering
  | tl + 1, p :: ps, q :: qs =>
      if p = q then compareLongs tl ps qs else if p < q then .lt else .gt
  | _, _, _ => .eq

/-- The comparison of the records at two pointers. -/
def compareRecords (buffer : SortBuffer) (length left right : Nat) : Ordering :=
  compareLongs (length - 1) (buffer.longs left) (buffer.longs right)

/-- Set the pointer back of what a pointer shows to. -/
def setBckptr (sr_bckptr : Nat → Option Nat) (pointer : SortPointer) (number : Nat) :
    Nat → Option Nat :=
  match pointer with
  | .record address => fun other => if other = address then some number else sr_bckptr other
  | _ => sr_bckptr

/-- `swap`. -/
def swap (buffer : SortBuffer) (a b : Nat) : SortBuffer :=
  { buffer with
    sr_bckptr :=
      setBckptr (setBckptr buffer.sr_bckptr (buffer.pointers a) b) (buffer.pointers b) a
    pointers := fun number =>
      if number = a then buffer.pointers b
      else if number = b then buffer.pointers a
      else buffer.pointers number }

/-! ## `quick` -/

/-- `while (**i < key) i++`; the longwords behind `high_key` are not read. -/
def scanLow (buffer : SortBuffer) (key : UInt32) (i : Nat) : Nat → Except Fault Nat
  | 0 => .error .outOfBounds
  | left + 1 => if buffer.head i < key then scanLow buffer key (i + 1) left else .ok i

/-- `while (i <= *su)`, stopped at a record behind that of `r`. -/
def skipLow (buffer : SortBuffer) (length r i : Nat) : Nat → Nat
  | 0 => i
  | left + 1 =>
      if buffer.compareRecords length i r = .gt then i else skipLow buffer length r (i + 1) left

/-- `while (**j > key) j--`. -/
def scanHigh (buffer : SortBuffer) (key : UInt32) : Nat → Nat
  | 0 => 0
  | j + 1 => if key < buffer.head (j + 1) then scanHigh buffer key j else j + 1

/-- `while (j != r)`, stopped at a record before that of `r`. -/
def skipHigh (buffer : SortBuffer) (length r j : Nat) : Nat → Nat
  | 0 => j
  | left + 1 =>
      if buffer.compareRecords length j r = .lt then j else skipHigh buffer length r (j - 1) left

/-- The loop that converges from each end of an interval to its middle; it ends with `j`. -/
def partition (length r upper : Nat) (key : UInt32) :
    Nat → SortBuffer → Nat → Nat → Except Fault (SortBuffer × Nat)
  | 0, _, _, _ => .error .exhausted
  | rounds + 1, buffer, i, j => do
      let i ← buffer.scanLow key i (buffer.count + 2 - i)
      let i := if buffer.head i = key then buffer.skipLow length r i (upper + 1 - i) else i
      let j := buffer.scanHigh key j
      let j := if buffer.head j = key then buffer.skipHigh length r j (j - r) else j
      if j ≤ i then
        pure (buffer, j)
      else
        partition length r upper key rounds (buffer.swap i j) (i + 1) (j - 1)

/-- The entries of `stack_lower` and `stack_upper`. -/
def stackSize : Nat := 50

/-- The loop of `quick` over the stack of intervals. -/
def quickLoop (length : Nat) : Nat → List (Nat × Nat) → SortBuffer → Except Fault SortBuffer
  | _, [], buffer => .ok buffer
  | 0, _ :: _, _ => .error .exhausted
  | rounds + 1, (r, upper) :: stack, buffer =>
      if upper < r + 2 then
        quickLoop length rounds stack buffer
      else do
        let buffer := buffer.swap (r + (upper - r) / 2) r
        let (buffer, j) ← partition length r upper (buffer.head r) (upper + 1) buffer (r + 1) upper
        let buffer := buffer.swap r j
        if stackSize < stack.length + 2 then
          .error .outOfBounds
        else if upper - j + 1 < j - r then
          quickLoop length rounds ((j + 1, upper) :: (r, j - 1) :: stack) buffer
        else
          quickLoop length rounds ((r, j - 1) :: (j + 1, upper) :: stack) buffer

/-- `quick`. -/
def quick (buffer : SortBuffer) (length : Nat) : Except Fault SortBuffer :=
  quickLoop length (2 * buffer.count + 1) [(1, buffer.count)] buffer

/-- The loop that corrects out of order pairs, from the pointer `i` on. -/
def orderPairs (length : Nat) (buffer : SortBuffer) (i : Nat) : Nat → SortBuffer
  | 0 => buffer
  | left + 1 =>
      let swapped := buffer.head (i + 1) ≤ buffer.head i ∧
        buffer.compareRecords length i (i + 1) = .gt
      orderPairs length (if swapped then buffer.swap i (i + 1) else buffer) (i + 1) left

/-- `sortBuffer`, without the handling of duplicates. -/
def sortBuffer (buffer : SortBuffer) (length : Nat) : Except Fault SortBuffer := do
  let buffer ← buffer.quick length
  pure (orderPairs length buffer 1 (buffer.count - 1))

end SortBuffer

end Firebird
