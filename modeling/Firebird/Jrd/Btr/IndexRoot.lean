import Mathlib.Data.List.Basic
import Mathlib.Data.Nat.Bitwise
import Firebird.Library.ByteMemory
import Firebird.Library.Extent

/-!
# The index root page

The index root page of a relation has a slot for each index and, from its end downwards, the key
descriptors of the indexes.  A slot is reserved before its index is built, and reused after its index
is deleted.
-/

namespace Firebird
namespace IndexRoot

open ByteMemory (load store copy)

def irt_in_progress : Nat := 4

/-- `irt_repeat`. -/
structure Slot where
  /-- The root page of the index, or the high part of the transaction that builds it. -/
  irt_root : Nat
  irt_transaction : Nat
  irt_desc : Nat
  irt_keys : Nat
  irt_flags : Nat
  deriving DecidableEq, Repr

namespace Slot

variable (slot : Slot)

def inProgress : Bool := slot.irt_flags &&& irt_in_progress ≠ 0

def getRoot : Nat := if slot.inProgress then 0 else slot.irt_root

def setRoot (root_page : Nat) : Slot :=
  { slot with irt_root := root_page, irt_flags := slot.irt_flags &&& (255 - irt_in_progress) }

def setTransaction (traNumber : Nat) : Slot :=
  { slot with
    irt_root := traNumber / 2 ^ 32 % 2 ^ 32
    irt_transaction := traNumber % 2 ^ 32
    irt_flags := slot.irt_flags ||| irt_in_progress }

def isUsed : Bool := slot.inProgress || slot.irt_root ≠ 0

/-- The size of the key descriptors, `irt_keys * sizeof(irtd)`. -/
def size : Nat := slot.irt_keys * 8

/-- The place of the key descriptors. -/
def area : Extent := ⟨slot.irt_desc, slot.size⟩

/-- The bytes of the key descriptors. -/
def descriptors (bytes : Nat → UInt8) : List UInt8 := load bytes slot.irt_desc slot.size

end Slot

/-- `index_root_page`, with the slots apart from the bytes behind them. -/
structure RootPage where
  irt_rpt : List Slot
  bytes : Nat → UInt8

/-- The parts of `index_desc` that go to the index root page. -/
structure IndexDesc where
  idx_id : Nat
  idx_flags : Nat
  idx_count : Nat
  idx_rpt : List UInt8
  count_pos : 0 < idx_count
  /-- `MAX_INDEX_SEGMENTS`. -/
  count_le : idx_count ≤ 16
  length_rpt : idx_rpt.length = idx_count * 8

/-- The end of this many slots in the page. -/
def arrayEnd (count : Nat) : Nat := 20 + 12 * count

/-- `maxIndices`. -/
def maxIndices (page_size : Nat) : Nat := (page_size - 20) / (12 + 8)

/-- One turn of the loop in `compress_root`. -/
def compressSlots (temp : Nat → UInt8) :
    List Slot → Nat → (Nat → UInt8) → List Slot × Nat × (Nat → UInt8)
  | [], p, bytes => ([], p, bytes)
  | slot :: slots, p, bytes =>
      if slot.getRoot ≠ 0 then
        let p := p - slot.size
        let bytes := copy temp slot.irt_desc bytes p slot.size
        let (compressed, last, bytes) := compressSlots temp slots p bytes
        ({ slot with irt_desc := p } :: compressed, last, bytes)
      else
        let (compressed, last, bytes) := compressSlots temp slots p bytes
        (slot :: compressed, last, bytes)

def compress_root (page_size : Nat) (page : RootPage) : RootPage :=
  let (slots, _, bytes) := compressSlots page.bytes page.irt_rpt page_size page.bytes
  { irt_rpt := slots, bytes := bytes }

/-- The high water mark of the descriptors. -/
def highWater (page_size : Nat) (slots : List Slot) : Nat :=
  slots.foldl (fun space slot => if slot.isUsed then min space slot.irt_desc else space) page_size

/-- The first empty slot, or the one with the index id. -/
def freeSlot (idx_id : Option Nat) : Nat → List Slot → Option Nat
  | _, [] => none
  | index, slot :: slots =>
      if slot.isUsed = false ∧ (idx_id = none ∨ idx_id = some index) then some index
      else freeSlot idx_id (index + 1) slots

namespace RootPage

/-- The slots up to a given index id. -/
def grown (use_idx_id : Bool) (idx : IndexDesc) (root : RootPage) : RootPage :=
  if use_idx_id ∧ root.irt_rpt.length ≤ idx.idx_id then
    { root with
      irt_rpt := root.irt_rpt ++ List.replicate (idx.idx_id - root.irt_rpt.length + 1) ⟨0, 0, 0, 0, 0⟩ }
  else root

/-- The place for new descriptors, a `USHORT`. -/
def space (page_size : Nat) (idx : IndexDesc) (root : RootPage) : Nat :=
  (highWater page_size root.irt_rpt + 2 ^ 16 - idx.idx_count * 8) % 2 ^ 16

/-- There is not enough room on the page. -/
def Full (page_size : Nat) (idx : IndexDesc) (root : RootPage) : Prop :=
  root.space page_size idx < arrayEnd (root.irt_rpt.length + 1)

instance (page_size : Nat) (idx : IndexDesc) (root : RootPage) : Decidable (root.Full page_size idx) :=
  inferInstanceAs (Decidable (_ < _))

/-- The reserved slot. -/
def occupy (page_size : Nat) (use_idx_id : Bool) (idx : IndexDesc) (traNumber : Nat)
    (root : RootPage) : RootPage :=
  let slot : Slot :=
    { irt_root := 0
      irt_transaction := 0
      irt_desc := root.space page_size idx
      irt_keys := idx.idx_count
      irt_flags := idx.idx_flags }
  { irt_rpt :=
      match freeSlot (if use_idx_id then some idx.idx_id else none) 0 root.irt_rpt with
      | none => root.irt_rpt ++ [slot.setTransaction traNumber]
      | some index => root.irt_rpt.set index (slot.setTransaction traNumber)
    bytes := store root.bytes (root.space page_size idx) idx.idx_rpt }

end RootPage

/-- The errors of `BTR_reserve_slot`. -/
inductive Error
  | max_idx
  | index_root_page_full
  deriving DecidableEq, Repr

/-- `BTR_reserve_slot`: the page, and the error if there is one. -/
def BTR_reserve_slot (page_size : Nat) (use_idx_id : Bool) (idx : IndexDesc) (traNumber : Nat)
    (root : RootPage) : RootPage × Option Error :=
  if maxIndices page_size < root.irt_rpt.length then (root, some .max_idx)
  else
    let root := root.grown use_idx_id idx
    if root.Full page_size idx then
      let root := compress_root page_size root
      if root.Full page_size idx then (root, some .index_root_page_full)
      else (root.occupy page_size use_idx_id idx traNumber, none)
    else (root.occupy page_size use_idx_id idx traNumber, none)

/-- The slot with this id is changed, if there is one. -/
def changeSlot (id : Nat) (change : Slot → Slot) (root : RootPage) : RootPage :=
  { root with irt_rpt := root.irt_rpt.modify id change }

/-- What `BTR_delete_index` does to the page. -/
def BTR_delete_index (id : Nat) (root : RootPage) : RootPage :=
  changeSlot id (fun slot => { slot.setRoot 0 with irt_flags := 0 }) root

/-- The root page of an index is another one: at the end of `BTR_create` the first one. -/
def setRoot (id root_page : Nat) (root : RootPage) : RootPage :=
  changeSlot id (fun slot => slot.setRoot root_page) root

/-- `update_selectivity`, with the four bytes of each `float`. -/
def update_selectivity (id : Nat) (selectivity : List (List UInt8)) (root : RootPage) : RootPage :=
  match root.irt_rpt[id]? with
  | none => root
  | some slot =>
      { root with
        bytes := (List.range slot.irt_keys).foldl
          (fun bytes i => store bytes (slot.irt_desc + 8 * i + 4) ((selectivity.getD i []).take 4))
          root.bytes }

/-- What happens to an index root page. -/
inductive Operation
  | reserve (use_idx_id : Bool) (idx : IndexDesc) (traNumber : Nat)
  | create (id root_page : Nat) (selectivity : List (List UInt8))
  | change (id root_page : Nat)
  | delete (id : Nat)

def Operation.apply (page_size : Nat) : Operation → RootPage → RootPage
  | .reserve use_idx_id idx traNumber, page =>
      (BTR_reserve_slot page_size use_idx_id idx traNumber page).1
  | .create id root_page selectivity, page =>
      update_selectivity id selectivity (setRoot id root_page page)
  | .change id root_page, page => setRoot id root_page page
  | .delete id, page => BTR_delete_index id page

def run (page_size : Nat) : List Operation → RootPage → RootPage
  | [], page => page
  | operation :: operations, page => run page_size operations (operation.apply page_size page)

/-- The descriptors of the slots in use lie on the page behind the slots and apart. -/
structure WellFormed (page_size : Nat) (page : RootPage) : Prop where
  keys_pos : ∀ slot ∈ page.irt_rpt, slot.isUsed = true → 0 < slot.irt_keys
  within : ∀ slot ∈ page.irt_rpt, slot.isUsed = true →
    slot.area.Within (arrayEnd page.irt_rpt.length) page_size
  apart : page.irt_rpt.Pairwise fun first second =>
    first.isUsed = true → second.isUsed = true → first.area.Apart second.area

/-- Every slot in use has its descriptors as before, and they are on the page, behind the slots and
apart. -/
def Keeps (page_size : Nat) (page after : RootPage) : Prop :=
  (∀ (id : Nat) (slot : Slot), page.irt_rpt[id]? = some slot → slot.isUsed = true →
    ∃ moved, after.irt_rpt[id]? = some moved ∧ moved.isUsed = true ∧
      moved.irt_keys = slot.irt_keys ∧ moved.descriptors after.bytes = slot.descriptors page.bytes) ∧
    WellFormed page_size after

/-- The size of the descriptors of the indexes that have been built. -/
def builtSize (slots : List Slot) : Nat :=
  ((slots.filter fun slot => slot.getRoot ≠ 0).map Slot.size).sum

/-- The descriptors of the slots whose index is being built lie below the space at the end of the page
that the descriptors of all other indexes need. -/
def BuildsBelow (page_size : Nat) (page : RootPage) : Prop :=
  ∀ slot ∈ page.irt_rpt, slot.inProgress = true →
    slot.irt_desc + slot.size ≤ page_size - builtSize page.irt_rpt

/-- When an operation keeps the page well formed.  A reservation with a given id has room for the slots
up to it, the descriptors are no longer than the lowest offset of other descriptors, and if the page
must be compressed, the descriptors of slots whose index is being built lie below the others. -/
def Operation.Sound (page_size : Nat) : Operation → RootPage → Prop
  | .reserve use_idx_id idx _, page =>
      maxIndices page_size < page.irt_rpt.length ∨
        (use_idx_id = true → page.irt_rpt.length ≤ idx.idx_id →
          ∀ slot ∈ page.irt_rpt, slot.isUsed = true → arrayEnd (idx.idx_id + 1) ≤ slot.irt_desc) ∧
        (∀ slot ∈ page.irt_rpt, slot.isUsed = true → idx.idx_count * 8 ≤ slot.irt_desc) ∧
        ((page.grown use_idx_id idx).Full page_size idx →
          BuildsBelow page_size page ∧ idx.idx_count * 8 + builtSize page.irt_rpt ≤ page_size)
  | .create id root_page _, page | .change id root_page, page =>
      root_page ≠ 0 ∧ ∀ slot, page.irt_rpt[id]? = some slot → slot.isUsed = true
  | .delete _, _ => True

/-- Every operation of a run is sound. -/
def AllSound (page_size : Nat) : List Operation → RootPage → Prop
  | [], _ => True
  | operation :: operations, page =>
      operation.Sound page_size page ∧ AllSound page_size operations (operation.apply page_size page)

end IndexRoot
end Firebird
