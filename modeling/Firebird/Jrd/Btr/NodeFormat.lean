import Mathlib.Data.List.Basic
import Firebird.Library.SevenBit
import Firebird.Jrd.Btr.Node

/-!
# Nodes on a page

How index nodes and jump nodes are written to a page and read from it.  Numbers take as few bytes as
their bits need, and the first five bits of a record number lie in the byte with the flags.
-/

namespace Firebird
namespace Btn

open ByteMemory (load store copy)

def BTN_NORMAL_FLAG : Nat := 0
def BTN_END_LEVEL_FLAG : Nat := 1
def BTN_END_BUCKET_FLAG : Nat := 2
def BTN_ZERO_PREFIX_ZERO_LENGTH_FLAG : Nat := 3
def BTN_ZERO_LENGTH_FLAG : Nat := 4
def BTN_ONE_LENGTH_FLAG : Nat := 5

/-- The size of a number: one byte, and more for each of these masks that finds a bit. -/
def numberSize : List Nat → Nat → Nat
  | [], _ => 1
  | mask :: masks, number =>
      if number &&& mask ≠ 0 then masks.length + 2 else numberSize masks number

/-- A number behind the pointer, with the masks and shifts of its bytes. -/
def readNumber (memory : Nat → UInt8) : List (Nat × Nat) → Nat → Nat → Nat × Nat
  | [], number, pagePointer => (number, pagePointer)
  | (mask, shift) :: groups, number, pagePointer =>
      let tmp := (memory pagePointer).toNat
      let number := number ||| (tmp &&& mask) <<< shift
      if 128 ≤ tmp then readNumber memory groups number (pagePointer + 1)
      else (number, pagePointer + 1)

/-- The bytes of a number, with the masks of its bytes. -/
def writeNumber : List Nat → Nat → List UInt8
  | [], _ => []
  | [mask], number => [UInt8.ofNat (number &&& mask)]
  | mask :: masks, number =>
      let tmp := number &&& mask
      let number := number >>> 7
      if 0 < number then UInt8.ofNat (tmp ||| 0x80) :: writeNumber masks number
      else [UInt8.ofNat tmp]

def recordNumberSize (number : Nat) : Nat :=
  numberSize [0xFFF0000000, 0xFFFFE00000, 0xFFFFFFC000, 0xFFFFFFFF80] number

def pageNumberSize (number : Nat) : Nat :=
  numberSize [0xF0000000, 0xFFE00000, 0xFFFFC000, 0xFFFFFF80] number

/-- The size of a prefix or a length in a node. -/
def shortSize (number : Nat) : Nat := numberSize [0xFFFFC000, 0xFFFFFF80] number

/-- The size of a prefix or a length in a jump node. -/
def jumpShortSize (number : Nat) : Nat := numberSize [0xC000, 0xFF80] number

def readRecordNumber (memory : Nat → UInt8) (number pagePointer : Nat) : Nat × Nat :=
  readNumber memory [(0x7F, 5), (0x7F, 12), (0x7F, 19), (0x7F, 26), (0x7F, 33)] number pagePointer

def readPageNumber (memory : Nat → UInt8) (pagePointer : Nat) : Nat × Nat :=
  readNumber memory [(0x7F, 0), (0x7F, 7), (0x7F, 14), (0x7F, 21), (0x0F, 28)] 0 pagePointer

def readShort (memory : Nat → UInt8) (pagePointer : Nat) : Nat × Nat :=
  readNumber memory [(0x7F, 0), (0x7F, 7)] 0 pagePointer

/-- The bytes of a record number behind its first five bits.  The last byte is not written when bits
are left over. -/
def writeRecordBytes : Nat → Nat → List UInt8
  | 0, _ => []
  | 1, number =>
      let tmp := number &&& 0x7F
      let number := number >>> 7
      if number = 0 then [UInt8.ofNat tmp] else []
  | count + 2, number =>
      let tmp := number &&& 0x7F
      let number := number >>> 7
      if number = 0 then [UInt8.ofNat tmp]
      else UInt8.ofNat (tmp ||| 0x80) :: writeRecordBytes (count + 1) number

def writeRecordNumber (number : Nat) : List UInt8 := writeRecordBytes 5 number

def writePageNumber (number : Nat) : List UInt8 := writeNumber [0x7F, 0x7F, 0x7F, 0x7F, 0x0F] number

def writeShort (number : Nat) : List UInt8 := writeNumber [0x7F, 0x7F] number

/-- `IndexNode`, with the place of its data in the memory. -/
structure IndexNode where
  nodePointer : Nat
  /-- `prefix`. -/
  prefixLength : Nat
  length : Nat
  pageNumber : Nat
  data : Nat
  recordNumber : Int
  isEndBucket : Bool
  isEndLevel : Bool
  deriving DecidableEq, Repr

namespace IndexNode

variable (node : IndexNode)

def internalFlags : Nat :=
  if node.isEndLevel then BTN_END_LEVEL_FLAG
  else if node.isEndBucket then BTN_END_BUCKET_FLAG
  else if node.length = 0 then
    if node.prefixLength = 0 then BTN_ZERO_PREFIX_ZERO_LENGTH_FLAG else BTN_ZERO_LENGTH_FLAG
  else if node.length = 1 then BTN_ONE_LENGTH_FLAG
  else BTN_NORMAL_FLAG

/-- A prefix is stored. -/
def hasPrefix (internalFlags : Nat) : Bool := internalFlags ≠ BTN_ZERO_PREFIX_ZERO_LENGTH_FLAG

/-- A length is stored. -/
def hasLength (internalFlags : Nat) : Bool :=
  internalFlags ≠ BTN_ZERO_PREFIX_ZERO_LENGTH_FLAG ∧ internalFlags ≠ BTN_ZERO_LENGTH_FLAG ∧
    internalFlags ≠ BTN_ONE_LENGTH_FLAG

/-- `getNodeSize`, a `USHORT`. -/
def getNodeSize (leafNode : Bool) : Nat :=
  if node.isEndLevel then 1
  else
    (1 + recordNumberSize (node.recordNumber.toNat >>> 5) +
      (if leafNode then 0 else pageNumberSize node.pageNumber) +
      (if hasPrefix node.internalFlags then shortSize node.prefixLength else 0) +
      (if hasLength node.internalFlags then shortSize node.length else 0) + node.length) % 2 ^ 16

/-- The byte with the flags and five bits of the record number. -/
def flagsByte : UInt8 :=
  UInt8.ofNat (node.internalFlags <<< 5 ||| node.recordNumber.toNat &&& 0x1F)

/-- What `writeNode` writes before the data. -/
def header (leafNode : Bool) : List UInt8 :=
  node.flagsByte ::
    if node.isEndLevel then []
    else
      writeRecordNumber (node.recordNumber.toNat >>> 5) ++
        (if leafNode then [] else writePageNumber node.pageNumber) ++
        (if hasPrefix node.internalFlags then writeShort node.prefixLength else []) ++
        (if hasLength node.internalFlags then writeShort node.length else [])

/-- `writeNode`: the node, the memory and the place behind the node. -/
def writeNode (memory : Nat → UInt8) (pagePointer : Nat) (leafNode withData : Bool) :
    IndexNode × (Nat → UInt8) × Nat :=
  let written := { node with nodePointer := pagePointer }
  let offset := (node.getNodeSize leafNode + 2 ^ 16 - node.length) % 2 ^ 16
  let memory :=
    if withData then memory else copy memory node.data memory (pagePointer + offset) node.length
  let memory := store memory pagePointer (node.header leafNode)
  let pagePointer := pagePointer + (node.header leafNode).length
  if node.isEndLevel then (written, memory, pagePointer)
  else
    let memory := if withData then copy memory node.data memory pagePointer node.length else memory
    (written, memory, pagePointer + node.length)

/-- `readNode`. -/
def readNode (memory : Nat → UInt8) (pagePointer : Nat) (leafNode : Bool) : IndexNode × Nat :=
  let flags := (memory pagePointer).toNat
  let number := flags &&& 0x1F
  let internalFlags := (flags &&& 0xE0) >>> 5
  let isEndLevel := internalFlags = BTN_END_LEVEL_FLAG
  let node :=
    { node with
      nodePointer := pagePointer
      isEndLevel := isEndLevel
      isEndBucket := internalFlags = BTN_END_BUCKET_FLAG }
  if isEndLevel then
    ({ node with prefixLength := 0, length := 0, recordNumber := 0, pageNumber := 0 },
      pagePointer + 1)
  else
    let (number, localPointer) := readRecordNumber memory number (pagePointer + 1)
    let (pageNumber, localPointer) :=
      if leafNode then (node.pageNumber, localPointer) else readPageNumber memory localPointer
    let (prefixLength, localPointer) :=
      if internalFlags = BTN_ZERO_PREFIX_ZERO_LENGTH_FLAG then (0, localPointer)
      else readShort memory localPointer
    let (length, localPointer) :=
      if internalFlags = BTN_ZERO_LENGTH_FLAG ∨ internalFlags = BTN_ZERO_PREFIX_ZERO_LENGTH_FLAG then
        (0, localPointer)
      else if internalFlags = BTN_ONE_LENGTH_FLAG then (1, localPointer)
      else readShort memory localPointer
    ({ node with
        recordNumber := number
        pageNumber := pageNumber
        prefixLength := prefixLength
        length := length
        data := localPointer },
      localPointer + length)

/-- What of a node is stored on a leaf page or another page. -/
def content (memory : Nat → UInt8) (leafNode : Bool) : Firebird.IndexNode where
  prefixLength := node.prefixLength
  data := load memory node.data node.length
  recordNumber := node.recordNumber.toNat
  pageNumber := if leafNode then 0 else node.pageNumber
  isEndBucket := node.isEndBucket
  isEndLevel := node.isEndLevel

/-- The ranges of the fields of a node. -/
structure InRange : Prop where
  record_nonneg : 0 ≤ node.recordNumber
  record_lt : node.recordNumber < 2 ^ 40
  page_lt : node.pageNumber < 2 ^ 32
  prefix_lt : node.prefixLength < 2 ^ 14
  length_lt : node.length < 2 ^ 14

/-- A marker of the end of a level has nothing but its flag, as `setEndLevel` makes it. -/
def PlainMarker : Prop :=
  node.isEndLevel = true → node.prefixLength = 0 ∧ node.length = 0 ∧ node.recordNumber = 0 ∧
    node.pageNumber = 0 ∧ node.isEndBucket = false

end IndexNode

/-- `IndexJumpNode`, with the place of its data in the memory. -/
structure IndexJumpNode where
  nodePointer : Nat
  /-- `prefix`. -/
  prefixLength : Nat
  length : Nat
  offset : Nat
  data : Nat
  deriving DecidableEq, Repr

namespace IndexJumpNode

variable (jumpNode : IndexJumpNode)

/-- `getJumpNodeSize`, a `USHORT`. -/
def getJumpNodeSize : Nat :=
  (jumpShortSize jumpNode.prefixLength + jumpShortSize jumpNode.length + 2 + jumpNode.length) % 2 ^ 16

/-- `put_short`. -/
def put_short (value : Nat) : List UInt8 := [UInt8.ofNat value, UInt8.ofNat (value >>> 8)]

/-- `get_short`. -/
def get_short (memory : Nat → UInt8) (pagePointer : Nat) : Nat :=
  (memory pagePointer).toNat ||| (memory (pagePointer + 1)).toNat <<< 8

/-- What `writeJumpNode` writes before the data. -/
def header : List UInt8 :=
  writeShort jumpNode.prefixLength ++ writeShort jumpNode.length ++ put_short jumpNode.offset

/-- `writeJumpNode`: the node, the memory and the place behind the node. -/
def writeJumpNode (memory : Nat → UInt8) (pagePointer : Nat) :
    IndexJumpNode × (Nat → UInt8) × Nat :=
  let memory := store memory pagePointer jumpNode.header
  let place := pagePointer + jumpNode.header.length
  ({ jumpNode with nodePointer := pagePointer },
    copy memory jumpNode.data memory place jumpNode.length, place + jumpNode.length)

/-- `readJumpNode`. -/
def readJumpNode (memory : Nat → UInt8) (pagePointer : Nat) : IndexJumpNode × Nat :=
  let (prefixLength, localPointer) := readShort memory pagePointer
  let (length, localPointer) := readShort memory localPointer
  let offset := get_short memory localPointer
  ({ nodePointer := pagePointer
     prefixLength := prefixLength
     length := length
     offset := offset
     data := localPointer + 2 },
    localPointer + 2 + length)

/-- What of a jump node is stored. -/
def content (memory : Nat → UInt8) : Firebird.IndexJumpNode where
  prefixLength := jumpNode.prefixLength
  data := load memory jumpNode.data jumpNode.length
  offset := jumpNode.offset

/-- The ranges of the fields of a jump node. -/
structure InRange : Prop where
  prefix_lt : jumpNode.prefixLength < 2 ^ 14
  length_lt : jumpNode.length < 2 ^ 14
  offset_lt : jumpNode.offset < 2 ^ 16

end IndexJumpNode
end Btn
end Firebird
