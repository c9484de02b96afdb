import Firebird.Jrd.Btr.JumpArea
import Firebird.Jrd.Btr.NodeRoundTrip

/-!
# Buckets on pages

Behind the header of a page come the jump nodes, in a table that may be longer than they are, and behind
the table the nodes.
-/

namespace Firebird

open ByteMemory (load store copy Lies)

namespace Btn

/-- A node before it is read. -/
def IndexNode.blank : IndexNode := ⟨0, 0, 0, 0, 0, 0, false, false⟩

/-- The fields of a node as they are written. -/
def stored (node : Firebird.IndexNode) : IndexNode where
  nodePointer := 0
  prefixLength := node.prefixLength
  length := node.length
  pageNumber := node.pageNumber
  data := 0
  recordNumber := node.recordNumber
  isEndBucket := node.isEndBucket
  isEndLevel := node.isEndLevel

/-- The fields of a jump node as they are written. -/
def storedJump (jumpNode : Firebird.IndexJumpNode) : IndexJumpNode where
  nodePointer := 0
  prefixLength := jumpNode.prefixLength
  length := jumpNode.data.length
  offset := jumpNode.offset
  data := 0

end Btn

open Btn (stored storedJump)

/-- The bytes of a node. -/
def IndexNode.bytes (leafNode : Bool) (node : IndexNode) : List UInt8 :=
  (stored node).header leafNode ++ node.data

/-- The bytes of a jump node. -/
def IndexJumpNode.bytes (jumpNode : IndexJumpNode) : List UInt8 :=
  (storedJump jumpNode).header ++ jumpNode.data

/-- A node that a page of this kind can hold. -/
structure IndexNode.Storable (leafNode : Bool) (node : IndexNode) : Prop where
  range : (stored node).InRange
  plain : (stored node).PlainMarker
  leaf_page : leafNode = true → node.pageNumber = 0

/-- The bytes of the nodes of a bucket. -/
def nodesBytes (leafNode : Bool) (nodes : List IndexNode) : List UInt8 :=
  nodes.flatMap (IndexNode.bytes leafNode)

/-- The bytes of the jump nodes of a bucket. -/
def jumpBytes (jumpNodes : List IndexJumpNode) : List UInt8 := jumpNodes.flatMap IndexJumpNode.bytes

def BTR_SIZE : Nat := 39

def MAX_PAGE_SIZE : Nat := 32768

/-- `btree_page`, with the bytes of the page by their offset. -/
structure BtreePage where
  btr_level : Nat
  btr_length : Nat
  btr_prefix_total : Int
  btr_jump_size : Nat
  btr_jump_count : Nat
  bytes : Nat → UInt8

namespace BtreePage

variable (page : BtreePage)

def leafPage : Bool := page.btr_level = 0

/-- `btr_nodes + btr_jump_size`. -/
def firstNode : Nat := BTR_SIZE + page.btr_jump_size

/-- The node at a place, with the place behind it. -/
def readNode (pointer : Nat) : Btn.IndexNode × Nat :=
  Btn.IndexNode.blank.readNode page.bytes pointer page.leafPage

/-- Where a node of the bucket lies. -/
def placeOf (nodes : List IndexNode) (position : Nat) : Nat :=
  page.firstNode + (nodesBytes page.leafPage (nodes.take position)).length

/-- A jump node with the offset of its node. -/
def placed (nodes : List IndexNode) (jumpNode : IndexJumpNode) : IndexJumpNode :=
  { jumpNode with offset := page.placeOf nodes jumpNode.offset }

/-- The page holds these nodes and jump nodes. -/
structure Stores (nodes : List IndexNode) (jumpNodes : List IndexJumpNode) : Prop where
  nodes_lie : Lies page.bytes page.firstNode (nodesBytes page.leafPage nodes)
  length_eq : page.btr_length = page.firstNode + (nodesBytes page.leafPage nodes).length
  length_le : page.btr_length ≤ MAX_PAGE_SIZE
  jumps_lie : Lies page.bytes BTR_SIZE (jumpBytes (jumpNodes.map (page.placed nodes)))
  jumps_le : (jumpBytes (jumpNodes.map (page.placed nodes))).length ≤ page.btr_jump_size
  count_eq : page.btr_jump_count = jumpNodes.length
  count_lt : jumpNodes.length < 2 ^ 8
  prefix_total : page.btr_prefix_total = (nodes.map IndexNode.prefixLength).sum
  storable : ∀ node ∈ nodes, node.Storable page.leafPage
  key_lt : ∀ position < nodes.length, (keyAt nodes position).length < 2 ^ 14

end BtreePage

/-! ## Reading -/

theorem nodesBytes_append (leafNode : Bool) (front back : List IndexNode) :
    nodesBytes leafNode (front ++ back) = nodesBytes leafNode front ++ nodesBytes leafNode back :=
  List.flatMap_append

theorem nodesBytes_cons (leafNode : Bool) (node : IndexNode) (rest : List IndexNode) :
    nodesBytes leafNode (node :: rest) = node.bytes leafNode ++ nodesBytes leafNode rest := rfl

theorem IndexNode.bytes_pos (leafNode : Bool) (node : IndexNode) : 0 < (node.bytes leafNode).length := by
  rw [IndexNode.bytes, Btn.IndexNode.header, List.length_append, List.length_cons]
  omega

variable {memory : Nat → UInt8} {place : Nat} {leafNode : Bool}

/-- A node is read where its bytes lie. -/
theorem IndexNode.Storable.read {node : IndexNode} (storable : node.Storable leafNode)
    (lies : Lies memory place (node.bytes leafNode)) :
    ∃ data, Btn.IndexNode.blank.readNode memory place leafNode =
        ({ stored node with nodePointer := place, data := data },
          place + (node.bytes leafNode).length) ∧
      load memory data node.length = node.data ∧
      (node.length = 0 ∨ data + node.length = place + (node.bytes leafNode).length) := by
  obtain ⟨header_lies, data_lies⟩ := ByteMemory.lies_append.mp lies
  by_cases marker : node.isEndLevel = true
  · obtain ⟨prefix_eq, length_eq, record_eq, page_eq, bucket_eq⟩ := storable.plain marker
    have data_eq : node.data = [] := List.eq_nil_of_length_eq_zero length_eq
    have bytes_length : (node.bytes leafNode).length = 1 := by
      rw [IndexNode.bytes, Btn.IndexNode.header, data_eq, stored]
      dsimp only
      rw [if_pos marker]
      rfl
    refine ⟨0, ?_, ?_, .inl length_eq⟩
    · rw [Btn.IndexNode.readNode_marker marker (ByteMemory.load_cons_iff.mp header_lies).1,
        bytes_length]
      exact Prod.ext (Btn.IndexNode.mk.injEq .. |>.mpr ⟨rfl, prefix_eq.symm, length_eq.symm,
        page_eq.symm, rfl, record_eq.symm, bucket_eq.symm, marker.symm⟩) rfl
    · rw [IndexNode.length, data_eq]
      rfl
  · refine ⟨place + ((stored node).header leafNode).length, ?_, data_lies, .inr ?_⟩
    · rw [Btn.IndexNode.readNode_held storable.range (Bool.eq_false_iff.mpr marker) header_lies]
      refine Prod.ext (Btn.IndexNode.mk.injEq .. |>.mpr ⟨rfl, rfl, rfl, ?_, rfl, rfl, rfl, rfl⟩) ?_
      · cases leafNode with
        | true => exact (storable.leaf_page rfl).symm
        | false => rfl
      · rw [IndexNode.bytes, List.length_append, ← Nat.add_assoc]
        rfl
    · rw [IndexNode.bytes, List.length_append, ← Nat.add_assoc]
      rfl

/-- A jump node is read where its bytes lie. -/
theorem IndexJumpNode.read {jumpNode : IndexJumpNode} (range : (storedJump jumpNode).InRange)
    (lies : Lies memory place jumpNode.bytes) :
    (Btn.IndexJumpNode.readJumpNode memory place).1.content memory = jumpNode ∧
      (Btn.IndexJumpNode.readJumpNode memory place).2 = place + jumpNode.bytes.length := by
  obtain ⟨header_lies, data_lies⟩ := ByteMemory.lies_append.mp lies
  rw [Btn.IndexJumpNode.readJumpNode_held range header_lies]
  refine ⟨?_, ?_⟩
  · rw [Btn.IndexJumpNode.content]
    dsimp only
    have data_eq : load memory (place + (storedJump jumpNode).header.length) (storedJump jumpNode).length =
        jumpNode.data := data_lies
    rw [data_eq]
    rfl
  · rw [IndexJumpNode.bytes, List.length_append, Nat.add_assoc]
    rfl

/-- The size of a jump node. -/
theorem IndexJumpNode.size_eq {jumpNode : IndexJumpNode} (range : (storedJump jumpNode).InRange) :
    (storedJump jumpNode).getJumpNodeSize = jumpNode.bytes.length := by
  rw [Btn.IndexJumpNode.getJumpNodeSize_eq range, IndexJumpNode.bytes, List.length_append]
  rfl

theorem Btn.readNumber_le (memory : Nat → UInt8) (groups : List (Nat × Nat)) (number place : Nat) :
    place ≤ (Btn.readNumber memory groups number place).2 := by
  induction groups generalizing number place with
  | nil => exact Nat.le_refl _
  | cons group groups ih =>
      rw [Btn.readNumber]
      split
      · exact Nat.le_of_succ_le (ih _ _)
      · exact Nat.le_succ _

/-- Reading moves on. -/
theorem Btn.IndexNode.lt_readNode (node : Btn.IndexNode) (memory : Nat → UInt8) (place : Nat)
    (leafNode : Bool) : place < (node.readNode memory place leafNode).2 := by
  have record_le := fun number place => Btn.readNumber_le memory
    [(0x7F, 5), (0x7F, 12), (0x7F, 19), (0x7F, 26), (0x7F, 33)] number place
  have page_le := fun place => Btn.readNumber_le memory
    [(0x7F, 0), (0x7F, 7), (0x7F, 14), (0x7F, 21), (0x0F, 28)] 0 place
  have short_le := fun place => Btn.readNumber_le memory [(0x7F, 0), (0x7F, 7)] 0 place
  simp only [Btn.IndexNode.readNode, Btn.readRecordNumber, Btn.readPageNumber, Btn.readShort]
  have number_le := record_le ((memory place).toNat &&& 0x1F) (place + 1)
  generalize Btn.readNumber memory [(0x7F, 5), (0x7F, 12), (0x7F, 19), (0x7F, 26), (0x7F, 33)]
    ((memory place).toNat &&& 0x1F) (place + 1) = record at number_le ⊢
  split
  · exact Nat.lt_succ_self _
  · have behind_page : record.2 ≤ (if leafNode = true then (node.pageNumber, record.2)
        else Btn.readNumber memory [(0x7F, 0), (0x7F, 7), (0x7F, 14), (0x7F, 21), (0x0F, 28)] 0
          record.2).2 := by
      split
      · exact Nat.le_refl _
      · exact page_le _
    generalize (if leafNode = true then (node.pageNumber, record.2)
      else Btn.readNumber memory [(0x7F, 0), (0x7F, 7), (0x7F, 14), (0x7F, 21), (0x0F, 28)] 0
        record.2) = behind at behind_page ⊢
    dsimp only
    split_ifs
    all_goals
      have first := short_le behind.2
      have second := short_le (Btn.readNumber memory [(0x7F, 0), (0x7F, 7)] 0 behind.2).2
      omega

end Firebird
