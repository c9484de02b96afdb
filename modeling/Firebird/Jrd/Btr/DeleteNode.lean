import Firebird.Jrd.Btr.BucketPage

/-!
# Deleting a node

`delete_node` takes a node from a bucket.  The node behind it gets back the bytes that it shared with the
removed one, everything behind moves down, and the jump nodes are rebuilt.
-/

namespace Firebird

open ByteMemory (load store copy)

/-- `contents`. -/
inductive Contents where
  | contents_empty
  | contents_single
  | contents_below_threshold
  | contents_above_threshold
  deriving DecidableEq, Repr

namespace BtreePage

/-- The place of `tempBuf`, behind every page. -/
def tempBuf : Nat := 2 ^ 16

variable (page : BtreePage)

/-- The page without the entry, the offset behind the removed node, and by how much the bucket became
shorter. -/
def deleteEntry (pointer : Nat) : BtreePage × Nat × Nat :=
  let (removingNode, offsetNextPoint) := page.readNode pointer
  let (nextNode, localPointer) := page.readNode offsetNextPoint
  let length :=
    if removingNode.prefixLength < nextNode.prefixLength then
      nextNode.prefixLength - removingNode.prefixLength
    else 0
  let newNextPrefix := nextNode.prefixLength - length
  let newNextLength := length + nextNode.length
  let memory := copy page.bytes removingNode.data page.bytes tempBuf length
  let memory := copy memory nextNode.data memory (tempBuf + length) nextNode.length
  let btr_prefix_total :=
    page.btr_prefix_total - (removingNode.prefixLength + (nextNode.prefixLength - newNextPrefix))
  let nextNode :=
    { nextNode with prefixLength := newNextPrefix, length := newNextLength, data := tempBuf }
  let (_, memory, pointer) := nextNode.writeNode memory pointer page.leafPage true
  let length := page.btr_length - localPointer
  let memory := copy memory localPointer memory pointer length
  let pointer := pointer + length
  ({ page with btr_prefix_total := btr_prefix_total, btr_length := pointer, bytes := memory },
    offsetNextPoint, page.btr_length - pointer)

/-- What the loop over the jump nodes keeps; `jumpPrev` is the last one of the new jump nodes. -/
structure JumpRebuild where
  jumpNodes : List IndexJumpNode
  rebuild : Bool
  delJumpNode : IndexJumpNode
  /-- `key_data`. -/
  jumpKey : Nat → UInt8
  jumpersNewSize : Nat

/-- The loop that fills absent bytes of the jump key from the nodes before the jump node. -/
def fillKey (newPrefix endPtr prevPtr : Nat) (jumpKey : Nat → UInt8) : Nat → UInt8 :=
  if prevPtr < endPtr then
    let prevNode := (page.readNode prevPtr).1
    let jumpKey :=
      if prevNode.prefixLength < newPrefix ∧ prevNode.length ≠ 0 then
        copy page.bytes prevNode.data jumpKey prevNode.prefixLength
          (min (newPrefix - prevNode.prefixLength) prevNode.length)
      else jumpKey
    fillKey newPrefix endPtr (page.readNode prevPtr).2 jumpKey
  else jumpKey
termination_by endPtr - prevPtr
decreasing_by
  have moves : prevPtr < (page.readNode prevPtr).2 := Btn.IndexNode.lt_readNode _ _ _ _
  omega

/-- A jump node with its new offset, with the bytes that it shared with a removed one. -/
def expandJump (offsetDeletePoint offsetNextPoint delta : Nat) (state : JumpRebuild)
    (jumpNode : IndexJumpNode) : IndexJumpNode × (Nat → UInt8) :=
  let offset :=
    if jumpNode.offset = offsetNextPoint then offsetDeletePoint
    else if offsetDeletePoint < jumpNode.offset then jumpNode.offset - delta
    else jumpNode.offset
  if state.rebuild ∧ state.delJumpNode.prefixLength < jumpNode.prefixLength then
    let addLength := jumpNode.prefixLength - state.delJumpNode.prefixLength
    let newJumpNode : IndexJumpNode :=
      { prefixLength := jumpNode.prefixLength - addLength
        data := state.delJumpNode.data.take addLength ++ jumpNode.data
        offset := offset }
    (newJumpNode, store state.jumpKey newJumpNode.prefixLength newJumpNode.data)
  else ({ jumpNode with offset := offset }, state.jumpKey)

/-- A jump node no longer than the prefix of its node. -/
def clipJump (newPrefix : Nat) (newJumpNode : IndexJumpNode) : IndexJumpNode :=
  if newPrefix < newJumpNode.prefixLength + newJumpNode.data.length then
    if newPrefix < newJumpNode.prefixLength then
      { newJumpNode with prefixLength := newPrefix, data := [] }
    else { newJumpNode with data := newJumpNode.data.take (newPrefix - newJumpNode.prefixLength) }
  else newJumpNode

/-- The two conditions on a jump node: it reaches the prefix of its node, and it begins inside of what
the one before reaches. -/
def settleJump (newPrefix : Nat) (jumpPrev : Option IndexJumpNode) (newJumpNode : IndexJumpNode)
    (jumpKey : Nat → UInt8) : IndexJumpNode × (Nat → UInt8) :=
  let newJumpNode := clipJump newPrefix newJumpNode
  let reached := jumpPrev.map fun jumpPrev => jumpPrev.prefixLength + jumpPrev.data.length
  let newJumpNode :=
    if newJumpNode.prefixLength + newJumpNode.data.length < newPrefix ∧
        reached.any fun reached => newPrefix ≤ reached then
      { newJumpNode with prefixLength := newPrefix, data := [] }
    else newJumpNode
  if newJumpNode.prefixLength + newJumpNode.data.length ≠ newPrefix ∨
      reached.any fun reached => reached < newJumpNode.prefixLength then
    let prefixLength := reached.getD 0
    let prevPtr := (jumpPrev.map IndexJumpNode.offset).getD page.firstNode
    let jumpKey := page.fillKey newPrefix newJumpNode.offset prevPtr jumpKey
    ({ newJumpNode with
        prefixLength := prefixLength
        data := load jumpKey prefixLength (newPrefix - prefixLength) }, jumpKey)
  else (newJumpNode, jumpKey)

/-- The loop over the jump nodes, from the table on the page. -/
def rebuildJumps (offsetDeletePoint offsetNextPoint delta : Nat) :
    Nat → Nat → JumpRebuild → JumpRebuild
  | 0, _, state => state
  | n + 1, pointer, state =>
      let (read, pointer) := Btn.IndexJumpNode.readJumpNode page.bytes pointer
      let jumpNode := read.content page.bytes
      if jumpNode.offset < offsetDeletePoint ∨ offsetNextPoint ≤ jumpNode.offset then
        let (newJumpNode, jumpKey) :=
          expandJump offsetDeletePoint offsetNextPoint delta state jumpNode
        if newJumpNode.offset = page.firstNode then
          -- There is no sense in a jump node that points to the first node.
          rebuildJumps offsetDeletePoint offsetNextPoint delta n pointer
            { state with
              delJumpNode := jumpNode
              rebuild := true
              jumpKey := store jumpKey jumpNode.prefixLength jumpNode.data }
        else
          let newPrefix := (page.readNode newJumpNode.offset).1.prefixLength
          let (newJumpNode, jumpKey) :=
            page.settleJump newPrefix state.jumpNodes.getLast? newJumpNode jumpKey
          let jumpersNewSize :=
            (state.jumpersNewSize + (Btn.storedJump newJumpNode).getJumpNodeSize) % 2 ^ 16
          if page.btr_jump_size < jumpersNewSize then state
          else
            rebuildJumps offsetDeletePoint offsetNextPoint delta n pointer
              { jumpNodes := state.jumpNodes ++ [newJumpNode]
                rebuild := false
                delJumpNode := state.delJumpNode
                jumpKey := store jumpKey newJumpNode.prefixLength newJumpNode.data
                jumpersNewSize := jumpersNewSize }
      else
        rebuildJumps offsetDeletePoint offsetNextPoint delta n pointer
          { state with delJumpNode := jumpNode, rebuild := true }

/-- The loop that writes the jump nodes. -/
def writeJumpNodes : List IndexJumpNode → Nat → (Nat → UInt8) → Nat → UInt8
  | [], _, memory => memory
  | jumpNode :: rest, pointer, memory =>
      writeJumpNodes rest (pointer + jumpNode.bytes.length) (store memory pointer jumpNode.bytes)

/-- What is left on the page. -/
def contentsOf (dbb_page_size : Nat) : Contents :=
  let (node, pointer) := page.readNode page.firstNode
  if node.isEndBucket || node.isEndLevel then .contents_empty
  else
    let node := (page.readNode pointer).1
    if node.isEndBucket || node.isEndLevel then .contents_single
    else if page.btr_length < dbb_page_size / 4 then .contents_below_threshold
    else .contents_above_threshold

/-- `delete_node`. -/
def delete_node (dbb_page_size pointer : Nat) : BtreePage × Contents :=
  let (removed, offsetNextPoint, delta) := page.deleteEntry pointer
  let state :=
    removed.rebuildJumps pointer offsetNextPoint delta page.btr_jump_count BTR_SIZE
      { jumpNodes := [], rebuild := false, delJumpNode := ⟨0, [], 0⟩, jumpKey := fun _ => 0,
        jumpersNewSize := 0 }
  let page :=
    { removed with
      btr_jump_count := state.jumpNodes.length % 2 ^ 8
      bytes := writeJumpNodes state.jumpNodes BTR_SIZE removed.bytes }
  (page, page.contentsOf dbb_page_size)

end BtreePage
end Firebird
