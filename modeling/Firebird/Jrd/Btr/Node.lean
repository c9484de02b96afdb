import Mathlib.Data.List.Basic
import Firebird.Common.Byte

/-!
# Index nodes

A bucket is a sequence of nodes.  A node stores how many bytes its key shares with the key before it
and the rest of the key.  Jump nodes name nodes inside the bucket and hold the shared bytes, themselves
compressed against the jump node before.
-/

namespace Firebird

/-- `IndexNode`. -/
structure IndexNode where
  /-- `prefix`. -/
  prefixLength : Nat
  /-- `data`, its length is `length`. -/
  data : List UInt8
  recordNumber : Nat
  pageNumber : Nat
  isEndBucket : Bool
  isEndLevel : Bool
  deriving DecidableEq, Repr

/-- `IndexJumpNode`. -/
structure IndexJumpNode where
  /-- `prefix`. -/
  prefixLength : Nat
  /-- `data`, its length is `length`. -/
  data : List UInt8
  /-- The node that `offset` refers to, counted from the first one. -/
  offset : Nat
  deriving DecidableEq, Repr

/-- `computePrefix`. -/
def computePrefix : List UInt8 → List UInt8 → Nat
  | first :: prevString, second :: string =>
      if first = second then computePrefix prevString string + 1 else 0
  | _, _ => 0

namespace IndexNode

/-- `length`. -/
def length (node : IndexNode) : Nat := node.data.length

/-- The key of the node, when the node before it has the key `previous`. -/
def key (node : IndexNode) (previous : List UInt8) : List UInt8 :=
  previous.take node.prefixLength ++ node.data

end IndexNode

/-- The key of the node at a position. -/
def keyAt (nodes : List IndexNode) (position : Nat) : List UInt8 :=
  (nodes.take (position + 1)).foldl (fun previous node => node.key previous) []

/-- The order of the keys in an index: in a descending index a key comes after its extensions. -/
def KeyLe (descending : Bool) : List UInt8 → List UInt8 → Prop
  | [], [] => True
  | [], _ :: _ => descending = false
  | _ :: _, [] => descending = true
  | first :: left, second :: right =>
      first < second ∨ first = second ∧ KeyLe descending left right

instance KeyLe.decidable (descending : Bool) : ∀ left right, Decidable (KeyLe descending left right)
  | [], [] => isTrue trivial
  | [], _ :: _ => inferInstanceAs (Decidable (descending = false))
  | _ :: _, [] => inferInstanceAs (Decidable (descending = true))
  | first :: left, second :: right =>
      have := KeyLe.decidable descending left right
      inferInstanceAs (Decidable (first < second ∨ first = second ∧ KeyLe descending left right))

/-- The node comes in order after the key `previous` and is fully compressed against it.  At the
start of a bucket it is not compressed. -/
def Follows (descending : Bool) : Option (List UInt8) → IndexNode → Prop
  | none, node => node.prefixLength = 0
  | some previous, node =>
      node.prefixLength = computePrefix previous (node.key previous) ∧
        KeyLe descending previous (node.key previous)

instance Follows.decidable (descending : Bool) :
    ∀ previous node, Decidable (Follows descending previous node)
  | none, node => inferInstanceAs (Decidable (node.prefixLength = 0))
  | some previous, node =>
      inferInstanceAs (Decidable (node.prefixLength = computePrefix previous (node.key previous) ∧
        KeyLe descending previous (node.key previous)))

/-- The nodes are in order and end with their only marker. -/
def Chained (descending : Bool) : Option (List UInt8) → List IndexNode → Prop
  | _, [] => False
  | previous, node :: rest =>
      if node.isEndLevel = true then
        node.prefixLength = 0 ∧ node.data = [] ∧ rest = []
      else
        Follows descending previous node ∧
          if node.isEndBucket = true then
            rest = []
          else
            Chained descending (some (node.key (previous.getD []))) rest

instance Chained.decidable (descending : Bool) :
    ∀ previous nodes, Decidable (Chained descending previous nodes)
  | _, [] => isFalse id
  | previous, node :: rest =>
      have := Chained.decidable descending (some (node.key (previous.getD []))) rest
      inferInstanceAs (Decidable (if node.isEndLevel = true then
          node.prefixLength = 0 ∧ node.data = [] ∧ rest = []
        else
          Follows descending previous node ∧
            if node.isEndBucket = true then
              rest = []
            else
              Chained descending (some (node.key (previous.getD []))) rest))

/-- Jump nodes name nodes that are no markers, from left to right, and reproduce their shared bytes.
`reach` is what the jump node before reproduces. -/
def Jumps (nodes : List IndexNode) : Nat → List UInt8 → List IndexJumpNode → Prop
  | _, _, [] => True
  | start, reach, jumpNode :: rest =>
      match nodes[jumpNode.offset]? with
      | none => False
      | some node =>
          start ≤ jumpNode.offset ∧ node.isEndBucket = false ∧ node.isEndLevel = false ∧
          jumpNode.prefixLength ≤ reach.length ∧
          jumpNode.prefixLength + jumpNode.data.length = node.prefixLength ∧
          reach.take jumpNode.prefixLength ++ jumpNode.data =
            (keyAt nodes jumpNode.offset).take node.prefixLength ∧
          Jumps nodes (jumpNode.offset + 1) (reach.take jumpNode.prefixLength ++ jumpNode.data) rest

instance Jumps.decidable (nodes : List IndexNode) :
    ∀ start reach jumpNodes, Decidable (Jumps nodes start reach jumpNodes)
  | _, _, [] => isTrue trivial
  | start, reach, jumpNode :: rest =>
      have := Jumps.decidable nodes (jumpNode.offset + 1)
        (reach.take jumpNode.prefixLength ++ jumpNode.data) rest
      match there : nodes[jumpNode.offset]? with
      | none => isFalse (by rw [Jumps, there]; exact id)
      | some node => decidable_of_iff
          (start ≤ jumpNode.offset ∧ node.isEndBucket = false ∧ node.isEndLevel = false ∧
            jumpNode.prefixLength ≤ reach.length ∧
            jumpNode.prefixLength + jumpNode.data.length = node.prefixLength ∧
            reach.take jumpNode.prefixLength ++ jumpNode.data =
              (keyAt nodes jumpNode.offset).take node.prefixLength ∧
            Jumps nodes (jumpNode.offset + 1)
              (reach.take jumpNode.prefixLength ++ jumpNode.data) rest)
          (by rw [Jumps, there])

/-- The empty first node on the first page of a level. -/
def IndexNode.Degenerate (node : IndexNode) : Prop :=
  node.prefixLength = 0 ∧ node.data = [] ∧ node.isEndBucket = false ∧ node.isEndLevel = false

/-- A bucket of an ascending or a descending index. -/
structure Bucket (descending : Bool) where
  btr_level : Nat
  jumpNodes : List IndexJumpNode
  nodes : List IndexNode
  /-- A level starts with a degenerate node, which has no place in a descending order. -/
  chained : Chained descending none nodes ∨
    btr_level ≠ 0 ∧ ∃ first rest, nodes = first :: rest ∧ first.Degenerate ∧
      Chained descending none rest
  jumps : Jumps nodes 0 [] jumpNodes

/-- The same nodes without a jump-node area. -/
def Bucket.withoutJumps {descending : Bool} (bucket : Bucket descending) : Bucket descending where
  btr_level := bucket.btr_level
  jumpNodes := []
  nodes := bucket.nodes
  chained := bucket.chained
  jumps := trivial

end Firebird
