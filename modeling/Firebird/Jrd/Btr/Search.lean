import Firebird.Common.Fault
import Firebird.Jrd.Btr.Node

/-!
# Searching a bucket

`find_area_start_point` goes through the jump nodes, `find_node_start_point` and `find_page` then read
nodes from the place it returns.  Nodes and the places of pointers are counted from the first node.
-/

namespace Firebird

/-- How the comparison of a key with a node ends. -/
inductive Outcome where
  /-- Both ends are reached. -/
  | exact
  /-- The node is not before the key. -/
  | stop
  /-- The node is before the key, and `p` has come to this place. -/
  | next (moved : Nat)
  deriving DecidableEq, Repr

/-- The comparison started further on in the key. -/
def Outcome.shift (start : Nat) : Outcome → Outcome
  | next moved => next (start + moved)
  | outcome => outcome

/-- The comparison loops of the three functions. -/
def compareNode (descending retrieval : Bool) : List UInt8 → List UInt8 → Outcome
  | [], [] => .exact
  | [], _ :: _ => if descending = true ∧ retrieval = false then .next 0 else .stop
  | _ :: _, [] => if descending then .stop else .next 0
  | p :: key, q :: data =>
      if q < p then
        .next 0
      else if p < q then
        .stop
      else
        (compareNode descending retrieval key data).shift 1

/-- `memcpy` into a key buffer. -/
def memcpy (buffer : List UInt8) (offset : Nat) (data : List UInt8) : List UInt8 :=
  buffer.take offset ++ List.replicate (offset - buffer.length) 0 ++ data ++
    buffer.drop (offset + data.length)

/-- The local variables of `find_area_start_point`. -/
structure Area where
  /-- `prevJumpNode.offset`. -/
  start : Nat
  /-- `prefix`. -/
  returnPrefix : Nat
  testPrefix : Nat
  /-- `jumpKey`. -/
  jumpKey : List UInt8
  value : Option (List UInt8)
  deriving DecidableEq, Repr

/-- What a search is for. -/
structure SearchKey where
  key_data : List UInt8
  key_nulls : Nat
  deriving DecidableEq, Repr

/-- What the loops do about one node: a marker of the level or a shorter prefix ends the search, a
longer prefix is skipped, and so are duplicates in an ascending index. -/
def nodeOutcome (descending retrieval : Bool) (key : List UInt8) (node : IndexNode)
    (keyPrefix : Nat) (firstPass : Bool) : Outcome :=
  if node.isEndLevel = true ∨ node.prefixLength < keyPrefix then
    .stop
  else if node.prefixLength = keyPrefix ∧
      (descending = true ∨ 0 < node.length ∨ firstPass = true) then
    (compareNode descending retrieval (key.drop keyPrefix) node.data).shift keyPrefix
  else
    .next keyPrefix

/-- `firstPass` behind the node. -/
def passed (descending : Bool) (node : IndexNode) (keyPrefix : Nat) (firstPass : Bool) : Bool :=
  firstPass && (descending || node.prefixLength != keyPrefix)

/-- The loop of `find_node_start_point`: the node and `return_value`, and the contents of `value`. -/
def findNode (descending retrieval : Bool) (key : List UInt8) (pointer_by_marker : Bool)
    (pointer keyPrefix : Nat) (firstPass : Bool) (value : Option (List UInt8)) :
    List IndexNode → Except Fault (Option (Nat × Nat) × Option (List UInt8))
  | [] => .error (.bugcheck 204)
  | node :: rest =>
      let value :=
        if node.data = [] then value else value.map (memcpy · node.prefixLength node.data)
      match nodeOutcome descending retrieval key node keyPrefix firstPass with
      | .exact => .ok (some (pointer, keyPrefix), value)
      | .stop => .ok (some (pointer, keyPrefix), value)
      | .next newPrefix =>
          if node.isEndBucket then
            if pointer_by_marker = true ∧ newPrefix = key.length ∧
                newPrefix = node.prefixLength + node.length then
              .ok (some (pointer, newPrefix), value)
            else
              .ok (none, value)
          else
            findNode descending retrieval key pointer_by_marker (pointer + 1) newPrefix
              (passed descending node keyPrefix firstPass) value rest

/-- `IndexNode::findPageInDuplicates`. -/
def findPageInDuplicates (findRecordNumber previousNumber : Nat) :
    List IndexNode → Except Fault Nat
  | [] => .error .outOfBounds
  | node :: rest =>
      if node.isEndBucket then
        .ok previousNumber
      else if findRecordNumber ≤ node.recordNumber then
        .ok previousNumber
      else
        match rest with
        | [] => .error .outOfBounds
        | next :: more =>
            if next.isEndLevel = true ∨ next.data ≠ [] ∨
                next.prefixLength ≠ node.length + node.prefixLength then
              .ok node.pageNumber
            else
              findPageInDuplicates findRecordNumber node.pageNumber (next :: more)

/-- What `find_page` returns for an exact match. -/
def exactPage (find_record_number : Option Nat) (previousNumber : Nat) (nodes : List IndexNode) :
    Except Fault Nat :=
  match find_record_number with
  | some find_record_number => findPageInDuplicates find_record_number previousNumber nodes
  | none => .ok previousNumber

/-- The loop of `find_page`. -/
def findPageNode (descending retrieval : Bool) (key : List UInt8)
    (find_record_number : Option Nat) (previousNumber keyPrefix : Nat) (firstPass : Bool) :
    List IndexNode → Except Fault Nat
  | [] => .error (.bugcheck 204)
  | node :: rest =>
      match nodeOutcome descending retrieval key node keyPrefix firstPass with
      | .exact => exactPage find_record_number previousNumber (node :: rest)
      | .stop => .ok previousNumber
      | .next newPrefix =>
          if node.isEndBucket then
            .ok node.pageNumber
          else
            findPageNode descending retrieval key find_record_number node.pageNumber newPrefix
              (passed descending node keyPrefix firstPass) rest

/-- The parts of an `index_desc` that `find_page` looks at. -/
structure IndexFlags where
  idx_count : Nat
  /-- `idx_unique`. -/
  unique : Bool
  /-- `idx_primary`. -/
  primary : Bool
  deriving DecidableEq, Repr

/-- The record number that `find_page` searches for: none if duplicates are validated. -/
def IndexFlags.searchNumber (index : IndexFlags) (key : SearchKey)
    (find_record_number : Option Nat) : Option Nat :=
  let key_all_nulls := key.key_nulls = 2 ^ index.idx_count - 1
  let validateDuplicates := index.unique = true ∧ ¬ key_all_nulls ∨ index.primary = true
  if validateDuplicates then none else find_record_number

namespace Bucket

variable {descending : Bool} (bucket : Bucket descending) (retrieval : Bool)

/-- The walk over jump nodes whose nodes have the key that is searched. -/
def walkDuplicates (find_record_number keyLength : Nat) (jumpNode : IndexJumpNode)
    (node : IndexNode) (area : Area) : List IndexJumpNode → Except Fault Area
  | [] => .ok area
  | next :: rest =>
      if find_record_number ≤ node.recordNumber then
        .ok area
      else
        let reached := jumpNode.prefixLength + jumpNode.data.length
        let area := { area with start := jumpNode.offset, returnPrefix := reached }
        match bucket.nodes[next.offset]? with
        | none => .error .outOfBounds
        | some nextNode =>
            if nextNode.data ≠ [] ∨ nextNode.prefixLength ≠ reached ∨
                descending = true ∧ nextNode.prefixLength < keyLength ∨
                next.prefixLength ≠ reached ∨ nextNode.isEndBucket = true ∨
                nextNode.isEndLevel = true then
              .ok area
            else
              walkDuplicates find_record_number keyLength next nextNode area rest

/-- What `find_area_start_point` does about an exact match. -/
def exactArea (find_record_number : Option Nat) (keyLength : Nat) (jumpNode : IndexJumpNode)
    (node : IndexNode) (area : Area) (rest : List IndexJumpNode) : Except Fault Area :=
  match find_record_number with
  | some find_record_number =>
      bucket.walkDuplicates find_record_number keyLength jumpNode node area rest
  | none => .ok area

/-- The loop of `find_area_start_point`. -/
def findArea (key : List UInt8) (find_record_number : Option Nat) (area : Area) :
    List IndexJumpNode → Except Fault Area
  | [] => .ok area
  | jumpNode :: rest =>
      match bucket.nodes[jumpNode.offset]? with
      | none => .error .outOfBounds
      | some node =>
          let jumpKey := memcpy (memcpy area.jumpKey jumpNode.prefixLength jumpNode.data)
            node.prefixLength node.data
          let keyLength := node.prefixLength + node.length
          let outcome :=
            if jumpNode.prefixLength ≤ area.testPrefix then
              (compareNode descending retrieval (key.drop jumpNode.prefixLength)
                ((jumpKey.take keyLength).drop jumpNode.prefixLength)).shift jumpNode.prefixLength
            else
              .next area.testPrefix
          match outcome with
          | .exact => bucket.exactArea find_record_number keyLength jumpNode node area rest
          | .stop => .ok area
          | .next testPrefix =>
              let reached := jumpNode.prefixLength + jumpNode.data.length
              findArea key find_record_number
                { start := jumpNode.offset
                  returnPrefix := min reached testPrefix
                  testPrefix := testPrefix
                  jumpKey := jumpKey
                  value :=
                    if reached = 0 then
                      area.value
                    else
                      area.value.map (memcpy · 0 (jumpKey.take reached)) }
                rest

/-- `find_area_start_point`. -/
def findAreaStartPoint (key : List UInt8) (value : Option (List UInt8))
    (find_record_number : Option Nat) : Except Fault Area :=
  bucket.findArea retrieval key find_record_number ⟨0, 0, 0, [], value⟩ bucket.jumpNodes

/-- `find_node_start_point`. -/
def findNodeStartPoint (key : SearchKey) (value : Option (List UInt8)) (pointer_by_marker : Bool)
    (find_record_number : Option Nat) :
    Except Fault (Option (Nat × Nat) × Option (List UInt8)) := do
  let area ← bucket.findAreaStartPoint retrieval key.key_data value find_record_number
  let nodes := bucket.nodes.drop area.start
  if bucket.btr_level ≠ 0 ∧ descending = true ∧ area.start = 0 ∧
      nodes.head?.map IndexNode.length = some 0 then
    findNode descending retrieval key.key_data pointer_by_marker (area.start + 1)
      area.returnPrefix true area.value nodes.tail
  else
    findNode descending retrieval key.key_data pointer_by_marker area.start
      area.returnPrefix true area.value nodes

/-- `find_page`, behind the test for markers. -/
def findPageFrom (key : List UInt8) (find_record_number : Option Nat) (start returnPrefix : Nat) :
    Except Fault Nat :=
  match bucket.nodes.drop start with
  | [] => .error (.bugcheck 204)
  | node :: rest =>
      if node.isEndLevel then
        .error (.bugcheck 206)
      else
        let keyPrefix := if start = 0 then 0 else returnPrefix
        if start = 0 ∧ node.prefixLength = 0 ∧ node.length = 0 then
          findPageNode descending retrieval key find_record_number node.pageNumber keyPrefix true rest
        else
          findPageNode descending retrieval key find_record_number node.pageNumber keyPrefix true
            (node :: rest)

/-- `find_page`. -/
def findPage (index : IndexFlags) (key : SearchKey) (find_record_number : Option Nat) :
    Except Fault Nat := do
  let find_record_number := index.searchNumber key find_record_number
  let area ← bucket.findAreaStartPoint retrieval key.key_data none find_record_number
  match bucket.nodes.drop area.start with
  | [] => .error (.bugcheck 204)
  | node :: _ =>
      let start := if node.isEndBucket = true ∨ node.isEndLevel = true then 0 else area.start
      bucket.findPageFrom retrieval key.key_data find_record_number start area.returnPrefix

end Bucket

end Firebird
