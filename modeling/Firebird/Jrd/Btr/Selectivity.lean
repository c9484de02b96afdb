import Firebird.Jrd.Btr.NodeFormat

/-!
# Counting distinct keys

`BTR_selectivity` walks the leaf pages of an index and counts how many entries are duplicates of the
entry before, in all segments or in the first ones.  `fast_load` counts them while it builds the index
from sorted keys.
-/

namespace Firebird
namespace Selectivity

/-- `STUFF_COUNT`. -/
def STUFF_COUNT : Nat := 4

/-- The loop that looks for duplicates in the segments; it ends with `count` and what is left of the
two keys.  Behind the number of a segment there is always a byte. -/
def scanSegments : Nat → Nat → List UInt8 → List UInt8 → Nat × List UInt8 × List UInt8
  | count, stuff_count, byte1 :: p1, byte2 :: p2 =>
      if byte1 ≠ byte2 then (count, byte1 :: p1, byte2 :: p2)
      else if stuff_count = 0 then scanSegments byte2.toNat STUFF_COUNT p1 p2
      else scanSegments count (stuff_count - 1) p1 p2
  | count, _, p1, p2 => (count, p1, p2)

/-- `*p2` at the start of the data; `behind` is the byte behind them. -/
def firstByte (data : List UInt8) (behind : UInt8) : Nat := (data.headD behind).toNat

/-- The number of the segment up to which the entry differs from the key before: those with a greater
number are duplicates. -/
def segmentCount (descending : Bool) (key : List UInt8) (prefixLength : Nat) (data : List UInt8)
    (behind : UInt8) : Nat :=
  let i := prefixLength / (STUFF_COUNT + 1) * (STUFF_COUNT + 1)
  let (count, p1, p2) :=
    if prefixLength = 0 then scanSegments (firstByte data behind) 0 key data
    else
      scanSegments (if i = prefixLength then firstByte data behind else (key.getD i 0).toNat)
        (STUFF_COUNT + 1 - (prefixLength - i)) (key.drop prefixLength) data
  let count := if descending then 255 - count else count
  if p1 = [] ∧ p2 = [] then 0 else count

/-- The counters, and the key before. -/
structure Tally where
  nodes : Nat
  duplicates : Nat
  duplicatesList : Nat → Nat
  key : List UInt8

/-- The counters before the first entry. -/
def Tally.start : Tally := ⟨0, 0, fun _ => 0, []⟩

/-- The loop from `count + 1` to `segments` over `duplicatesList[segments - i]`. -/
def addDuplicates (segments count : Nat) (duplicatesList : Nat → Nat) : Nat → Nat :=
  fun index => if index + count < segments then duplicatesList index + 1 else duplicatesList index

section Selectivity

variable (descending : Bool) (segments : Nat)

/-- The first byte of a node on the page. -/
def flagsByte (node : IndexNode) : UInt8 :=
  Btn.IndexNode.flagsByte
    { nodePointer := 0
      prefixLength := node.prefixLength
      length := node.length
      pageNumber := node.pageNumber
      data := 0
      recordNumber := node.recordNumber
      isEndBucket := node.isEndBucket
      isEndLevel := node.isEndLevel }

/-- `keyEqual`, for the key with its length. -/
def keyEqual (node : IndexNode) (key : List UInt8) : Bool :=
  key.length = node.length + node.prefixLength &&
    (node.length = 0 || node.data = (key.drop node.prefixLength).take node.length)

/-- `BTR_selectivity` at one node; `first` says that it is the first one of the page. -/
def Tally.visit (first : Bool) (node : IndexNode) (behind : UInt8) (tally : Tally) : Tally :=
  let firstNode := tally.nodes = 0
  let l := node.length + node.prefixLength
  let dup :=
    if first then keyEqual node tally.key else node.length = 0 && l = tally.key.length
  { nodes := tally.nodes + 1
    duplicates := if dup ∧ ¬ firstNode then tally.duplicates + 1 else tally.duplicates
    duplicatesList :=
      if 1 < segments ∧ ¬ firstNode then
        addDuplicates segments
          (segmentCount descending tally.key node.prefixLength node.data behind)
          tally.duplicatesList
      else tally.duplicatesList
    key := node.key tally.key }

/-- The loop over the nodes of a page. -/
def visitPage : Bool → List IndexNode → Tally → Tally
  | _, [], tally => tally
  | first, node :: rest, tally =>
      if node.isEndBucket || node.isEndLevel then tally
      else
        visitPage false rest
          (tally.visit descending segments first node ((rest.head?.map flagsByte).getD 0))

/-- The counters of `BTR_selectivity`: the loop over the leaf pages, in the order of the siblings. -/
def BTR_selectivity : List (List IndexNode) → Tally → Tally
  | [], tally => tally
  | page :: pages, tally =>
      let tally := visitPage descending segments true page tally
      if page.any IndexNode.isEndLevel then tally else BTR_selectivity pages tally

/-- The byte of a sort record behind the key: padding up to the length of the keys, and then the rest
of the record. -/
def sortBehind (key_length : Nat) (isr : UInt8) (record : List UInt8) : UInt8 :=
  if record.length < key_length then if descending then 255 else 0 else isr

/-- `fast_load` at one record. -/
def Tally.load (key_length : Nat) (isr : UInt8) (record : List UInt8) (tally : Tally) : Tally :=
  let count := tally.nodes + 1
  let prefixLength := computePrefix tally.key record
  let data := record.drop prefixLength
  let duplicate := data.length = 0 ∧ prefixLength = tally.key.length
  { nodes := count
    duplicates := if duplicate ∧ 1 < count then tally.duplicates + 1 else tally.duplicates
    duplicatesList :=
      if 1 < segments ∧ 1 < count then
        addDuplicates segments
          (segmentCount descending tally.key prefixLength data
            (sortBehind descending key_length isr record))
          tally.duplicatesList
      else tally.duplicatesList
    key := record }

/-- The counters of `fast_load`, for sort records with these keys. -/
def fast_load (key_length : Nat) (isr : UInt8) : List (List UInt8) → Tally → Tally
  | [], tally => tally
  | record :: records, tally =>
      fast_load key_length isr records (tally.load descending segments key_length isr record)

end Selectivity

/-- The keys of the entries on a page, behind a key. -/
def pageKeys : List UInt8 → List IndexNode → List (List UInt8)
  | _, [] => []
  | previous, node :: rest =>
      if node.isEndBucket || node.isEndLevel then []
      else node.key previous :: pageKeys (node.key previous) rest

/-- The keys of an index in order. -/
def keysOf (pages : List (List IndexNode)) : List (List UInt8) := pages.flatMap (pageKeys [])

/-- The entries of a page; the first one is marked. -/
def pageEntries (page : List IndexNode) : List (List UInt8 × Bool) :=
  match pageKeys [] page with
  | [] => []
  | key :: keys => (key, true) :: keys.map fun key => (key, false)

/-- The number of a segment; descending indexes have complements. -/
def shown (descending : Bool) (number : Nat) : Nat := if descending then 255 - number else number

/-- The numbers of the segments in a key: in front of each group of bytes stands a number, and they do
not become greater. -/
structure Marked (descending : Bool) (segments : Nat) (key : List UInt8) : Prop where
  grouped : key.length % (STUFF_COUNT + 1) ≠ 1
  bounded : ∀ group, 5 * group < key.length →
    1 ≤ shown descending (key.getD (5 * group) 0).toNat ∧
      shown descending (key.getD (5 * group) 0).toNat ≤ segments
  descends : ∀ group, 5 * group + 5 < key.length →
    shown descending (key.getD (5 * group + 5) 0).toNat ≤
      shown descending (key.getD (5 * group) 0).toNat

instance Marked.decidable (descending : Bool) (segments : Nat) (key : List UInt8) :
    Decidable (Marked descending segments key) :=
  decidable_of_iff
    (key.length % (STUFF_COUNT + 1) ≠ 1 ∧
      (∀ group < key.length, 5 * group < key.length →
        1 ≤ shown descending (key.getD (5 * group) 0).toNat ∧
          shown descending (key.getD (5 * group) 0).toNat ≤ segments) ∧
      ∀ group < key.length, 5 * group + 5 < key.length →
        shown descending (key.getD (5 * group + 5) 0).toNat ≤
          shown descending (key.getD (5 * group) 0).toNat)
    ⟨fun ⟨grouped, bounded, descends⟩ =>
        ⟨grouped, fun group inside => bounded group (by omega) inside,
          fun group inside => descends group (by omega) inside⟩,
      fun ⟨grouped, bounded, descends⟩ =>
        ⟨grouped, fun group _ inside => bounded group inside,
          fun group _ inside => descends group inside⟩⟩

/-- The leaf pages of an index. -/
structure LeafPages (descending : Bool) where
  pages : List (List IndexNode)
  chained : ∀ page ∈ pages, Chained descending none page
  /-- Only the last page ends the level. -/
  ends : ∃ front last, pages = front ++ [last] ∧
    (∀ page ∈ front, page.any IndexNode.isEndLevel = false) ∧ last.any IndexNode.isEndLevel = true
  ordered : (keysOf pages).IsChain (KeyLe descending)

/-- Where the two counts drift apart: the keys are the same up to the end of a group, and there the
second one ends, or it goes on with another segment at the start of a page. -/
def Drifts (previous : List UInt8) (entry : List UInt8 × Bool) : Prop :=
  let shared := computePrefix previous entry.1
  previous ≠ entry.1 ∧ shared % 5 = 0 ∧
    (entry.1.length = shared ∨
      entry.2 = true ∧ 0 < shared ∧ entry.1[shared]? ≠ entry.1[shared - 5]?)

/-- No entry lets the counts drift apart. -/
def Steady (pages : List (List IndexNode)) : Prop :=
  (pages.flatMap pageEntries).IsChain fun previous entry => ¬ Drifts previous.1 entry

end Selectivity
end Firebird
