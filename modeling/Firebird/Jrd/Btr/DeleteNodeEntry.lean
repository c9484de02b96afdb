import Firebird.Jrd.Btr.DeleteNode

/-!
# The entries behind a removed one

Without a node the keys of all others stay as they are, and the node behind it is compressed against the
key before it again.
-/

namespace Firebird

open ByteMemory (load store copy Lies)
open Btn (stored storedJump)

variable {descending : Bool}

/-! ## Keys -/

/-- Over three keys in order the shared bytes are those that both neighbours share. -/
theorem computePrefix_trans {left middle right : List UInt8} (first : KeyLe descending left middle)
    (second : KeyLe descending middle right) :
    computePrefix left right = min (computePrefix left middle) (computePrefix middle right) := by
  induction left generalizing middle right with
  | nil => exact (Nat.zero_min _).symm
  | cons byte left ih =>
      cases middle with
      | nil =>
          have turned : descending = true := first
          subst turned
          cases right with
          | nil => rfl
          | cons last right => cases second
      | cons between middle =>
          cases right with
          | nil => exact (Nat.min_zero _).symm
          | cons last right =>
              rw [computePrefix, computePrefix, computePrefix]
              rcases first with less | ⟨rfl, first⟩
              · have different : byte ≠ last := by
                  rcases second with more | ⟨rfl, -⟩
                  · exact (less.trans more).ne
                  · exact less.ne
                rw [if_neg less.ne, if_neg different, Nat.zero_min]
              · rcases second with more | ⟨rfl, second⟩
                · rw [if_neg more.ne, if_pos rfl, if_neg more.ne, Nat.min_zero]
                · rw [if_pos rfl, if_pos rfl, if_pos rfl, ih first second, Nat.succ_min_succ]

/-- The node behind a removed one, with the bytes that it shared with it alone. -/
def IndexNode.reexpanded (removing next : IndexNode) : IndexNode :=
  { next with
    prefixLength := min removing.prefixLength next.prefixLength
    data := removing.data.take (next.prefixLength - removing.prefixLength) ++ next.data }

theorem IndexNode.reexpanded_key {removing next : IndexNode} {previous : List UInt8}
    (inside : removing.prefixLength ≤ previous.length) :
    (removing.reexpanded next).key previous = next.key (removing.key previous) := by
  rw [IndexNode.key, IndexNode.key, IndexNode.key, IndexNode.reexpanded, List.take_append, List.take_take,
    List.length_take_of_le inside, Nat.min_comm, List.append_assoc]

/-- A node without shared bytes and without data stays so. -/
theorem IndexNode.reexpanded_marker {removing next : IndexNode} (unshared : next.prefixLength = 0)
    (empty : next.data = []) : removing.reexpanded next = next := by
  obtain ⟨prefixLength, data, recordNumber, pageNumber, isEndBucket, isEndLevel⟩ := next
  have unshared : prefixLength = 0 := unshared
  have empty : data = [] := empty
  subst unshared empty
  rw [IndexNode.reexpanded]
  dsimp only
  rw [Nat.min_zero, Nat.zero_sub, List.take_zero, List.append_nil]

/-- The bucket stays in order. -/
theorem Chained.removed {previous : Option (List UInt8)} {front back : List IndexNode}
    {removing next : IndexNode} (chained : Chained descending previous (front ++ removing :: next :: back)) :
    Chained descending previous (front ++ removing.reexpanded next :: back) := by
  induction front generalizing previous with
  | nil =>
      obtain ⟨-, -, follows, chained⟩ := chained.head (List.cons_ne_nil _ _)
      have inside := follows.inside
      rw [List.nil_append, Chained]
      rw [Chained] at chained
      by_cases level : next.isEndLevel = true
      · rw [if_pos level] at chained
        obtain ⟨unshared, empty, none_behind⟩ := chained
        rw [IndexNode.reexpanded_marker unshared empty, if_pos level]
        exact ⟨unshared, empty, none_behind⟩
      · rw [if_neg level] at chained
        have same_level : ¬ (removing.reexpanded next).isEndLevel = true := level
        have same_bucket : (removing.reexpanded next).isEndBucket = next.isEndBucket := rfl
        obtain ⟨next_follows, rest⟩ := chained
        have key_eq := @IndexNode.reexpanded_key removing next _ inside
        rw [if_neg same_level, same_bucket, key_eq]
        refine ⟨?_, rest⟩
        cases previous with
        | none =>
            have unshared : removing.prefixLength = 0 := follows
            exact (congrArg (min · next.prefixLength) unshared).trans (Nat.zero_min _)
        | some key =>
            rw [Option.getD_some] at key_eq next_follows
            rw [Follows, key_eq]
            refine ⟨?_, follows.2.trans next_follows.2⟩
            rw [computePrefix_trans follows.2 next_follows.2, ← follows.1, ← next_follows.1]
            rfl
  | cons node front ih =>
      obtain ⟨no_level, no_bucket, follows, chained⟩ := chained.head (append_cons_ne_nil _ _ _)
      rw [List.cons_append, Chained, no_level, no_bucket]
      exact ⟨follows, ih chained⟩

/-- The keys before and behind the removed node are the same. -/
theorem keyAt_removed {front back : List IndexNode} {removing next : IndexNode}
    (inside : removing.prefixLength ≤ ((lastKey none front).getD []).length) (position : Nat) :
    keyAt (front ++ removing.reexpanded next :: back) position =
      keyAt (front ++ removing :: next :: back)
        (if position < front.length then position else position + 1) := by
  rw [lastKey_getD, Option.getD_none] at inside
  by_cases before : position < front.length
  · rw [if_pos before, keyAt, keyAt, List.take_append_of_le_length before,
      List.take_append_of_le_length before]
  · obtain ⟨behind, rfl⟩ := Nat.exists_eq_add_of_le (Nat.not_lt.mp before)
    have shorter : (front ++ removing.reexpanded next :: back).take (front.length + behind + 1) =
        front ++ removing.reexpanded next :: back.take behind := by
      rw [Nat.add_assoc, List.take_length_add_append, List.take_succ_cons]
    have longer : (front ++ removing :: next :: back).take (front.length + behind + 1 + 1) =
        front ++ removing :: next :: back.take behind := by
      rw [Nat.add_assoc, Nat.add_assoc, List.take_length_add_append, List.take_succ_cons,
        List.take_succ_cons]
    rw [if_neg before, keyAt, keyAt, shorter, longer, List.foldl_append, List.foldl_append,
      List.foldl_cons, List.foldl_cons, List.foldl_cons, IndexNode.reexpanded_key inside]

/-- What a node stands for. -/
structure IndexEntry where
  key : List UInt8
  recordNumber : Nat
  pageNumber : Nat
  isEndBucket : Bool
  isEndLevel : Bool
  deriving DecidableEq, Repr

/-- The entries of nodes behind a key. -/
def entries : List UInt8 → List IndexNode → List IndexEntry
  | _, [] => []
  | previous, node :: rest =>
      ⟨node.key previous, node.recordNumber, node.pageNumber, node.isEndBucket, node.isEndLevel⟩ ::
        entries (node.key previous) rest

theorem entries_removed {previous : List UInt8} {front back : List IndexNode} {removing next : IndexNode}
    (inside : removing.prefixLength ≤
      (front.foldl (fun previous node => node.key previous) previous).length) :
    entries previous (front ++ removing.reexpanded next :: back) =
      (entries previous (front ++ removing :: next :: back)).eraseIdx front.length := by
  induction front generalizing previous with
  | nil =>
      have inside : removing.prefixLength ≤ previous.length := inside
      rw [List.nil_append, List.nil_append, entries, entries, entries, List.length_nil,
        List.eraseIdx_cons_zero, IndexNode.reexpanded_key inside]
      rfl
  | cons node front ih =>
      rw [List.cons_append, List.cons_append, entries, entries, List.length_cons,
        List.eraseIdx_cons_succ, ih inside]

namespace Bucket

variable (bucket : Bucket descending)

/-- The order of the nodes of a bucket without one of them. -/
theorem chained_removed {front back : List IndexNode} {removing next : IndexNode}
    (nodes_eq : bucket.nodes = front ++ removing :: next :: back) :
    Chained descending none (front ++ removing.reexpanded next :: back) ∨
      bucket.btr_level ≠ 0 ∧ ∃ first rest, front ++ removing.reexpanded next :: back = first :: rest ∧
        first.Degenerate ∧ Chained descending none rest := by
  rcases bucket.chained with chained | ⟨upper, first, rest, split, degenerate, chained⟩
  · rw [nodes_eq] at chained
    exact .inl chained.removed
  · rw [nodes_eq] at split
    cases front with
    | nil =>
        obtain ⟨rfl, rfl⟩ := List.cons.inj split
        have unshared : next.prefixLength = 0 := by
          rw [Chained] at chained
          split at chained
          · exact chained.1
          · exact chained.1
        have same : removing.reexpanded next = next := by
          obtain ⟨prefixLength, data, recordNumber, pageNumber, isEndBucket, isEndLevel⟩ := next
          have unshared : prefixLength = 0 := unshared
          subst unshared
          rw [IndexNode.reexpanded]
          dsimp only
          rw [Nat.min_zero, Nat.zero_sub, List.take_zero, List.nil_append]
        rw [List.nil_append, same]
        exact .inl chained
    | cons node front =>
        obtain ⟨rfl, rfl⟩ := List.cons.inj split
        exact .inr ⟨upper, node, _, rfl, degenerate, chained.removed⟩

end Bucket
/-! ## Bytes -/

theorem Btn.length_writeShort {number : Nat} (number_lt : number < 2 ^ 14) :
    (Btn.writeShort number).length = if number < 2 ^ 7 then 1 else 2 := by
  rw [Btn.writeShort_eq number_lt, Btn.shortWidths, Btn.length_encode_cons, Btn.length_encode_cons]
  split_ifs
  · rfl
  · rfl
  · omega

/-- How many bytes the node has in front of its data. -/
theorem Btn.IndexNode.length_header {node : Btn.IndexNode} (range : node.InRange)
    (live : node.isEndLevel = false) (leafNode : Bool) :
    (node.header leafNode).length = 1 + (Btn.writeRecordNumber (node.recordNumber.toNat >>> 5)).length +
      (if leafNode then [] else Btn.writePageNumber node.pageNumber).length +
      (if hasPrefix node.internalFlags then if node.prefixLength < 2 ^ 7 then 1 else 2 else 0) +
      (if hasLength node.internalFlags then if node.length < 2 ^ 7 then 1 else 2 else 0) := by
  rw [header, live, if_neg Bool.false_ne_true, List.length_cons, List.length_append, List.length_append,
    List.length_append, ← Btn.length_writeShort range.prefix_lt, ← Btn.length_writeShort range.length_lt]
  simp only [apply_ite List.length, List.length_nil]
  omega

theorem Btn.writeRecordNumber_pos (number : Nat) : 0 < (Btn.writeRecordNumber number).length := by
  rw [Btn.writeRecordNumber, Btn.writeRecordBytes]
  split_ifs
  · exact Nat.one_pos
  · exact Nat.succ_pos _

/-- The bytes of a node without those of its record number, page number and data. -/
structure ShortCost (node : Btn.IndexNode) (prefix_cost length_cost : Nat) : Prop where
  prefix_le : prefix_cost ≤ 2
  prefix_small : node.prefixLength < 2 ^ 7 → prefix_cost ≤ 1
  prefix_long : 2 ^ 7 ≤ node.prefixLength → prefix_cost = 2
  length_le : length_cost ≤ 2
  length_small : node.length < 2 ^ 7 → length_cost ≤ 1
  length_pos : 2 ≤ node.length → 1 ≤ length_cost

theorem shortCost {node : Btn.IndexNode} (range : node.InRange) (live : node.isEndLevel = false)
    (leafNode : Bool) :
    ∃ prefix_cost length_cost, ShortCost node prefix_cost length_cost ∧
      (node.header leafNode).length =
        1 + (Btn.writeRecordNumber (node.recordNumber.toNat >>> 5)).length +
          (if leafNode then [] else Btn.writePageNumber node.pageNumber).length + prefix_cost +
          length_cost := by
  refine ⟨_, _, ?_, Btn.IndexNode.length_header range live leafNode⟩
  obtain ⟨both_zero, length_zero, length_one⟩ := node.internalFlags_says live
  constructor
  case prefix_le => split_ifs <;> omega
  case prefix_small => intro small; split_ifs <;> omega
  case prefix_long =>
    intro long
    have stored : Btn.IndexNode.hasPrefix node.internalFlags = true := decide_eq_true fun zero => by
      have := (both_zero zero).1
      omega
    rw [if_pos stored, if_neg (by omega)]
  case length_le => split_ifs <;> omega
  case length_small => intro small; split_ifs <;> omega
  case length_pos =>
    intro more
    have stored : Btn.IndexNode.hasLength node.internalFlags = true :=
      decide_eq_true ⟨fun zero => by
        have := (both_zero zero).2
        omega, fun zero => by
        have := length_zero zero
        omega, fun one => by
        have := length_one one
        omega⟩
    rw [if_pos stored]
    split_ifs <;> omega

/-- The node behind a removed one fits into the space of both. -/
theorem IndexNode.bytes_reexpanded {leafNode : Bool} {removing next : IndexNode}
    (removing_storable : removing.Storable leafNode) (next_storable : next.Storable leafNode)
    (storable : (removing.reexpanded next).Storable leafNode) (no_level : removing.isEndLevel = false)
    (inside : next.prefixLength ≤ removing.prefixLength + removing.length) :
    ((removing.reexpanded next).bytes leafNode).length ≤
      (removing.bytes leafNode).length + (next.bytes leafNode).length := by
  by_cases level : next.isEndLevel = true
  · have same : removing.reexpanded next = next := IndexNode.reexpanded_marker
      (next_storable.plain level).1 (List.eq_nil_of_length_eq_zero (next_storable.plain level).2.1)
    rw [same]
    exact Nat.le_add_left _ _
  · have next_live : next.isEndLevel = false := Bool.eq_false_iff.mpr level
    obtain ⟨removing_lead, removing_length, removing_cost, removing_eq⟩ :=
      @shortCost (stored removing) removing_storable.range no_level leafNode
    obtain ⟨next_lead, next_length, next_cost, next_eq⟩ :=
      @shortCost (stored next) next_storable.range next_live leafNode
    obtain ⟨new_lead, new_length, new_cost, new_eq⟩ :=
      @shortCost (stored (removing.reexpanded next)) storable.range next_live leafNode
    have record_pos := Btn.writeRecordNumber_pos ((stored removing).recordNumber.toNat >>> 5)
    have same_record : (stored (removing.reexpanded next)).recordNumber = (stored next).recordNumber := rfl
    have same_page : (stored (removing.reexpanded next)).pageNumber = (stored next).pageNumber := rfl
    rw [same_record, same_page] at new_eq
    have new_prefixLength : (stored (removing.reexpanded next)).prefixLength =
        min removing.prefixLength next.prefixLength := rfl
    have data_length : (removing.reexpanded next).data.length =
        next.prefixLength - removing.prefixLength + next.data.length := by
      rw [IndexNode.reexpanded, List.length_append, List.length_take, Nat.min_eq_left]
      exact Nat.sub_le_iff_le_add'.mpr inside
    have new_length_eq : (stored (removing.reexpanded next)).length =
        next.prefixLength - removing.prefixLength + next.data.length := data_length
    have prefix_small := new_cost.prefix_small
    have prefix_le := new_cost.prefix_le
    have length_small := new_cost.length_small
    have length_le := new_cost.length_le
    have prefix_long : 2 ^ 7 ≤ removing.prefixLength → removing_lead = 2 := removing_cost.prefix_long
    have removing_pos : 2 ≤ removing.data.length → 1 ≤ removing_length := removing_cost.length_pos
    have next_pos : 2 ≤ next.data.length → 1 ≤ next_length := next_cost.length_pos
    have inside : next.prefixLength ≤ removing.prefixLength + removing.data.length := inside
    rw [new_prefixLength] at prefix_small
    rw [new_length_eq] at length_small
    rw [IndexNode.bytes, IndexNode.bytes, IndexNode.bytes, List.length_append, List.length_append,
      List.length_append, new_eq, removing_eq, next_eq, data_length]
    generalize (Btn.writeRecordNumber ((stored next).recordNumber.toNat >>> 5)).length = record
    generalize (if leafNode then [] else Btn.writePageNumber (stored next).pageNumber).length = number
    omega

theorem IndexNode.length_reexpanded {removing next : IndexNode}
    (inside : next.prefixLength ≤ removing.prefixLength + removing.length) :
    (removing.reexpanded next).length = next.prefixLength - removing.prefixLength + next.length := by
  rw [IndexNode.length, IndexNode.reexpanded, List.length_append, List.length_take, Nat.min_eq_left]
  · rfl
  · exact Nat.sub_le_iff_le_add'.mpr inside

theorem IndexNode.Storable.reexpanded {leafNode : Bool} {removing next : IndexNode}
    (storable : next.Storable leafNode) (inside : next.prefixLength ≤ removing.prefixLength + removing.length)
    (key_lt : next.prefixLength + next.length < 2 ^ 14) :
    (removing.reexpanded next).Storable leafNode := by
  by_cases level : next.isEndLevel = true
  · rw [IndexNode.reexpanded_marker (storable.plain level).1
      (List.eq_nil_of_length_eq_zero (storable.plain level).2.1)]
    exact storable
  · refine ⟨⟨storable.range.record_nonneg, storable.range.record_lt, storable.range.page_lt, ?_, ?_⟩,
      fun marker => absurd marker level, storable.leaf_page⟩
    · exact Nat.lt_of_le_of_lt (Nat.min_le_right _ _) storable.range.prefix_lt
    · have length_eq := IndexNode.length_reexpanded inside
      change (removing.reexpanded next).length < 2 ^ 14
      omega

namespace BtreePage

variable {page : BtreePage} {front back : List IndexNode} {removing next : IndexNode}

/-- `deleteEntry` from what it reads and writes. -/
theorem deleteEntry_eq {pointer offsetNextPoint localPointer shared place : Nat}
    {removingNode nextNode written : Btn.IndexNode} {after : Nat → UInt8}
    (read_first : page.readNode pointer = (removingNode, offsetNextPoint))
    (read_second : page.readNode offsetNextPoint = (nextNode, localPointer))
    (shared_eq : (if removingNode.prefixLength < nextNode.prefixLength then
      nextNode.prefixLength - removingNode.prefixLength else 0) = shared)
    (write_eq : Btn.IndexNode.writeNode
        { nextNode with
          prefixLength := nextNode.prefixLength - shared
          length := shared + nextNode.length
          data := tempBuf }
        (copy (copy page.bytes removingNode.data page.bytes tempBuf shared) nextNode.data
          (copy page.bytes removingNode.data page.bytes tempBuf shared) (tempBuf + shared)
          nextNode.length) pointer page.leafPage true = (written, after, place)) :
    page.deleteEntry pointer =
      ({ page with
          btr_prefix_total := page.btr_prefix_total - (removingNode.prefixLength +
            (nextNode.prefixLength - (nextNode.prefixLength - shared : Nat)))
          btr_length := place + (page.btr_length - localPointer)
          bytes := copy after localPointer after place (page.btr_length - localPointer) },
        offsetNextPoint, page.btr_length - (place + (page.btr_length - localPointer))) := by
  rw [deleteEntry, read_first]
  dsimp only
  rw [read_second]
  dsimp only
  rw [shared_eq, write_eq]

/-- The nodes without the removed one lie on the page, and nothing in front of them has changed. -/
theorem deleteEntry_removes
    (lies : Lies page.bytes page.firstNode
      (nodesBytes page.leafPage (front ++ removing :: next :: back)))
    (length_eq : page.btr_length = page.firstNode +
      (nodesBytes page.leafPage (front ++ removing :: next :: back)).length)
    (length_le : page.btr_length ≤ MAX_PAGE_SIZE) (removing_storable : removing.Storable page.leafPage)
    (next_storable : next.Storable page.leafPage) (no_level : removing.isEndLevel = false)
    (inside : next.prefixLength ≤ removing.prefixLength + removing.length)
    (key_lt : next.prefixLength + next.length < 2 ^ 14) :
    ∃ memory, page.deleteEntry (page.firstNode + (nodesBytes page.leafPage front).length) =
        ({ page with
            btr_prefix_total := page.btr_prefix_total -
              (removing.prefixLength +
                (next.prefixLength - (removing.reexpanded next).prefixLength : Nat))
            btr_length := page.firstNode +
              (nodesBytes page.leafPage (front ++ removing.reexpanded next :: back)).length
            bytes := memory },
          page.firstNode + (nodesBytes page.leafPage front).length +
            (removing.bytes page.leafPage).length,
          (removing.bytes page.leafPage).length + (next.bytes page.leafPage).length -
            ((removing.reexpanded next).bytes page.leafPage).length) ∧
      Lies memory page.firstNode
        (nodesBytes page.leafPage (front ++ removing.reexpanded next :: back)) ∧
      ∀ address < page.firstNode, memory address = page.bytes address := by
  have storable := next_storable.reexpanded inside key_lt
  have fits := IndexNode.bytes_reexpanded removing_storable next_storable storable no_level inside
  rw [nodesBytes_append, nodesBytes_cons, nodesBytes_cons] at lies length_eq
  obtain ⟨front_lies, lies⟩ := ByteMemory.lies_append.mp lies
  obtain ⟨removing_lies, lies⟩ := ByteMemory.lies_append.mp lies
  obtain ⟨next_lies, back_lies⟩ := ByteMemory.lies_append.mp lies
  rw [List.length_append, List.length_append, List.length_append] at length_eq
  obtain ⟨first_data, read_first, first_loaded, -⟩ := removing_storable.read removing_lies
  obtain ⟨second_data, read_second, second_loaded, second_end⟩ := next_storable.read next_lies
  generalize pointer_eq : page.firstNode + (nodesBytes page.leafPage front).length = pointer at *
  generalize removing_eq : (removing.bytes page.leafPage).length = removing_length at *
  generalize next_eq : (next.bytes page.leafPage).length = next_length at *
  have read_first : page.readNode pointer = _ := read_first
  have read_second : page.readNode (pointer + removing_length) = _ := read_second
  have page_small : pointer + removing_length + next_length +
      (nodesBytes page.leafPage back).length ≤ 32768 := by
    rw [MAX_PAGE_SIZE] at length_le
    omega
  -- The bytes that only the removed node has, and then those of the next one, go to the buffer.
  let shared := next.prefixLength - removing.prefixLength
  let first := copy page.bytes first_data page.bytes tempBuf shared
  let second := copy first second_data first (tempBuf + shared) next.length
  have shared_le : shared ≤ removing.length := Nat.sub_le_iff_le_add'.mpr inside
  have shared_eq : (if removing.prefixLength < next.prefixLength then
      next.prefixLength - removing.prefixLength else 0) = shared := by
    split_ifs
    · rfl
    · exact (Nat.sub_eq_zero_of_le (by omega)).symm
  have low_same : ∀ address < tempBuf, second address = page.bytes address := by
    intro address low
    exact (ByteMemory.copy_apart _ _ (.inl (by omega))).trans
      (ByteMemory.copy_apart _ _ (.inl low))
  have buffer_eq : load second tempBuf (shared + next.length) = (removing.reexpanded next).data := by
    rw [ByteMemory.load_add]
    have front_eq : load second tempBuf shared = removing.data.take shared := by
      calc load second tempBuf shared
          = load first tempBuf shared := ByteMemory.load_copy_apart _ _ (.inl (Nat.le_refl _))
        _ = load page.bytes first_data shared :=
            ByteMemory.load_copy_start _ _ (by omega)
        _ = (load page.bytes first_data removing.length).take shared :=
            (ByteMemory.take_load _ _ shared_le).symm
        _ = removing.data.take shared := by rw [first_loaded]
    have back_eq : load second (tempBuf + shared) next.length = next.data := by
      rcases second_end with empty | end_eq
      · rw [empty]
        exact (List.eq_nil_of_length_eq_zero empty).symm
      · calc load second (tempBuf + shared) next.length
            = load first second_data next.length :=
              ByteMemory.load_copy_start _ _ (by omega)
          _ = load page.bytes second_data next.length :=
              ByteMemory.load_copy_apart _ _ (.inl (by rw [tempBuf]; omega))
          _ = next.data := second_loaded
    rw [front_eq, back_eq]
    rfl
  let node : Btn.IndexNode :=
    { stored (removing.reexpanded next) with nodePointer := pointer + removing_length, data := tempBuf }
  have node_eq : ({ stored next with
      nodePointer := pointer + removing_length
      prefixLength := next.prefixLength - shared
      length := shared + next.length
      data := tempBuf } : Btn.IndexNode) = node := by
    refine Btn.IndexNode.mk.injEq .. |>.mpr ⟨rfl, ?_, ?_, rfl, rfl, rfl, rfl, rfl⟩
    · change next.prefixLength - (next.prefixLength - removing.prefixLength) =
        min removing.prefixLength next.prefixLength
      omega
    · exact (IndexNode.length_reexpanded inside).symm
  have range : node.InRange := ⟨storable.range.record_nonneg, storable.range.record_lt,
    storable.range.page_lt, storable.range.prefix_lt, storable.range.length_lt⟩
  have plain : node.PlainMarker := storable.plain
  have header_length : (node.header page.leafPage).length + node.length =
      ((removing.reexpanded next).bytes page.leafPage).length := by
    rw [IndexNode.bytes, List.length_append]
    rfl
  generalize new_eq : ((removing.reexpanded next).bytes page.leafPage).length = new_length at *
  have apart : node.Apart pointer page.leafPage := by
    refine .inr ?_
    rw [Btn.IndexNode.getNodeSize_eq range plain, header_length]
    change pointer + new_length ≤ 2 ^ 16
    omega
  obtain ⟨after, write_eq, header_lies, data_lies, frame⟩ :=
    @Btn.IndexNode.writeNode_memory second node page.leafPage pointer true range plain fun _ => apart
  rw [Nat.add_assoc, header_length] at write_eq frame
  have node_length : node.length = shared + next.length := IndexNode.length_reexpanded inside
  have new_lies : Lies after pointer ((removing.reexpanded next).bytes page.leafPage) := by
    refine ByteMemory.lies_append.mpr ⟨header_lies, ?_⟩
    have loaded : load after (pointer + (node.header page.leafPage).length) node.length =
        (removing.reexpanded next).data := by
      rw [data_lies, node_length]
      exact buffer_eq
    exact loaded
  have back_length : page.btr_length - (pointer + removing_length + next_length) =
      (nodesBytes page.leafPage back).length := by omega
  refine ⟨copy after (pointer + removing_length + next_length) after (pointer + new_length)
    (nodesBytes page.leafPage back).length, ?_, ?_, ?_⟩
  · have written : Btn.IndexNode.writeNode
        ({ stored next with
          nodePointer := pointer + removing_length
          prefixLength := next.prefixLength - shared
          length := shared + next.length
          data := tempBuf } : Btn.IndexNode) second pointer page.leafPage true =
        ({ node with nodePointer := pointer }, after, pointer + new_length) := by
      rw [node_eq]
      exact write_eq
    have prefix_eq : next.prefixLength - shared = (removing.reexpanded next).prefixLength :=
      congrArg Btn.IndexNode.prefixLength node_eq
    have prefix_le : (removing.reexpanded next).prefixLength ≤ next.prefixLength := Nat.min_le_right _ _
    have new_place : pointer + new_length + (nodesBytes page.leafPage back).length =
        page.firstNode +
          (nodesBytes page.leafPage (front ++ removing.reexpanded next :: back)).length := by
      rw [nodesBytes_append, nodesBytes_cons, List.length_append, List.length_append]
      omega
    have total_eq : ((stored next).prefixLength : Int) -
        ((stored next).prefixLength - shared : Nat) =
          (next.prefixLength - (removing.reexpanded next).prefixLength : Nat) := by
      rw [Nat.cast_sub prefix_le, ← prefix_eq]
      rfl
    have delta_eq : page.btr_length - (page.firstNode +
        (nodesBytes page.leafPage (front ++ removing.reexpanded next :: back)).length) =
          removing_length + next_length - new_length := by
      omega
    rw [deleteEntry_eq read_first read_second shared_eq written, back_length, new_place, total_eq,
      delta_eq]
    rfl
  · rw [nodesBytes_append, nodesBytes_cons]
    refine ByteMemory.lies_append.mpr ⟨?_, ByteMemory.lies_append.mpr ⟨?_, ?_⟩⟩
    · refine front_lies.congr fun address _ below => ?_
      rw [pointer_eq] at below
      rw [ByteMemory.copy_apart _ _ (.inl (by omega)), frame _ (.inl below),
        low_same _ (by rw [tempBuf]; omega)]
    · rw [pointer_eq]
      exact new_lies.congr fun address _ below => ByteMemory.copy_apart _ _ (.inl (by omega))
    · rw [pointer_eq, new_eq]
      refine ByteMemory.Lies.copy_start ?_ (Nat.le_refl _)
      refine back_lies.congr fun address above below => ?_
      rw [frame _ (.inr (by omega)), low_same _ (by rw [tempBuf]; omega)]
  · intro address below
    rw [ByteMemory.copy_apart _ _ (.inl (by omega)), frame _ (.inl (by omega)),
      low_same _ (by rw [tempBuf]; omega)]

end BtreePage

end Firebird
