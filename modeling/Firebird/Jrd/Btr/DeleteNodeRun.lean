import Firebird.Jrd.Btr.DeleteNodeRebuild

/-!
# A page without one of its nodes

After `delete_node` the page holds a bucket with the same entries but one, in order and with jump
nodes that fit to it.
-/

namespace Firebird

open ByteMemory (load store copy Lies)
open Btn (stored storedJump)

variable {descending : Bool}

/-- The marker is the last node. -/
theorem Bucket.marker_iff (bucket : Bucket descending) {position : Nat} {node : IndexNode}
    (there : bucket.nodes[position]? = some node) :
    (node.isEndBucket || node.isEndLevel) = true ↔ position + 1 = bucket.nodes.length := by
  have inside := (List.getElem?_eq_some_iff.mp there).1
  constructor
  · intro marker
    by_contra more
    have live := bucket.live_at there (by omega)
    rw [live.1, live.2] at marker
    cases marker
  · intro last
    by_contra no_marker
    rw [Bool.not_eq_true, Bool.or_eq_false_iff] at no_marker
    obtain ⟨front, rest, nodes_eq, rfl⟩ := split_at there
    have more := bucket.follower nodes_eq no_marker.2 no_marker.1
    rw [nodes_eq, List.length_append, List.length_cons] at last
    exact more (List.eq_nil_of_length_eq_zero (by omega))

theorem Bucket.nodes_pos (bucket : Bucket descending) : 0 < bucket.nodes.length := by
  rcases bucket.chained with chained | ⟨-, first, rest, nodes_eq, -⟩
  · refine List.length_pos_of_ne_nil fun empty => ?_
    rw [empty] at chained
    exact chained
  · rw [nodes_eq]
    exact Nat.succ_pos _

namespace BtreePage

theorem writeJumpNodes_eq (jumpNodes : List IndexJumpNode) (pointer : Nat)
    (memory : Nat → UInt8) :
    writeJumpNodes jumpNodes pointer memory = store memory pointer (jumpBytes jumpNodes) := by
  induction jumpNodes generalizing pointer memory with
  | nil => exact (ByteMemory.store_nil _ _).symm
  | cons jumpNode rest ih =>
      rw [writeJumpNodes, ih, jumpBytes, jumpBytes, List.flatMap_cons, ByteMemory.store_append]

variable {page : BtreePage}

/-- Nothing is left but the marker, or one node with it, or how full the page is tells. -/
theorem contentsOf_eq (bucket : Bucket descending) (holds : page.Holds bucket.nodes)
    (dbb_page_size : Nat) :
    page.contentsOf dbb_page_size =
      if bucket.nodes.length = 1 then .contents_empty
      else if bucket.nodes.length = 2 then .contents_single
      else if page.btr_length < dbb_page_size / 4 then .contents_below_threshold
      else .contents_above_threshold := by
  have marker : ∀ position < bucket.nodes.length,
      ((page.readNode (page.placeOf bucket.nodes position)).1.isEndBucket ||
          (page.readNode (page.placeOf bucket.nodes position)).1.isEndLevel) =
        decide (bucket.nodes.length = position + 1) ∧
      (page.readNode (page.placeOf bucket.nodes position)).2 =
        page.placeOf bucket.nodes (position + 1) := by
    intro position inside
    have there := List.getElem?_eq_getElem inside
    obtain ⟨data, read, -⟩ := holds.readNode there
    rw [read]
    refine ⟨?_, rfl⟩
    rw [Bool.eq_iff_iff, decide_eq_true_iff]
    exact (bucket.marker_iff there).trans eq_comm
  obtain ⟨first_marker, second_place⟩ := marker 0 bucket.nodes_pos
  have start_eq : page.placeOf bucket.nodes 0 = page.firstNode := rfl
  rw [start_eq] at first_marker second_place
  rw [contentsOf]
  dsimp only
  rw [first_marker, second_place]
  by_cases single : bucket.nodes.length = 1
  · rw [if_pos single, if_pos (decide_eq_true single)]
  · obtain ⟨second_marker, -⟩ := marker 1 (by have positive := bucket.nodes_pos; omega)
    rw [second_marker, if_neg single, if_neg (by simpa using single)]
    by_cases double : bucket.nodes.length = 2
    · rw [if_pos double, if_pos (decide_eq_true double)]
    · rw [if_neg double, if_neg (by simpa using double)]

section
variable {bucket : Bucket descending} {front back : List IndexNode} {removing next : IndexNode}

/-- What is known of the removed node and the node behind it. -/
theorem Stores.pair (stores : page.Stores bucket.nodes bucket.jumpNodes)
    (nodes_eq : bucket.nodes = front ++ removing :: next :: back) :
    removing.Storable page.leafPage ∧ next.Storable page.leafPage ∧
      removing.isEndLevel = false ∧
      removing.prefixLength ≤ ((lastKey none front).getD []).length ∧
      next.prefixLength ≤ removing.prefixLength + removing.length ∧
      next.prefixLength + next.length < 2 ^ 14 := by
  have removing_there : bucket.nodes[front.length]? = some removing := by rw [nodes_eq]; simp
  have next_there : bucket.nodes[front.length + 1]? = some next := by rw [nodes_eq]; simp
  have next_lt := (List.getElem?_eq_some_iff.mp next_there).1
  have no_level := (bucket.live_at removing_there next_lt).1
  have next_storable := stores.storable next (List.mem_of_getElem? next_there)
  refine ⟨stores.storable removing (List.mem_of_getElem? removing_there), next_storable, no_level,
    bucket.inside nodes_eq no_level, ?_⟩
  by_cases level : next.isEndLevel = true
  · obtain ⟨unshared, empty, -⟩ := next_storable.plain level
    have unshared : next.prefixLength = 0 := unshared
    have empty : next.length = 0 := empty
    omega
  · have next_no_level := Bool.eq_false_iff.mpr level
    have shared := bucket.shared_inside next_there next_no_level
    rw [(bucket.keyAt_take removing_there no_level).2] at shared
    have key_lt := stores.key_lt (front.length + 1) next_lt
    rw [(bucket.keyAt_take next_there next_no_level).2] at key_lt
    exact ⟨shared, key_lt⟩

/-- Bytes of the jump table do not reach the nodes. -/
theorem Holds.writeJumps {nodes : List IndexNode} (holds : page.Holds nodes)
    {jumpNodes : List IndexJumpNode} (size_le : (jumpBytes jumpNodes).length ≤ page.btr_jump_size)
    (count : Nat) :
    Holds { page with
      btr_jump_count := count
      bytes := writeJumpNodes jumpNodes BTR_SIZE page.bytes } nodes := by
  refine ⟨?_, holds.length_eq, holds.length_le, holds.storable⟩
  dsimp only
  rw [writeJumpNodes_eq]
  refine holds.nodes_lie.congr fun address above _ => ByteMemory.store_apart _ (.inr ?_)
  have above : BTR_SIZE + page.btr_jump_size ≤ address := above
  omega

/-- `delete_node` from what its two parts return. -/
theorem delete_node_eq {removed : BtreePage} {jumpNodes : List IndexJumpNode}
    {pointer offsetNextPoint delta dbb_page_size : Nat}
    (delete_eq : page.deleteEntry pointer = (removed, offsetNextPoint, delta))
    (rebuild_eq : (removed.rebuildJumps pointer offsetNextPoint delta page.btr_jump_count BTR_SIZE
      ⟨[], false, ⟨0, [], 0⟩, fun _ => 0, 0⟩).jumpNodes = jumpNodes)
    (count_lt : jumpNodes.length < 2 ^ 8) :
    page.delete_node dbb_page_size pointer =
      ({ removed with
          btr_jump_count := jumpNodes.length
          bytes := writeJumpNodes jumpNodes BTR_SIZE removed.bytes },
        BtreePage.contentsOf { removed with
          btr_jump_count := jumpNodes.length
          bytes := writeJumpNodes jumpNodes BTR_SIZE removed.bytes } dbb_page_size) := by
  rw [delete_node, delete_eq]
  dsimp only
  rw [rebuild_eq, Nat.mod_eq_of_lt count_lt]

/-- The loop before its first step. -/
theorem Midway.empty (page : BtreePage) (nodes : List IndexNode) (gone : Nat) :
    page.Midway nodes gone 0 [] [] ⟨[], false, ⟨0, [], 0⟩, fun _ => 0, 0⟩ [] 0 [] where
  chain := .nil
  jumpNodes_eq := rfl
  size_eq := rfl
  size_le := Nat.zero_le _
  held := rfl
  behind := ⟨fun _ => rfl, fun rebuild => (by cases rebuild), fun rebuild => (by cases rebuild)⟩
  reached_prefix := List.nil_prefix
  none_kept := fun _ => rfl
  last_le := Nat.zero_le _
  short := fun _ => rfl
  none_start := fun _ => .inl (Nat.zero_le _)
  some_start := fun some_kept => absurd rfl some_kept
  rebuild_start := fun rebuild => (by cases rebuild)

/-- The bucket that a page holds after one of its nodes was deleted. -/
theorem delete_node_stores (nodes_eq : bucket.nodes = front ++ removing :: next :: back)
    (stores : page.Stores bucket.nodes bucket.jumpNodes) (dbb_page_size : Nat) :
    ∃ after,
      Jumps (front ++ removing.reexpanded next :: back) 0 [] after ∧
      after.length ≤ bucket.jumpNodes.length ∧
      (page.delete_node dbb_page_size (page.placeOf bucket.nodes front.length)).1.Stores
        (front ++ removing.reexpanded next :: back) after ∧
      (page.delete_node dbb_page_size (page.placeOf bucket.nodes front.length)).1.btr_level =
        page.btr_level ∧
      (page.delete_node dbb_page_size (page.placeOf bucket.nodes front.length)).1.btr_jump_size =
        page.btr_jump_size ∧
      (page.delete_node dbb_page_size (page.placeOf bucket.nodes front.length)).2 =
        (page.delete_node dbb_page_size (page.placeOf bucket.nodes front.length)).1.contentsOf
          dbb_page_size := by
  obtain ⟨removing_storable, next_storable, no_level, inside_front, shared, key_lt⟩ :=
    stores.pair nodes_eq
  have reexpanded := next_storable.reexpanded shared key_lt
  have fits := IndexNode.bytes_reexpanded removing_storable next_storable reexpanded no_level shared
  have nodes_lie := stores.nodes_lie
  have length_eq := stores.length_eq
  rw [nodes_eq] at nodes_lie length_eq
  obtain ⟨memory, delete_eq, lies, frame⟩ :=
    deleteEntry_removes nodes_lie length_eq stores.length_le removing_storable next_storable no_level
      shared key_lt
  have place_eq : page.placeOf bucket.nodes front.length =
      page.firstNode + (nodesBytes page.leafPage front).length := by
    rw [placeOf, nodes_eq, List.take_left]
  have next_place : page.placeOf bucket.nodes (front.length + 1) =
      page.firstNode + (nodesBytes page.leafPage front).length +
        (removing.bytes page.leafPage).length := by
    rw [nodes_eq, placeOf_behind, List.take_zero]
    rfl
  have lesser_length :
      (nodesBytes page.leafPage (front ++ removing.reexpanded next :: back)).length ≤
        (nodesBytes page.leafPage (front ++ removing :: next :: back)).length := by
    rw [nodesBytes_append, nodesBytes_append, nodesBytes_cons, nodesBytes_cons, nodesBytes_cons]
    simp only [List.length_append]
    omega
  have storable : ∀ node ∈ front ++ removing.reexpanded next :: back,
      node.Storable page.leafPage := by
    intro node member
    have old := stores.storable node
    rw [nodes_eq] at old
    simp only [List.mem_append, List.mem_cons] at member old
    rcases member with front_mem | rfl | back_mem
    · exact old (.inl front_mem)
    · exact reexpanded
    · exact old (.inr (.inr (.inr back_mem)))
  generalize total_eq : page.btr_prefix_total -
    (removing.prefixLength + (next.prefixLength - (removing.reexpanded next).prefixLength : Nat)) =
      total at delete_eq
  let removed : BtreePage :=
    { page with
      btr_prefix_total := total
      btr_length := page.firstNode +
        (nodesBytes page.leafPage (front ++ removing.reexpanded next :: back)).length
      bytes := memory }
  have holds : removed.Holds (front ++ removing.reexpanded next :: back) :=
    ⟨lies, rfl, le_trans (Nat.add_le_add_left lesser_length _) (length_eq ▸ stores.length_le),
      storable⟩
  let smaller : Bucket descending :=
    { btr_level := bucket.btr_level
      jumpNodes := []
      nodes := front ++ removing.reexpanded next :: back
      chained := bucket.chained_removed nodes_eq
      jumps := trivial }
  have erased : removed.Erased bucket smaller front back removing next :=
    { nodes_eq := nodes_eq, smaller_eq := rfl, inside := inside_front, fits := fits
      small := stores.length_eq ▸ stores.length_le, storable := stores.storable, holds := holds }
  have jumps_lie : Lies removed.bytes BTR_SIZE
      (jumpBytes (bucket.jumpNodes.map (removed.placed bucket.nodes))) := by
    refine stores.jumps_lie.congr fun address _ below => frame address ?_
    have size_le := stores.jumps_le
    rw [firstNode]
    omega
  obtain ⟨after, after_jumps, after_le, after_eq, after_size⟩ :=
    rebuildJumps_keeps erased bucket.jumps jumps_lie (.empty removed smaller.nodes front.length)
  rw [List.length_nil, Nat.zero_add] at after_le
  have count_lt : (after.map (removed.placed smaller.nodes)).length < 2 ^ 8 := by
    rw [List.length_map]
    exact after_le.trans_lt stores.count_lt
  have delete_eq : page.deleteEntry (page.placeOf bucket.nodes front.length) =
      (removed, removed.placeOf bucket.nodes (front.length + 1), removed.shrunk removing next) := by
    have next_place : removed.placeOf bucket.nodes (front.length + 1) = _ := next_place
    rw [place_eq, next_place]
    exact delete_eq
  rw [← stores.count_eq] at after_eq
  rw [delete_node_eq delete_eq after_eq count_lt, List.length_map]
  refine ⟨after, after_jumps, after_le, ?_, rfl, rfl, rfl⟩
  have stays := holds.writeJumps after_size after.length
  refine ⟨stays.nodes_lie, stays.length_eq, stays.length_le, ?_, after_size, rfl, ?_, ?_,
    stays.storable, ?_⟩
  · dsimp only
    rw [writeJumpNodes_eq]
    exact ByteMemory.lies_store _ _ _
  · exact after_le.trans_lt stores.count_lt
  · have prefix_total := stores.prefix_total
    have prefix_le : (removing.reexpanded next).prefixLength ≤ next.prefixLength :=
      Nat.min_le_right _ _
    rw [nodes_eq, List.map_append, List.map_cons, List.map_cons, List.sum_append, List.sum_cons,
      List.sum_cons] at prefix_total
    change total = _
    rw [List.map_append, List.map_cons, List.sum_append, List.sum_cons, ← total_eq, prefix_total]
    omega
  · intro position inside
    rw [keyAt_removed inside_front]
    have all := stores.key_lt
    rw [nodes_eq] at all
    refine all _ ?_
    rw [List.length_append, List.length_cons] at inside ⊢
    rw [List.length_cons]
    split_ifs <;> omega

/-- Without a node that is no marker the page holds a bucket of the other entries: its nodes are in
order and its jump nodes fit to them, and the state that is returned says how many are left. -/
theorem delete_node_removes (bucket : Bucket descending) {page : BtreePage}
    (stores : page.Stores bucket.nodes bucket.jumpNodes) {position : Nat} {removing : IndexNode}
    (there : bucket.nodes[position]? = some removing) (no_bucket : removing.isEndBucket = false)
    (no_level : removing.isEndLevel = false) (dbb_page_size : Nat) :
    ∃ (after : BtreePage) (smaller : Bucket descending),
      page.delete_node dbb_page_size (page.placeOf bucket.nodes position) =
        (after,
          if smaller.nodes.length = 1 then .contents_empty
          else if smaller.nodes.length = 2 then .contents_single
          else if after.btr_length < dbb_page_size / 4 then .contents_below_threshold
          else .contents_above_threshold) ∧
      after.Stores smaller.nodes smaller.jumpNodes ∧
      after.btr_level = page.btr_level ∧ smaller.btr_level = bucket.btr_level ∧
      after.btr_jump_size = page.btr_jump_size ∧
      smaller.jumpNodes.length ≤ bucket.jumpNodes.length ∧
      entries [] smaller.nodes = (entries [] bucket.nodes).eraseIdx position := by
  obtain ⟨front, rest, nodes_eq, rfl⟩ := split_at there
  have more := bucket.follower nodes_eq no_level no_bucket
  obtain ⟨next, back, rfl⟩ := List.exists_cons_of_ne_nil more
  obtain ⟨after, jumps, after_le, after_stores, level_eq, size_eq, contents_eq⟩ :=
    delete_node_stores nodes_eq stores dbb_page_size
  let smaller : Bucket descending :=
    { btr_level := bucket.btr_level
      jumpNodes := after
      nodes := front ++ removing.reexpanded next :: back
      chained := bucket.chained_removed nodes_eq
      jumps := jumps }
  have after_stores : (page.delete_node dbb_page_size
      (page.placeOf bucket.nodes front.length)).1.Stores smaller.nodes smaller.jumpNodes :=
    after_stores
  have inside := bucket.inside nodes_eq no_level
  rw [lastKey_getD] at inside
  rw [contentsOf_eq smaller after_stores.holds] at contents_eq
  refine ⟨_, smaller, Prod.ext rfl contents_eq, after_stores, level_eq, rfl, size_eq, after_le, ?_⟩
  rw [nodes_eq]
  exact entries_removed inside

end

/-- Four nodes and the marker of the level, with three jump nodes. -/
def fourNodes : Bucket false where
  btr_level := 0
  jumpNodes := [⟨0, [1, 2], 1⟩, ⟨2, [4], 2⟩, ⟨3, [7], 3⟩]
  nodes :=
    [⟨0, [1, 2, 3], 7, 0, false, false⟩, ⟨2, [4], 8, 0, false, false⟩,
      ⟨3, [7, 8], 9, 0, false, false⟩, ⟨4, [9], 10, 0, false, false⟩,
      ⟨0, [], 0, 0, false, true⟩]
  chained := .inl (by decide)
  jumps := by decide

def fourNodesPage : BtreePage :=
  let blank : BtreePage := ⟨0, 0, 9, 30, 3, fun _ => 0⟩
  { blank with
    btr_length := blank.firstNode + (nodesBytes true fourNodes.nodes).length
    bytes := store
      (store blank.bytes BTR_SIZE
        (jumpBytes (fourNodes.jumpNodes.map (blank.placed fourNodes.nodes))))
      blank.firstNode (nodesBytes true fourNodes.nodes) }

theorem fourNodesPage_stores : fourNodesPage.Stores fourNodes.nodes fourNodes.jumpNodes where
  nodes_lie := by
    rw [Lies]
    decide +kernel
  length_eq := by decide +kernel
  length_le := by decide +kernel
  jumps_lie := by
    rw [Lies]
    decide +kernel
  jumps_le := by decide +kernel
  count_eq := rfl
  count_lt := by decide
  prefix_total := rfl
  storable := by
    intro node member
    simp only [fourNodes, List.mem_cons, List.not_mem_nil, or_false] at member
    rcases member with rfl | rfl | rfl | rfl | rfl
    all_goals refine ⟨⟨by decide, by decide, by decide, by decide, by decide⟩, ?_, fun _ => rfl⟩
    all_goals
      rw [Btn.IndexNode.PlainMarker]
      decide
  key_lt := by decide

theorem delete_node_removes_second :
    ∃ (after : BtreePage) (smaller : Bucket false),
      fourNodesPage.delete_node 4096 (fourNodesPage.placeOf fourNodes.nodes 1) =
        (after,
          if smaller.nodes.length = 1 then .contents_empty
          else if smaller.nodes.length = 2 then .contents_single
          else if after.btr_length < 4096 / 4 then .contents_below_threshold
          else .contents_above_threshold) ∧
      after.Stores smaller.nodes smaller.jumpNodes ∧
      after.btr_level = fourNodesPage.btr_level ∧ smaller.btr_level = fourNodes.btr_level ∧
      after.btr_jump_size = fourNodesPage.btr_jump_size ∧
      smaller.jumpNodes.length ≤ fourNodes.jumpNodes.length ∧
      entries [] smaller.nodes = (entries [] fourNodes.nodes).eraseIdx 1 :=
  delete_node_removes fourNodes fourNodesPage_stores
    (show fourNodes.nodes[1]? = some ⟨2, [4], 8, 0, false, false⟩ from rfl) rfl rfl 4096

end BtreePage
end Firebird
