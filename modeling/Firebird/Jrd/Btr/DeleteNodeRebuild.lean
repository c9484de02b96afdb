import Firebird.Jrd.Btr.DeleteNodeJumps

/-!
# Rebuilding the jump nodes

The loop over the jump nodes drops those of the removed node and of the first node, moves the others
to the new places of their nodes, and keeps each of them as long as it fits into the table.
-/

namespace Firebird

open ByteMemory (load store copy Lies)
open Btn (stored storedJump)

variable {descending : Bool}

/-! ## Jump nodes one by one -/

/-- The jump node names a node that is no marker, and reproduces what this shares. -/
structure JumpsTo (nodes : List IndexNode) (start : Nat) (reach : List UInt8)
    (jumpNode : IndexJumpNode) (node : IndexNode) : Prop where
  there : nodes[jumpNode.offset]? = some node
  start_le : start ≤ jumpNode.offset
  no_bucket : node.isEndBucket = false
  no_level : node.isEndLevel = false
  inside : jumpNode.prefixLength ≤ reach.length
  length_eq : jumpNode.prefixLength + jumpNode.data.length = node.prefixLength
  shared_eq : reach.take jumpNode.prefixLength ++ jumpNode.data =
    (keyAt nodes jumpNode.offset).take node.prefixLength

theorem jumps_cons {nodes : List IndexNode} {start : Nat} {reach : List UInt8}
    {jumpNode : IndexJumpNode} {rest : List IndexJumpNode} :
    Jumps nodes start reach (jumpNode :: rest) ↔
      (∃ node, JumpsTo nodes start reach jumpNode node) ∧
        Jumps nodes (jumpNode.offset + 1)
          (reach.take jumpNode.prefixLength ++ jumpNode.data) rest := by
  rw [Jumps]
  constructor
  · intro jumps
    split at jumps
    · exact jumps.elim
    · rename_i node there
      obtain ⟨start_le, no_bucket, no_level, inside, length_eq, shared_eq, later⟩ := jumps
      exact ⟨⟨node, there, start_le, no_bucket, no_level, inside, length_eq, shared_eq⟩, later⟩
  · rintro ⟨⟨node, one⟩, later⟩
    rw [one.there]
    exact ⟨one.start_le, one.no_bucket, one.no_level, one.inside, one.length_eq, one.shared_eq,
      later⟩

/-- Jump nodes from the first one on, with the place behind the last one and what it reproduces. -/
inductive Kept (nodes : List IndexNode) : List IndexJumpNode → Nat → List UInt8 → Prop
  | nil : Kept nodes [] 0 []
  | concat {jumpNodes : List IndexJumpNode} {start : Nat} {reach : List UInt8}
      {jumpNode : IndexJumpNode} {node : IndexNode} (kept : Kept nodes jumpNodes start reach)
      (one : JumpsTo nodes start reach jumpNode node) :
      Kept nodes (jumpNodes ++ [jumpNode]) (jumpNode.offset + 1)
        (reach.take jumpNode.prefixLength ++ jumpNode.data)

theorem Kept.jumps_append {nodes : List IndexNode} {jumpNodes later : List IndexJumpNode}
    {start : Nat} {reach : List UInt8} (kept : Kept nodes jumpNodes start reach)
    (jumps : Jumps nodes start reach later) : Jumps nodes 0 [] (jumpNodes ++ later) := by
  induction kept generalizing later with
  | nil => exact jumps
  | concat kept one ih =>
      rw [List.append_assoc]
      exact ih (jumps_cons.mpr ⟨⟨_, one⟩, jumps⟩)

theorem Kept.jumps {nodes : List IndexNode} {jumpNodes : List IndexJumpNode} {start : Nat}
    {reach : List UInt8} (kept : Kept nodes jumpNodes start reach) :
    Jumps nodes 0 [] jumpNodes := by
  have jumps := @Kept.jumps_append _ _ [] _ _ kept trivial
  rwa [List.append_nil] at jumps

/-- The last jump node reproduces what is kept. -/
theorem Kept.last {nodes : List IndexNode} {jumpNodes : List IndexJumpNode} {start : Nat}
    {reach : List UInt8} (kept : Kept nodes jumpNodes start reach) {prev : IndexJumpNode}
    (is_last : jumpNodes.getLast? = some prev) :
    ∃ node, nodes[prev.offset]? = some node ∧ start = prev.offset + 1 ∧
      prev.prefixLength + prev.data.length = reach.length ∧ node.prefixLength = reach.length ∧
      reach = (keyAt nodes prev.offset).take node.prefixLength := by
  cases kept with
  | nil => cases is_last
  | @concat jumpNodes start reach jumpNode node kept one =>
      rw [List.getLast?_concat] at is_last
      obtain rfl := Option.some.inj is_last
      have length_eq : (reach.take jumpNode.prefixLength ++ jumpNode.data).length =
          jumpNode.prefixLength + jumpNode.data.length := by
        rw [List.length_append, List.length_take_of_le one.inside]
      exact ⟨node, one.there, rfl, length_eq.symm, by rw [length_eq, one.length_eq], one.shared_eq⟩

/-! ## The nodes without the removed one -/

/-- The position of a node when the one at `gone` is removed. -/
def movedPosition (gone position : Nat) : Nat := if position ≤ gone then position else position - 1

section
variable {front back : List IndexNode} {removing next : IndexNode}

/-- The other nodes stay, with their keys; the one behind shares no more than before. -/
theorem moved_node {position : Nat} {node : IndexNode}
    (inside : removing.prefixLength ≤ ((lastKey none front).getD []).length)
    (there : (front ++ removing :: next :: back)[position]? = some node)
    (other : position ≠ front.length) :
    ∃ moved, (front ++ removing.reexpanded next :: back)[movedPosition front.length position]? =
        some moved ∧
      moved.isEndLevel = node.isEndLevel ∧ moved.isEndBucket = node.isEndBucket ∧
      moved.prefixLength ≤ node.prefixLength ∧
      keyAt (front ++ removing.reexpanded next :: back) (movedPosition front.length position) =
        keyAt (front ++ removing :: next :: back) position := by
  have key_eq := @keyAt_removed front back removing next inside
    (movedPosition front.length position)
  rcases Nat.lt_or_gt_of_ne other with before | behind
  · have same : movedPosition front.length position = position := if_pos before.le
    rw [same, if_pos before] at key_eq
    rw [same, List.getElem?_append_left before]
    rw [List.getElem?_append_left before] at there
    exact ⟨node, there, rfl, rfl, Nat.le_refl _, key_eq⟩
  · obtain ⟨more, rfl⟩ := Nat.exists_eq_add_of_lt behind
    have same : movedPosition front.length (front.length + more + 1) = front.length + more := by
      rw [movedPosition, if_neg (by omega), Nat.add_sub_cancel]
    rw [same, if_neg (by omega)] at key_eq
    rw [same, List.getElem?_append_right (Nat.le_add_right _ _), Nat.add_sub_cancel_left]
    rw [Nat.add_assoc, List.getElem?_append_right (Nat.le_add_right _ _), Nat.add_sub_cancel_left,
      List.getElem?_cons_succ] at there
    cases more with
    | zero =>
        obtain rfl := Option.some.inj there
        exact ⟨removing.reexpanded next, rfl, rfl, rfl, Nat.min_le_right _ _, key_eq⟩
    | succ more => exact ⟨node, there, rfl, rfl, Nat.le_refl _, key_eq⟩

namespace BtreePage

variable {page : BtreePage}

theorem placeOf_before {rest other : List IndexNode} {position : Nat}
    (before : position ≤ front.length) :
    page.placeOf (front ++ rest) position = page.placeOf (front ++ other) position := by
  rw [placeOf, placeOf, List.take_append_of_le_length before, List.take_append_of_le_length before]

theorem placeOf_behind (node : IndexNode) (rest : List IndexNode) (more : Nat) :
    page.placeOf (front ++ node :: rest) (front.length + (more + 1)) =
      page.firstNode + (nodesBytes page.leafPage front).length +
        (node.bytes page.leafPage).length + (nodesBytes page.leafPage (rest.take more)).length := by
  rw [placeOf, List.take_length_add_append, List.take_succ_cons, nodesBytes_append, nodesBytes_cons,
    List.length_append, List.length_append, Nat.add_assoc, Nat.add_assoc]

/-- The places of the nodes move as the loop over the jump nodes has it. -/
theorem moved_place {position : Nat}
    (fits : ((removing.reexpanded next).bytes page.leafPage).length ≤
      (removing.bytes page.leafPage).length + (next.bytes page.leafPage).length)
    (inside : position < (front ++ removing :: next :: back).length)
    (other : position ≠ front.length) :
    movedOffset (page.placeOf (front ++ removing :: next :: back) front.length)
        (page.placeOf (front ++ removing :: next :: back) (front.length + 1))
        ((removing.bytes page.leafPage).length + (next.bytes page.leafPage).length -
          ((removing.reexpanded next).bytes page.leafPage).length)
        (page.placeOf (front ++ removing :: next :: back) position) =
      page.placeOf (front ++ removing.reexpanded next :: back)
        (movedPosition front.length position) := by
  have next_place : page.placeOf (front ++ removing :: next :: back) front.length <
      page.placeOf (front ++ removing :: next :: back) (front.length + 1) :=
    placeOf_lt (Nat.lt_succ_self _) (by simp)
  rcases Nat.lt_or_gt_of_ne other with before | behind
  · have less := @placeOf_lt page (front ++ removing :: next :: back) position front.length before
      inside
    rw [movedOffset, if_neg (by omega), if_neg (by omega), movedPosition, if_pos before.le]
    exact placeOf_before before.le
  · obtain ⟨more, rfl⟩ := Nat.exists_eq_add_of_lt behind
    have moved_eq : movedPosition front.length (front.length + more + 1) = front.length + more := by
      rw [movedPosition, if_neg (by omega), Nat.add_sub_cancel]
    rw [moved_eq]
    cases more with
    | zero =>
        rw [movedOffset, Nat.add_zero, if_pos rfl]
        exact placeOf_before (Nat.le_refl _)
    | succ more =>
        have less := @placeOf_lt page (front ++ removing :: next :: back) (front.length + 1)
          (front.length + (more + 1) + 1) (by omega) (by simp)
        rw [movedOffset, if_neg (by omega), if_pos (by omega), Nat.add_assoc front.length,
          placeOf_behind, placeOf_behind, List.take_succ_cons, nodesBytes_cons, List.length_append]
        omega

end BtreePage
end

/-! ## The loop -/

theorem Btn.IndexJumpNode.length_header_le (jumpNode : Btn.IndexJumpNode)
    (range : jumpNode.InRange) : jumpNode.header.length ≤ 6 := by
  have length_eq : jumpNode.header.length = (Btn.writeShort jumpNode.prefixLength).length +
      (Btn.writeShort jumpNode.length).length + 2 := by
    rw [header, List.length_append, List.length_append]
    rfl
  rw [length_eq, Btn.length_writeShort range.prefix_lt, Btn.length_writeShort range.length_lt]
  split_ifs <;> omega

namespace BtreePage

variable {page : BtreePage}

/-- The jump nodes of a page can be written. -/
theorem placed_range {nodes : List IndexNode} {start : Nat} {reach : List UInt8}
    {jumpNode : IndexJumpNode} {node : IndexNode}
    (small : page.firstNode + (nodesBytes page.leafPage nodes).length ≤ MAX_PAGE_SIZE)
    (storable : node.Storable page.leafPage) (one : JumpsTo nodes start reach jumpNode node) :
    (storedJump (page.placed nodes jumpNode)).InRange := by
  have prefix_lt : node.prefixLength < 2 ^ 14 := storable.range.prefix_lt
  have length_eq := one.length_eq
  have place_le := @placeOf_le page nodes jumpNode.offset nodes.length
    (List.getElem?_eq_some_iff.mp one.there).1.le
  have whole : page.placeOf nodes nodes.length =
      page.firstNode + (nodesBytes page.leafPage nodes).length := by rw [placeOf, List.take_length]
  rw [MAX_PAGE_SIZE] at small
  refine ⟨?_, ?_, ?_⟩
  · change jumpNode.prefixLength < 2 ^ 14
    omega
  · change jumpNode.data.length < 2 ^ 14
    omega
  · change page.placeOf nodes jumpNode.offset < 2 ^ 16
    omega

/-- A page from which a node was removed, with its jump nodes as they were. -/
structure Erased (page : BtreePage) (bucket smaller : Bucket descending)
    (front back : List IndexNode) (removing next : IndexNode) : Prop where
  nodes_eq : bucket.nodes = front ++ removing :: next :: back
  smaller_eq : smaller.nodes = front ++ removing.reexpanded next :: back
  inside : removing.prefixLength ≤ ((lastKey none front).getD []).length
  fits : ((removing.reexpanded next).bytes page.leafPage).length ≤
    (removing.bytes page.leafPage).length + (next.bytes page.leafPage).length
  small : page.firstNode + (nodesBytes page.leafPage bucket.nodes).length ≤ MAX_PAGE_SIZE
  storable : ∀ node ∈ bucket.nodes, node.Storable page.leafPage
  holds : page.Holds smaller.nodes

/-- By how much the nodes became shorter. -/
def shrunk (page : BtreePage) (removing next : IndexNode) : Nat :=
  (removing.bytes page.leafPage).length + (next.bytes page.leafPage).length -
    ((removing.reexpanded next).bytes page.leafPage).length

/-- The loop between two jump nodes: those that it kept are jump nodes of the smaller bucket. -/
structure Midway (page : BtreePage) (nodes : List IndexNode) (gone start : Nat)
    (reach base : List UInt8) (state : JumpRebuild) (kept : List IndexJumpNode) (last : Nat)
    (reached : List UInt8) : Prop where
  chain : Kept nodes kept last reached
  jumpNodes_eq : state.jumpNodes = kept.map (page.placed nodes)
  size_eq : state.jumpersNewSize = (jumpBytes state.jumpNodes).length
  size_le : state.jumpersNewSize ≤ page.btr_jump_size
  held : load state.jumpKey 0 reached.length = reached
  behind : Behind state base reach
  reached_prefix : reached <+: base
  none_kept : kept = [] → base = []
  last_le : last ≤ movedPosition gone start
  short : start ≤ 1 → reach = []
  none_start : kept = [] → start ≤ 1 ∨ gone < start
  some_start : kept ≠ [] → 2 ≤ start
  rebuild_start : state.rebuild = true → kept ≠ [] → gone < start

theorem movedPosition_le {gone first last : Nat} (le : first ≤ last) :
    movedPosition gone first ≤ movedPosition gone last := by
  rw [movedPosition, movedPosition]
  split_ifs <;> omega

section
variable {bucket smaller : Bucket descending} {front back : List IndexNode}
  {removing next : IndexNode} {start last : Nat} {reach base reached : List UInt8}
  {state : JumpRebuild} {kept : List IndexJumpNode} {jumpNode : IndexJumpNode} {node : IndexNode}

/-- What a jump node reproduces has the length of what its node shares. -/
theorem short_behind {nodes : List IndexNode} (one : JumpsTo nodes start reach jumpNode node)
    (first_unshared : ∀ first ∈ nodes.head?, first.prefixLength = 0) :
    jumpNode.offset + 1 ≤ 1 → reach.take jumpNode.prefixLength ++ jumpNode.data = [] := by
  intro first
  have there := one.there
  have zero : jumpNode.offset = 0 := by omega
  rw [zero, ← List.head?_eq_getElem?] at there
  have unshared := first_unshared node there
  have length_eq := one.length_eq
  refine List.eq_nil_of_length_eq_zero ?_
  rw [List.length_append, List.length_take_of_le one.inside]
  omega

/-- A jump node of the removed node or of the first node is left out. -/
theorem Midway.drop {nodes lesser : List IndexNode} {gone : Nat}
    (midway : page.Midway lesser gone start reach base state kept last reached)
    (one : JumpsTo nodes start reach jumpNode node)
    (first_unshared : ∀ first ∈ nodes.head?, first.prefixLength = 0)
    (dropped : jumpNode.offset = gone ∨ movedPosition gone jumpNode.offset = 0)
    {delJumpNode : IndexJumpNode} (prefix_eq : delJumpNode.prefixLength = jumpNode.prefixLength)
    (data_eq : delJumpNode.data = jumpNode.data) {jumpKey : Nat → UInt8}
    (held : kept ≠ [] → jumpKey = state.jumpKey) :
    page.Midway lesser gone (jumpNode.offset + 1)
      (reach.take jumpNode.prefixLength ++ jumpNode.data) reach
      { state with delJumpNode := delJumpNode, rebuild := true, jumpKey := jumpKey } kept last
      reached := by
  have start_le := one.start_le
  have first_or : movedPosition gone jumpNode.offset = 0 →
      jumpNode.offset = 0 ∨ jumpNode.offset = 1 ∧ gone = 0 := by
    intro first
    rw [movedPosition] at first
    split_ifs at first <;> omega
  have later : kept ≠ [] → jumpNode.offset = gone := by
    intro some_kept
    have more := midway.some_start some_kept
    rcases dropped with same | first
    · exact same
    · rcases first_or first with zero | ⟨one, -⟩ <;> omega
  -- Only the jump nodes of the first nodes are left out one behind the other.
  have reach_eq : kept = [] → reach = [] := by
    intro none_kept
    cases rebuild : state.rebuild with
    | false => rw [← midway.behind.steady rebuild, midway.none_kept none_kept]
    | true =>
        refine midway.short ?_
        rcases midway.none_start none_kept with first | past
        · exact first
        · rcases dropped with same | first
          · omega
          · rcases first_or first with zero | ⟨one, -⟩ <;> omega
  have base_eq : kept ≠ [] → base = reach := by
    intro some_kept
    cases rebuild : state.rebuild with
    | false => exact midway.behind.steady rebuild
    | true =>
        have past := midway.rebuild_start rebuild some_kept
        have same := later some_kept
        omega
  have none_reached : kept = [] → reached = [] := by
    intro none_kept
    have reached_prefix := midway.reached_prefix
    rw [midway.none_kept none_kept] at reached_prefix
    exact List.prefix_nil.mp reached_prefix
  refine
    { chain := midway.chain, jumpNodes_eq := midway.jumpNodes_eq, size_eq := midway.size_eq
      size_le := midway.size_le, held := ?_, behind := ⟨?_, ?_, ?_⟩, reached_prefix := ?_
      none_kept := reach_eq, last_le := ?_, short := short_behind one first_unshared
      none_start := ?_, some_start := ?_, rebuild_start := ?_ }
  · by_cases none_kept : kept = []
    · rw [none_reached none_kept]
      rfl
    · dsimp only
      rw [held none_kept]
      exact midway.held
  · intro no_rebuild
    cases no_rebuild
  · intro _
    dsimp only
    rw [prefix_eq]
    exact one.inside
  · intro _
    dsimp only
    rw [prefix_eq, data_eq]
  · by_cases none_kept : kept = []
    · rw [none_reached none_kept]
      exact List.nil_prefix
    · rw [← base_eq none_kept]
      exact midway.reached_prefix
  · exact midway.last_le.trans (movedPosition_le (by omega))
  · intro _
    rcases dropped with same | first
    · omega
    · rcases first_or first with zero | ⟨one, -⟩ <;> omega
  · intro some_kept
    have more := midway.some_start some_kept
    omega
  · intro _ some_kept
    have same := later some_kept
    omega

theorem load_getElem? {memory : Nat → UInt8} {cells : List UInt8}
    (loaded : load memory 0 cells.length = cells) {address : Nat}
    (inside : address < cells.length) :
    some (memory address) = cells[address]? := by
  have cell : (load memory 0 cells.length)[address]? = cells[address]? := by rw [loaded]
  rwa [load, List.getElem?_map, List.getElem?_range inside, Option.map_some, Nat.zero_add] at cell

/-- A jump node that stays is made one of the smaller bucket, behind those that were kept. -/
theorem Midway.settle (erased : page.Erased bucket smaller front back removing next)
    (midway : page.Midway smaller.nodes front.length start reach base state kept last reached)
    (one : JumpsTo bucket.nodes start reach jumpNode node)
    (other : jumpNode.offset ≠ front.length) :
    ∃ expanded jumpKey, expandJump (page.placeOf bucket.nodes front.length)
          (page.placeOf bucket.nodes (front.length + 1)) (page.shrunk removing next) state
          (page.placed bucket.nodes jumpNode) = (expanded, jumpKey) ∧
        expanded.offset =
          page.placeOf smaller.nodes (movedPosition front.length jumpNode.offset) ∧
        ∃ settled settledKey moved,
          page.settleJump (page.readNode expanded.offset).1.prefixLength
            state.jumpNodes.getLast? expanded jumpKey =
              (page.placed smaller.nodes settled, settledKey) ∧
          settled.offset = movedPosition front.length jumpNode.offset ∧
          JumpsTo smaller.nodes last reached settled moved ∧
          reached.take settled.prefixLength ++ settled.data <+:
            reach.take jumpNode.prefixLength ++ jumpNode.data ∧
          load settledKey 0 settled.prefixLength =
            (reached.take settled.prefixLength ++ settled.data).take settled.prefixLength := by
  obtain ⟨expanded, jumpKey, expand_eq, offset_eq, expanded_le, expanded_shared, same_key⟩ :=
    expandJump_spec midway.behind (page.placeOf bucket.nodes front.length)
      (page.placeOf bucket.nodes (front.length + 1)) (page.shrunk removing next)
      (show (page.placed bucket.nodes jumpNode).prefixLength ≤ reach.length from one.inside)
  have there := one.there
  have position_lt := (List.getElem?_eq_some_iff.mp there).1
  have moved_offset : expanded.offset =
      page.placeOf smaller.nodes (movedPosition front.length jumpNode.offset) := by
    rw [offset_eq, erased.smaller_eq, erased.nodes_eq]
    refine moved_place erased.fits ?_ other
    rw [← erased.nodes_eq]
    exact position_lt
  rw [erased.nodes_eq] at there
  obtain ⟨moved, moved_there, moved_level, moved_bucket, moved_le, moved_key⟩ :=
    moved_node erased.inside there other
  rw [← erased.smaller_eq] at moved_there moved_key
  rw [← erased.nodes_eq] at there moved_key
  refine ⟨expanded, jumpKey, expand_eq, moved_offset, ?_⟩
  obtain ⟨data, read, -⟩ := erased.holds.readNode moved_there
  rw [moved_offset, read]
  have no_level : moved.isEndLevel = false := moved_level.trans one.no_level
  have shared_length : (reach.take jumpNode.prefixLength ++ jumpNode.data).length =
      node.prefixLength := by
    rw [List.length_append, List.length_take_of_le one.inside, one.length_eq]
  -- What the last one that was kept reproduces is what its node shares.
  have last_prev : ∀ prev ∈ state.jumpNodes.getLast?, ∃ old old_node,
      prev = page.placed smaller.nodes old ∧ smaller.nodes[old.offset]? = some old_node ∧
        last = old.offset + 1 ∧ old.prefixLength + old.data.length = reached.length ∧
        old_node.prefixLength = reached.length ∧
        reached = (keyAt smaller.nodes old.offset).take old_node.prefixLength := by
    intro prev is_last
    rw [midway.jumpNodes_eq, List.getLast?_map] at is_last
    obtain ⟨old, old_last, rfl⟩ := Option.map_eq_some_iff.mp is_last
    obtain ⟨old_node, old_there, last_eq, sum_eq, prefix_eq, reached_eq⟩ :=
      midway.chain.last old_last
    exact ⟨old, old_node, rfl, old_there, last_eq, sum_eq, prefix_eq, reached_eq⟩
  have last_le : last ≤ movedPosition front.length jumpNode.offset :=
    midway.last_le.trans (movedPosition_le one.start_le)
  have shared_eq : (reach.take jumpNode.prefixLength ++ jumpNode.data).take moved.prefixLength =
      (keyAt smaller.nodes (movedPosition front.length jumpNode.offset)).take
        moved.prefixLength := by
    rw [one.shared_eq, moved_key, List.take_take, Nat.min_eq_left moved_le]
  obtain ⟨settled, settledKey, settle_eq, settled_offset, settled_le, settled_shared,
      settled_held⟩ :=
    @settleJump_spec page base reached (reach.take jumpNode.prefixLength ++ jumpNode.data)
      moved.prefixLength state.jumpNodes.getLast? expanded jumpKey expanded_le expanded_shared
      (by rw [shared_length]; exact moved_le) midway.reached_prefix
      (fun prev is_last => by
        obtain ⟨old, old_node, rfl, -, -, sum_eq, -⟩ := last_prev prev is_last
        exact sum_eq)
      (fun no_last => by
        rw [midway.jumpNodes_eq, List.getLast?_map, Option.map_eq_none_iff,
          List.getLast?_eq_none_iff] at no_last
        exact midway.none_kept no_last)
      (fun address below => by
        rw [same_key address (by omega)]
        exact load_getElem? midway.held (by omega))
      (fun prev is_last past _ => by
        obtain ⟨old, old_node, rfl, old_there, last_eq, -, old_shared, reached_eq⟩ :=
          last_prev prev is_last
        rw [shared_eq, moved_offset]
        refine fillKey_spec smaller erased.holds ?_ old_there moved_there no_level rfl ?_
        · omega
        · rw [old_shared]
          have held : load jumpKey 0 reached.length = reached := by
            refine Eq.trans (ByteMemory.load_congr fun address below => ?_) midway.held
            rw [Nat.zero_add]
            exact same_key address (by omega)
          rw [load_take held (Nat.min_le_right _ _)]
          have cut := congrArg (List.take (min moved.prefixLength reached.length)) reached_eq
          rw [old_shared, List.take_take, Nat.min_eq_left (Nat.min_le_right _ _)] at cut
          exact cut)
  rw [moved_offset] at settled_offset
  refine ⟨{ settled with offset := movedPosition front.length jumpNode.offset }, settledKey, moved,
    ?_, rfl, ⟨moved_there, last_le, ?_, no_level, settled_le, ?_, ?_⟩, ?_, ?_⟩
  · rw [placed]
    dsimp only
    rw [← settled_offset]
    exact settle_eq
  · exact moved_bucket.trans one.no_bucket
  · have length_eq := congrArg List.length settled_shared
    rw [List.length_append, List.length_take_of_le settled_le, List.length_take, shared_length,
      Nat.min_eq_left moved_le] at length_eq
    exact length_eq
  · rw [← shared_eq]
    exact settled_shared
  · dsimp only
    rw [settled_shared]
    exact List.take_prefix _ _
  · dsimp only
    rw [settled_shared]
    exact settled_held

/-- A jump node that still fits is kept. -/
theorem Midway.keep (erased : page.Erased bucket smaller front back removing next)
    (midway : page.Midway smaller.nodes front.length start reach base state kept last reached)
    (not_first : movedPosition front.length jumpNode.offset ≠ 0) {settled : IndexJumpNode}
    {settledKey : Nat → UInt8} {moved : IndexNode}
    (settled_eq : settled.offset = movedPosition front.length jumpNode.offset)
    (settles : JumpsTo smaller.nodes last reached settled moved)
    (shared : reached.take settled.prefixLength ++ settled.data <+:
      reach.take jumpNode.prefixLength ++ jumpNode.data)
    (held : load settledKey 0 settled.prefixLength =
      (reached.take settled.prefixLength ++ settled.data).take settled.prefixLength)
    {jumpersNewSize : Nat}
    (size_eq : (state.jumpersNewSize +
      (storedJump (page.placed smaller.nodes settled)).getJumpNodeSize) % 2 ^ 16 = jumpersNewSize)
    (size_le : jumpersNewSize ≤ page.btr_jump_size)
    (other : jumpNode.offset ≠ front.length) :
    page.Midway smaller.nodes front.length (jumpNode.offset + 1)
      (reach.take jumpNode.prefixLength ++ jumpNode.data)
      (reach.take jumpNode.prefixLength ++ jumpNode.data)
      { jumpNodes := state.jumpNodes ++ [page.placed smaller.nodes settled]
        rebuild := false
        delJumpNode := state.delJumpNode
        jumpKey := store settledKey settled.prefixLength settled.data
        jumpersNewSize := jumpersNewSize }
      (kept ++ [settled]) (settled.offset + 1)
      (reached.take settled.prefixLength ++ settled.data) := by
  have storable := erased.holds.storable moved (List.mem_of_getElem? settles.there)
  have range := placed_range (erased.holds.length_eq ▸ erased.holds.length_le) storable settles
  have size := IndexJumpNode.size_eq range
  have header_le := Btn.IndexJumpNode.length_header_le _ range
  have data_lt : settled.data.length < 2 ^ 14 := range.length_lt
  have bytes_length : (page.placed smaller.nodes settled).bytes.length =
      (storedJump (page.placed smaller.nodes settled)).header.length + settled.data.length := by
    rw [IndexJumpNode.bytes, List.length_append]
    rfl
  have old_le := midway.size_le
  have page_le := erased.holds.length_eq ▸ erased.holds.length_le
  rw [firstNode, MAX_PAGE_SIZE] at page_le
  have position_pos : 0 < jumpNode.offset := by
    rw [movedPosition] at not_first
    split_ifs at not_first <;> omega
  have appended_length : (reached.take settled.prefixLength).length = settled.prefixLength :=
    List.length_take_of_le settles.inside
  refine
    { chain := midway.chain.concat settles, jumpNodes_eq := ?_, size_eq := ?_
      size_le := size_le, held := ?_, behind := ⟨?_, ?_, ?_⟩, reached_prefix := shared
      none_kept := ?_, last_le := ?_, short := ?_, none_start := ?_, some_start := ?_
      rebuild_start := ?_ }
  · rw [midway.jumpNodes_eq, List.map_append]
    rfl
  · rw [← size_eq, Nat.mod_eq_of_lt (by omega), midway.size_eq, size, jumpBytes, jumpBytes,
      List.flatMap_append, List.length_append, List.flatMap_singleton]
  · rw [List.length_append, appended_length, ByteMemory.load_add, Nat.zero_add,
      ByteMemory.load_store, ByteMemory.load_store_apart _ (by omega), held,
      List.take_left' appended_length]
  · intro _
    rfl
  · intro rebuild
    cases rebuild
  · intro rebuild
    cases rebuild
  · intro empty
    exact absurd empty (List.append_ne_nil_of_right_ne_nil _ (List.cons_ne_nil _ _))
  · rw [settled_eq, movedPosition, movedPosition]
    split_ifs <;> omega
  · intro first
    omega
  · intro empty
    exact absurd empty (List.append_ne_nil_of_right_ne_nil _ (List.cons_ne_nil _ _))
  · intro _
    omega
  · intro rebuild
    cases rebuild

/-- The jump nodes behind the loop are those of the smaller bucket. -/
theorem rebuildJumps_keeps (erased : page.Erased bucket smaller front back removing next)
    {pointer : Nat} {rest : List IndexJumpNode} (jumps : Jumps bucket.nodes start reach rest)
    (lies : Lies page.bytes pointer (jumpBytes (rest.map (page.placed bucket.nodes))))
    (midway : page.Midway smaller.nodes front.length start reach base state kept last reached) :
    ∃ after, Jumps smaller.nodes 0 [] after ∧ after.length ≤ kept.length + rest.length ∧
      (page.rebuildJumps (page.placeOf bucket.nodes front.length)
        (page.placeOf bucket.nodes (front.length + 1)) (page.shrunk removing next) rest.length
        pointer state).jumpNodes = after.map (page.placed smaller.nodes) ∧
      (jumpBytes (after.map (page.placed smaller.nodes))).length ≤ page.btr_jump_size := by
  have stays : ∀ {start last : Nat} {reach base reached : List UInt8} {state : JumpRebuild}
      {kept : List IndexJumpNode} (more : Nat),
      page.Midway smaller.nodes front.length start reach base state kept last reached →
        ∃ after, Jumps smaller.nodes 0 [] after ∧ after.length ≤ kept.length + more ∧
          state.jumpNodes = after.map (page.placed smaller.nodes) ∧
          (jumpBytes (after.map (page.placed smaller.nodes))).length ≤ page.btr_jump_size := by
    intro start last reach base reached state kept more midway
    refine ⟨kept, midway.chain.jumps, Nat.le_add_right _ _, midway.jumpNodes_eq, ?_⟩
    rw [← midway.jumpNodes_eq, ← midway.size_eq]
    exact midway.size_le
  induction rest generalizing start last reach base reached state kept pointer with
  | nil => exact stays 0 midway
  | cons jumpNode rest ih =>
      obtain ⟨⟨node, one⟩, jumps⟩ := jumps_cons.mp jumps
      have storable := erased.storable node (List.mem_of_getElem? one.there)
      have range := placed_range erased.small storable one
      rw [List.map_cons, jumpBytes, List.flatMap_cons] at lies
      obtain ⟨first_lies, lies⟩ := ByteMemory.lies_append.mp lies
      obtain ⟨content_eq, pointer_eq⟩ := IndexJumpNode.read range first_lies
      have position_lt := (List.getElem?_eq_some_iff.mp one.there).1
      have gone_lt : front.length + 1 < bucket.nodes.length := by
        rw [erased.nodes_eq, List.length_append, List.length_cons, List.length_cons]
        omega
      have first_unshared : ∀ first ∈ bucket.nodes.head?, first.prefixLength = 0 := by
        intro first is_first
        obtain ⟨tail, nodes_eq⟩ := List.head?_eq_some_iff.mp is_first
        exact bucket.first_unshared nodes_eq
      have stays_on : (page.placed bucket.nodes jumpNode).offset <
            page.placeOf bucket.nodes front.length ∨
          page.placeOf bucket.nodes (front.length + 1) ≤
            (page.placed bucket.nodes jumpNode).offset ↔ jumpNode.offset ≠ front.length := by
        constructor
        · rintro apart same
          have less := @placeOf_lt page bucket.nodes front.length (front.length + 1)
            (Nat.lt_succ_self _) (by omega)
          rw [placed, same] at apart
          dsimp only at apart
          omega
        · intro other
          rcases Nat.lt_or_gt_of_ne other with before | behind
          · exact .inl (placeOf_lt before position_lt)
          · exact .inr (placeOf_le behind)
      rw [List.length_cons, rebuildJumps]
      generalize Btn.IndexJumpNode.readJumpNode page.bytes pointer = read at content_eq pointer_eq ⊢
      obtain ⟨read, behind⟩ := read
      dsimp only at content_eq pointer_eq ⊢
      rw [content_eq, pointer_eq]
      by_cases other : jumpNode.offset ≠ front.length
      · rw [if_pos (stays_on.mpr other)]
        obtain ⟨expanded, jumpKey, expand_eq, expanded_eq, settled, settledKey, moved, settle_eq,
          settled_eq, settles, shared, held⟩ := midway.settle erased one other
        rw [expand_eq]
        dsimp only
        split
        · rename_i first
          have first : movedPosition front.length jumpNode.offset = 0 := by
            by_contra positive
            have less := @placeOf_lt page smaller.nodes 0
              (movedPosition front.length jumpNode.offset) (Nat.pos_of_ne_zero positive)
              (by rw [erased.smaller_eq, List.length_append, List.length_cons]; omega)
            have start_eq : page.placeOf smaller.nodes 0 = page.firstNode := rfl
            omega
          have nothing : kept = [] := by
            by_contra some_kept
            have more := midway.some_start some_kept
            have start_le := one.start_le
            rw [movedPosition] at first
            split_ifs at first <;> omega
          have midway := midway.drop one first_unshared (.inr first)
            (show (page.placed bucket.nodes jumpNode).prefixLength = jumpNode.prefixLength from rfl)
            rfl (show kept ≠ [] →
              store jumpKey jumpNode.prefixLength jumpNode.data = state.jumpKey from
                fun some_kept => absurd nothing some_kept)
          obtain ⟨after, after_jumps, after_le, after_eq, after_size⟩ := ih jumps lies midway
          exact ⟨after, after_jumps, after_le.trans (by omega), after_eq, after_size⟩
        · rename_i not_first
          have not_first : movedPosition front.length jumpNode.offset ≠ 0 := by
            intro zero
            rw [expanded_eq, zero] at not_first
            exact not_first rfl
          rw [settle_eq]
          dsimp only
          split
          · obtain ⟨after, after_jumps, after_le, after_eq, after_size⟩ :=
              stays (rest.length + 1) midway
            exact ⟨after, after_jumps, after_le, after_eq, after_size⟩
          · rename_i fits
            have midway := midway.keep erased not_first settled_eq settles shared held rfl
              (Nat.not_lt.mp fits) other
            obtain ⟨after, after_jumps, after_le, after_eq, after_size⟩ := ih jumps lies midway
            rw [List.length_append, List.length_singleton] at after_le
            exact ⟨after, after_jumps, by omega, after_eq, after_size⟩
      · rw [if_neg (fun apart => other (stays_on.mp apart))]
        have midway := midway.drop one first_unshared (.inl (not_not.mp other))
          (show (page.placed bucket.nodes jumpNode).prefixLength = jumpNode.prefixLength from rfl)
          rfl (fun _ => rfl)
        obtain ⟨after, after_jumps, after_le, after_eq, after_size⟩ := ih jumps lies midway
        exact ⟨after, after_jumps, after_le.trans (by omega), after_eq, after_size⟩

end
end BtreePage
end Firebird
