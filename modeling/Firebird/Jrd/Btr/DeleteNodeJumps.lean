import Firebird.Jrd.Btr.DeleteNodeEntry

/-!
# Jump nodes of a bucket that has lost a node

A jump node holds the bytes that its node shares with the key before.  When the jump node before it
changes, these bytes are taken from the removed jump node or read again from the nodes in between.
-/

namespace Firebird

open ByteMemory (load store copy Lies)
open Btn (stored storedJump)

variable {descending : Bool}

namespace Bucket

variable (bucket : Bucket descending)

/-- Only the last node is a marker. -/
theorem live_before {front rest : List IndexNode} {node : IndexNode}
    (nodes_eq : bucket.nodes = front ++ node :: rest) (more : rest ≠ []) :
    node.isEndLevel = false ∧ node.isEndBucket = false := by
  rcases bucket.chained with chained | ⟨-, first, tail, split, degenerate, chained⟩
  · rw [nodes_eq] at chained
    obtain ⟨no_level, no_bucket, -⟩ := chained.back.head more
    exact ⟨no_level, no_bucket⟩
  · rw [nodes_eq] at split
    cases front with
    | nil =>
        obtain ⟨rfl, -⟩ := List.cons.inj split
        exact ⟨degenerate.2.2.2, degenerate.2.2.1⟩
    | cons earlier front =>
        obtain ⟨rfl, rfl⟩ := List.cons.inj split
        obtain ⟨no_level, no_bucket, -⟩ := chained.back.head more
        exact ⟨no_level, no_bucket⟩

theorem live_at {position : Nat} {node : IndexNode}
    (there : bucket.nodes[position]? = some node) (more : position + 1 < bucket.nodes.length) :
    node.isEndLevel = false ∧ node.isEndBucket = false := by
  obtain ⟨front, rest, nodes_eq, rfl⟩ := split_at there
  refine bucket.live_before nodes_eq fun empty => ?_
  rw [nodes_eq, empty, List.length_append, List.length_singleton] at more
  exact absurd more (Nat.lt_irrefl _)

/-- A node that is no marker has one behind it. -/
theorem follower {front rest : List IndexNode} {node : IndexNode}
    (nodes_eq : bucket.nodes = front ++ node :: rest) (no_level : node.isEndLevel = false)
    (no_bucket : node.isEndBucket = false) : rest ≠ [] := by
  have behind : ∀ {previous : Option (List UInt8)},
      Chained descending previous (node :: rest) → rest ≠ [] := by
    intro previous chained empty
    rw [Chained, no_level, no_bucket, empty] at chained
    exact chained.2
  rcases bucket.chained with chained | ⟨-, first, tail, split, degenerate, chained⟩
  · rw [nodes_eq] at chained
    exact behind chained.back
  · rw [nodes_eq] at split
    cases front with
    | nil =>
        obtain ⟨rfl, rfl⟩ := List.cons.inj split
        intro empty
        rw [empty] at chained
        exact chained
    | cons earlier front =>
        obtain ⟨rfl, rfl⟩ := List.cons.inj split
        exact behind chained.back

theorem keyAt_succ {nodes : List IndexNode} {position : Nat} {second : IndexNode}
    (there : nodes[position + 1]? = some second) :
    keyAt nodes (position + 1) = second.key (keyAt nodes position) := by
  rw [keyAt, keyAt, List.take_add_one, there, List.foldl_append]
  rfl

/-- A node shares bytes with the key before it, and adds its own. -/
theorem shared_inside {position : Nat} {second : IndexNode}
    (there : bucket.nodes[position + 1]? = some second) (no_level : second.isEndLevel = false) :
    second.prefixLength ≤ (keyAt bucket.nodes position).length := by
  obtain ⟨front, rest, nodes_eq, position_eq⟩ := split_at there
  have inside := bucket.inside nodes_eq no_level
  have front_eq : bucket.nodes.take (position + 1) = front := by
    rw [nodes_eq, position_eq, List.take_left]
  rw [lastKey_getD, Option.getD_none, ← front_eq] at inside
  exact inside

end Bucket

namespace BtreePage

variable {page : BtreePage} {nodes : List IndexNode}

/-- The page holds these nodes behind its table of jump nodes. -/
structure Holds (page : BtreePage) (nodes : List IndexNode) : Prop where
  nodes_lie : Lies page.bytes page.firstNode (nodesBytes page.leafPage nodes)
  length_eq : page.btr_length = page.firstNode + (nodesBytes page.leafPage nodes).length
  length_le : page.btr_length ≤ MAX_PAGE_SIZE
  storable : ∀ node ∈ nodes, node.Storable page.leafPage

theorem Stores.holds {jumpNodes : List IndexJumpNode} (stores : page.Stores nodes jumpNodes) :
    page.Holds nodes :=
  ⟨stores.nodes_lie, stores.length_eq, stores.length_le, stores.storable⟩

theorem placeOf_succ {position : Nat} {node : IndexNode} (there : nodes[position]? = some node) :
    page.placeOf nodes (position + 1) =
      page.placeOf nodes position + (node.bytes page.leafPage).length := by
  rw [placeOf, placeOf, List.take_add_one, there, nodesBytes_append, List.length_append, Nat.add_assoc]
  simp [nodesBytes]

theorem placeOf_le {first last : Nat} (le : first ≤ last) :
    page.placeOf nodes first ≤ page.placeOf nodes last := by
  obtain ⟨more, rfl⟩ := Nat.exists_eq_add_of_le le
  rw [placeOf, placeOf, List.take_add, nodesBytes_append, List.length_append, ← Nat.add_assoc]
  exact Nat.le_add_right _ _

/-- Places of different nodes are different. -/
theorem placeOf_lt {first last : Nat} (less : first < last) (inside : first < nodes.length) :
    page.placeOf nodes first < page.placeOf nodes last := by
  have there := List.getElem?_eq_getElem inside
  have next := @placeOf_succ page nodes first _ there
  have positive := IndexNode.bytes_pos page.leafPage nodes[first]
  have le := @placeOf_le page nodes (first + 1) last less
  omega

/-- A node of the page is read at its place. -/
theorem Holds.readNode (holds : page.Holds nodes) {position : Nat} {node : IndexNode}
    (there : nodes[position]? = some node) :
    ∃ data, page.readNode (page.placeOf nodes position) =
        ({ stored node with nodePointer := page.placeOf nodes position, data := data },
          page.placeOf nodes (position + 1)) ∧
      load page.bytes data node.length = node.data := by
  obtain ⟨front, rest, nodes_eq, position_eq⟩ := split_at there
  have front_eq : nodes.take position = front := by rw [nodes_eq, position_eq, List.take_left]
  have lies := holds.nodes_lie
  rw [nodes_eq, nodesBytes_append, nodesBytes_cons, ByteMemory.lies_append,
    ByteMemory.lies_append, ← front_eq] at lies
  obtain ⟨data, read, loaded, -⟩ :=
    (holds.storable node (List.mem_of_getElem? there)).read lies.2.1
  refine ⟨data, ?_, loaded⟩
  rw [placeOf_succ there]
  exact read

theorem load_take {memory : Nat → UInt8} {place length shorter : Nat} {cells : List UInt8}
    (loaded : load memory place length = cells) (le : shorter ≤ length) :
    load memory place shorter = cells.take shorter := by
  rw [← loaded, ByteMemory.take_load _ _ le]

/-- A jump key with the shared bytes of a node has all of its bytes after the copy. -/
theorem copied_key {key : List UInt8} {node : IndexNode} {newPrefix : Nat}
    {memory jumpKey : Nat → UInt8} {data : Nat}
    (key_eq : key.take node.prefixLength ++ node.data = key)
    (key_length : key.length = node.prefixLength + node.length)
    (loaded : load memory data node.length = node.data)
    (held : load jumpKey 0 (min newPrefix node.prefixLength) =
      key.take (min newPrefix node.prefixLength)) :
    load (if node.prefixLength < newPrefix ∧ node.length ≠ 0 then
        copy memory data jumpKey node.prefixLength
          (min (newPrefix - node.prefixLength) node.length)
      else jumpKey) 0 (min newPrefix key.length) = key.take (min newPrefix key.length) := by
  split
  · rename_i copies
    have whole : min newPrefix key.length =
        node.prefixLength + min (newPrefix - node.prefixLength) node.length := by omega
    have split_key : ∀ more, key.take (node.prefixLength + more) =
        key.take node.prefixLength ++ node.data.take more := by
      intro more
      have front_length : (key.take node.prefixLength).length = node.prefixLength :=
        List.length_take_of_le (by omega)
      calc key.take (node.prefixLength + more)
          = (key.take node.prefixLength ++ node.data).take
              ((key.take node.prefixLength).length + more) := by rw [key_eq, front_length]
        _ = key.take node.prefixLength ++ node.data.take more := List.take_length_add_append more
    rw [Nat.min_eq_right copies.1.le] at held
    rw [whole, ByteMemory.load_add, Nat.zero_add, ByteMemory.load_copy_start _ _ (Nat.le_refl _),
      ByteMemory.load_copy_apart _ _ (by omega), held, load_take loaded (Nat.min_le_right _ _),
      split_key]
  · rename_i nothing
    have whole : min newPrefix key.length = min newPrefix node.prefixLength := by omega
    rw [whole, held]

theorem load_of_cells {memory : Nat → UInt8} {cells : List UInt8} {count : Nat}
    (count_le : count ≤ cells.length)
    (same : ∀ address < count, some (memory address) = cells[address]?) :
    load memory 0 count = cells.take count := by
  refine List.ext_getElem? fun address => ?_
  rcases Nat.lt_or_ge address count with before | behind
  · rw [List.getElem?_take_of_lt before, ← same address before, load, List.getElem?_map,
      List.getElem?_range before, Option.map_some, Nat.zero_add]
  · rw [List.getElem?_eq_none (by rw [ByteMemory.length_load]; exact behind),
      List.getElem?_eq_none (by rw [List.length_take]; omega)]

/-- The bytes of the key that nodes share with a later one are in the jump key after the walk. -/
theorem fillKey_spec (bucket : Bucket descending) (holds : page.Holds bucket.nodes)
    {newPrefix first last : Nat} {first_node last_node : IndexNode} (le : first ≤ last)
    (first_there : bucket.nodes[first]? = some first_node)
    (last_there : bucket.nodes[last]? = some last_node) (no_level : last_node.isEndLevel = false)
    (prefix_eq : last_node.prefixLength = newPrefix) {jumpKey : Nat → UInt8}
    (held : load jumpKey 0 (min newPrefix first_node.prefixLength) =
      (keyAt bucket.nodes first).take (min newPrefix first_node.prefixLength)) :
    load (page.fillKey newPrefix (page.placeOf bucket.nodes last)
        (page.placeOf bucket.nodes first) jumpKey) 0 newPrefix =
      (keyAt bucket.nodes last).take newPrefix := by
  obtain ⟨distance, rfl⟩ := Nat.exists_eq_add_of_le le
  induction distance generalizing first first_node jumpKey with
  | zero =>
      obtain rfl := Option.some.inj (first_there.symm.trans last_there)
      rw [Nat.add_zero, fillKey, if_neg (Nat.lt_irrefl _)]
      rwa [prefix_eq, Nat.min_self] at held
  | succ distance ih =>
      have inside : first + (distance + 1) < bucket.nodes.length :=
        (List.getElem?_eq_some_iff.mp last_there).1
      have next_there := List.getElem?_eq_getElem (by omega : first + 1 < bucket.nodes.length)
      generalize bucket.nodes[first + 1] = next_node at next_there
      have less : page.placeOf bucket.nodes first <
          page.placeOf bucket.nodes (first + (distance + 1)) := placeOf_lt (by omega) (by omega)
      obtain ⟨data, read, loaded⟩ := holds.readNode first_there
      have first_live := bucket.live_at first_there (by omega)
      have next_no_level : next_node.isEndLevel = false := by
        rcases Nat.eq_zero_or_pos distance with rfl | more
        · obtain rfl := Option.some.inj (next_there.symm.trans last_there)
          exact no_level
        · exact (bucket.live_at next_there (by omega)).1
      obtain ⟨key_eq, key_length⟩ := bucket.keyAt_take first_there first_live.1
      have next_inside := bucket.shared_inside next_there next_no_level
      have next_key := Bucket.keyAt_succ next_there
      have filled := @copied_key (keyAt bucket.nodes first) first_node newPrefix page.bytes jumpKey
        data key_eq key_length loaded held
      have shorter : load (if first_node.prefixLength < newPrefix ∧ first_node.length ≠ 0 then
            copy page.bytes data jumpKey first_node.prefixLength
              (min (newPrefix - first_node.prefixLength) first_node.length)
          else jumpKey) 0 (min newPrefix next_node.prefixLength) =
          (keyAt bucket.nodes (first + 1)).take (min newPrefix next_node.prefixLength) := by
        have shared : (keyAt bucket.nodes (first + 1)).take next_node.prefixLength =
            (keyAt bucket.nodes first).take next_node.prefixLength := by
          rw [next_key, IndexNode.key_take next_inside]
        have within : min (min newPrefix next_node.prefixLength)
            (min newPrefix (keyAt bucket.nodes first).length) =
              min newPrefix next_node.prefixLength := by omega
        rw [load_take filled (by omega), List.take_take, within, ← List.take_take,
          ← List.take_take, shared]
      rw [fillKey, if_pos less, read]
      dsimp only
      rw [show first + (distance + 1) = first + 1 + distance by omega] at last_there ⊢
      exact ih next_there shorter (Nat.le_add_right _ _) last_there

/-! ## One jump node -/

theorem take_behind {front back : List UInt8} {count more : Nat} (length_eq : front.length = count)
    (le : count ≤ more) : (front ++ back).take more = front ++ back.take (more - count) := by
  rw [List.take_append, List.take_of_length_le (length_eq ▸ le), length_eq]

/-- What a jump node before reproduces, when the next jump node was compressed: the bytes before a
removed jump node, with what is to be read of it. -/
structure Behind (state : JumpRebuild) (base reach : List UInt8) : Prop where
  steady : state.rebuild = false → base = reach
  prefix_le : state.rebuild = true → state.delJumpNode.prefixLength ≤ base.length
  removed : state.rebuild = true →
    base.take state.delJumpNode.prefixLength ++ state.delJumpNode.data = reach

/-- The place of a node when another one is gone. -/
def movedOffset (offsetDeletePoint offsetNextPoint delta offset : Nat) : Nat :=
  if offset = offsetNextPoint then offsetDeletePoint
  else if offsetDeletePoint < offset then offset - delta
  else offset

/-- The jump node gets back the bytes that it shared with a removed one. -/
theorem expandJump_spec {state : JumpRebuild} {base reach : List UInt8}
    (behind : Behind state base reach) (offsetDeletePoint offsetNextPoint delta : Nat)
    {jumpNode : IndexJumpNode} (inside : jumpNode.prefixLength ≤ reach.length) :
    ∃ expanded jumpKey,
      expandJump offsetDeletePoint offsetNextPoint delta state jumpNode = (expanded, jumpKey) ∧
        expanded.offset = movedOffset offsetDeletePoint offsetNextPoint delta jumpNode.offset ∧
        expanded.prefixLength ≤ base.length ∧
        base.take expanded.prefixLength ++ expanded.data =
          reach.take jumpNode.prefixLength ++ jumpNode.data ∧
        ∀ address < expanded.prefixLength, jumpKey address = state.jumpKey address := by
  rw [expandJump]
  dsimp only
  split
  · rename_i longer
    have base_le := behind.prefix_le longer.1
    have reach_eq := behind.removed longer.1
    have base_length : (base.take state.delJumpNode.prefixLength).length =
        state.delJumpNode.prefixLength := List.length_take_of_le base_le
    refine ⟨_, _, rfl, rfl, ?_, ?_, fun address before => ByteMemory.store_apart _ (.inl before)⟩
    · dsimp only
      omega
    · dsimp only
      have kept : jumpNode.prefixLength -
          (jumpNode.prefixLength - state.delJumpNode.prefixLength) =
            state.delJumpNode.prefixLength := by omega
      have cut : reach.take jumpNode.prefixLength =
          base.take state.delJumpNode.prefixLength ++ state.delJumpNode.data.take
            (jumpNode.prefixLength - state.delJumpNode.prefixLength) := by
        rw [← reach_eq, take_behind base_length longer.2.le]
      rw [kept, cut, List.append_assoc]
  · rename_i not_longer
    refine ⟨_, _, rfl, rfl, ?_, ?_, fun _ _ => rfl⟩
    all_goals dsimp only
    · cases rebuild : state.rebuild with
      | false => rwa [behind.steady rebuild]
      | true =>
          have := behind.prefix_le rebuild
          have : ¬state.delJumpNode.prefixLength < jumpNode.prefixLength := fun longer =>
            not_longer ⟨rebuild, longer⟩
          omega
    · cases rebuild : state.rebuild with
      | false => rw [behind.steady rebuild]
      | true =>
          have base_le := behind.prefix_le rebuild
          have short : ¬state.delJumpNode.prefixLength < jumpNode.prefixLength := fun longer =>
            not_longer ⟨rebuild, longer⟩
          have base_length : (base.take state.delJumpNode.prefixLength).length =
              state.delJumpNode.prefixLength := List.length_take_of_le base_le
          rw [← behind.removed rebuild, List.take_append_of_le_length (by omega), List.take_take,
            Nat.min_eq_left (by omega)]

/-- The jump node gets no longer than what its node shares. -/
theorem clipJump_spec {base shared : List UInt8} {newPrefix : Nat} {jumpNode : IndexJumpNode}
    (inside : jumpNode.prefixLength ≤ base.length)
    (shared_eq : base.take jumpNode.prefixLength ++ jumpNode.data = shared)
    (short : newPrefix ≤ shared.length) :
    (clipJump newPrefix jumpNode).offset = jumpNode.offset ∧
      (clipJump newPrefix jumpNode).prefixLength ≤ jumpNode.prefixLength ∧
      (clipJump newPrefix jumpNode).prefixLength + (clipJump newPrefix jumpNode).data.length =
        newPrefix ∧
      base.take (clipJump newPrefix jumpNode).prefixLength ++ (clipJump newPrefix jumpNode).data =
        shared.take newPrefix := by
  have base_length : (base.take jumpNode.prefixLength).length = jumpNode.prefixLength :=
    List.length_take_of_le inside
  have shared_length := congrArg List.length shared_eq
  rw [List.length_append, base_length] at shared_length
  rw [clipJump]
  split
  · split
    · rename_i far
      refine ⟨rfl, far.le, rfl, ?_⟩
      dsimp only
      rw [List.append_nil, ← shared_eq, List.take_append_of_le_length (by omega), List.take_take,
        Nat.min_eq_left far.le]
    · rename_i near
      refine ⟨rfl, Nat.le_refl _, ?_, ?_⟩
      · dsimp only
        rw [List.length_take]
        omega
      · dsimp only
        rw [← shared_eq, take_behind base_length (by omega)]
  · have whole : newPrefix = shared.length := by omega
    exact ⟨rfl, Nat.le_refl _, by omega, by rw [shared_eq, whole, List.take_length]⟩

/-- The jump node begins inside of what the one before reproduces. -/
theorem settleJump_spec {base reach shared : List UInt8} {newPrefix : Nat}
    {jumpPrev : Option IndexJumpNode} {jumpNode : IndexJumpNode} {jumpKey : Nat → UInt8}
    (inside : jumpNode.prefixLength ≤ base.length)
    (shared_eq : base.take jumpNode.prefixLength ++ jumpNode.data = shared)
    (short : newPrefix ≤ shared.length) (reach_within : reach <+: base)
    (reach_length : ∀ prev ∈ jumpPrev, prev.prefixLength + prev.data.length = reach.length)
    (none_before : jumpPrev = none → base = [])
    (held : ∀ address < min jumpNode.prefixLength reach.length,
      some (jumpKey address) = reach[address]?)
    (filled : ∀ prev ∈ jumpPrev, reach.length < jumpNode.prefixLength → reach.length < newPrefix →
      load (page.fillKey newPrefix jumpNode.offset prev.offset jumpKey) 0 newPrefix =
        shared.take newPrefix) :
    ∃ settled settledKey,
      page.settleJump newPrefix jumpPrev jumpNode jumpKey = (settled, settledKey) ∧
        settled.offset = jumpNode.offset ∧ settled.prefixLength ≤ reach.length ∧
        reach.take settled.prefixLength ++ settled.data = shared.take newPrefix ∧
        load settledKey 0 settled.prefixLength =
          (shared.take newPrefix).take settled.prefixLength := by
  obtain ⟨offset_eq, clip_le, clip_sum, clip_shared⟩ := clipJump_spec inside shared_eq short
  have not_second : ¬((clipJump newPrefix jumpNode).prefixLength +
        (clipJump newPrefix jumpNode).data.length < newPrefix ∧
      (jumpPrev.map fun jumpPrev => jumpPrev.prefixLength + jumpPrev.data.length).any
        (fun reached => newPrefix ≤ reached) = true) := by
    rintro ⟨less, -⟩
    omega
  have take_clip : ∀ count ≤ (clipJump newPrefix jumpNode).prefixLength,
      (shared.take newPrefix).take count = base.take count := by
    intro count le
    rw [← clip_shared, List.take_append_of_le_length (by rw [List.length_take]; omega),
      List.take_take, Nat.min_eq_left le]
  obtain ⟨base_rest, base_eq⟩ := reach_within
  have take_reach : ∀ count ≤ reach.length, base.take count = reach.take count := by
    intro count le
    rw [← base_eq, List.take_append_of_le_length le]
  rw [settleJump]
  dsimp only
  rw [if_neg not_second]
  generalize clipJump newPrefix jumpNode = clipped at *
  split
  · rename_i far
    obtain ⟨prev, rfl, past⟩ : ∃ prev, jumpPrev = some prev ∧ reach.length < clipped.prefixLength := by
      rcases far with not_sum | any
      · exact absurd clip_sum not_sum
      · cases jumpPrev with
        | none => cases any
        | some prev =>
            refine ⟨prev, rfl, ?_⟩
            rw [← reach_length prev rfl]
            simpa using any
    have reached := reach_length prev rfl
    have loaded := filled prev rfl (by omega) (by omega)
    rw [Option.map_some, Option.getD_some, reached, offset_eq, Option.map_some, Option.getD_some]
    have reach_eq : (shared.take newPrefix).take reach.length = reach := by
      rw [take_clip _ past.le, take_reach _ (Nat.le_refl _), List.take_length]
    refine ⟨_, _, rfl, rfl, Nat.le_refl _, ?_,
      load_take loaded (show reach.length ≤ newPrefix by omega)⟩
    have rest := @ByteMemory.drop_load _
      (page.fillKey newPrefix jumpNode.offset prev.offset jumpKey) 0 reach.length newPrefix (by omega)
    rw [loaded, Nat.zero_add] at rest
    dsimp only
    rw [List.take_length, ← rest]
    calc reach ++ (shared.take newPrefix).drop reach.length
        = (shared.take newPrefix).take reach.length ++
            (shared.take newPrefix).drop reach.length := by rw [reach_eq]
      _ = shared.take newPrefix := List.take_append_drop _ _
  · rename_i near
    have within : clipped.prefixLength ≤ reach.length := by
      cases jumpPrev with
      | none =>
          have := none_before rfl
          rw [this, List.length_nil] at inside
          omega
      | some prev =>
          rw [← reach_length prev rfl]
          by_contra past
          exact near (Or.inr (by simpa using past))
    refine ⟨clipped, jumpKey, rfl, offset_eq, within, ?_, ?_⟩
    · rw [← take_reach _ within, clip_shared]
    · rw [take_clip _ (Nat.le_refl _), take_reach _ within]
      exact load_of_cells within fun address before => held address (by omega)

end BtreePage
end Firebird
