import Firebird.Jrd.Btr.JumpSearch

/-!
# The start point in the jump-node area

`find_area_start_point` returns the first node, a node that a scan passes, or, in a search for a record
number, a duplicate of the key with a smaller one.
-/

namespace Firebird

variable {descending retrieval : Bool}

/-! ## Keys by position -/

theorem lastKey_getD (previous : Option (List UInt8)) (nodes : List IndexNode) :
    (lastKey previous nodes).getD [] =
      nodes.foldl (fun previous node => node.key previous) (previous.getD []) := by
  induction nodes generalizing previous with
  | nil => rfl
  | cons node rest ih => rw [lastKey_cons, ih]; rfl

theorem keyAt_append (front rest : List IndexNode) (node : IndexNode) :
    keyAt (front ++ node :: rest) front.length = node.key ((lastKey none front).getD []) := by
  rw [keyAt, lastKey_getD, List.take_append, List.take_of_length_le (Nat.le_succ _),
    Nat.add_sub_cancel_left, List.take_succ_cons, List.take_zero, List.foldl_append]
  rfl

theorem split_at {nodes : List IndexNode} {place : Nat} {node : IndexNode}
    (there : nodes[place]? = some node) :
    ∃ front rest, nodes = front ++ node :: rest ∧ place = front.length := by
  obtain ⟨inside, value⟩ := List.getElem?_eq_some_iff.mp there
  refine ⟨nodes.take place, nodes.drop (place + 1), ?_, ?_⟩
  · rw [← value, List.getElem_cons_drop, List.take_append_drop]
  · rw [List.length_take_of_le inside.le]

namespace Bucket

variable (bucket : Bucket descending)

/-- In an ascending index the degenerate node is in order. -/
theorem chained_ascending {nodes : List IndexNode} {first : IndexNode}
    (degenerate : first.Degenerate) (chained : Chained false none nodes) :
    Chained false none (first :: nodes) := by
  obtain ⟨unshared, empty, no_bucket, no_level⟩ := degenerate
  rw [Chained, no_level, no_bucket]
  simp only [Bool.false_eq_true, if_false]
  refine ⟨unshared, ?_⟩
  have nothing : first.key [] = [] := by rw [IndexNode.key, empty, List.take_nil, List.append_nil]
  rw [Option.getD_none, nothing]
  cases nodes with
  | nil => exact chained
  | cons node rest =>
      rw [Chained] at chained ⊢
      split
      · rename_i level
        rw [if_pos level] at chained
        exact chained
      · rename_i level
        rw [if_neg level] at chained
        refine ⟨⟨?_, ?_⟩, chained.2⟩
        · have start : node.prefixLength = 0 := chained.1
          rw [start]
          rfl
        · cases node.key [] with
          | nil => trivial
          | cons byte key => rfl

/-- Nodes other than the marker of the level share bytes that are there. -/
theorem inside {front rest : List IndexNode} {node : IndexNode}
    (nodes : bucket.nodes = front ++ node :: rest) (no_end : node.isEndLevel = false) :
    node.prefixLength ≤ ((lastKey none front).getD []).length := by
  rcases bucket.chained with chained | ⟨-, first, tail, split, degenerate, chained⟩
  · rw [nodes] at chained
    exact (chained.back.follows no_end).inside
  · rw [nodes] at split
    cases front with
    | nil =>
        obtain ⟨rfl, -⟩ := List.cons.inj split
        rw [degenerate.1]
        exact Nat.zero_le _
    | cons earlier front =>
        obtain ⟨rfl, rfl⟩ := List.cons.inj split
        have bound := (chained.back.follows no_end).inside
        have nothing : earlier.key [] = [] := by
          rw [IndexNode.key, degenerate.2.1, List.take_nil, List.append_nil]
        rw [lastKey_getD] at bound ⊢
        rw [List.foldl_cons, Option.getD_none, nothing]
        exact bound

theorem first_unshared {first : IndexNode} {rest : List IndexNode}
    (nodes : bucket.nodes = first :: rest) : first.prefixLength = 0 := by
  rcases bucket.chained with chained | ⟨-, degenerate, tail, split, empty, chained⟩
  · rw [nodes, Chained] at chained
    split at chained
    · exact chained.1
    · exact chained.1
  · rw [nodes] at split
    obtain ⟨rfl, -⟩ := List.cons.inj split
    exact empty.1

theorem keyAt_take {place : Nat} {node : IndexNode} (there : bucket.nodes[place]? = some node)
    (no_end : node.isEndLevel = false) :
    (keyAt bucket.nodes place).take node.prefixLength ++ node.data = keyAt bucket.nodes place ∧
      (keyAt bucket.nodes place).length = node.prefixLength + node.length := by
  obtain ⟨front, rest, nodes, rfl⟩ := split_at there
  have bound := bucket.inside nodes no_end
  have key : keyAt bucket.nodes front.length = node.key ((lastKey none front).getD []) := by
    rw [nodes, keyAt_append]
  rw [key, IndexNode.key_take bound]
  refine ⟨rfl, ?_⟩
  rw [IndexNode.key, List.length_append, List.length_take_of_le bound, IndexNode.length]

theorem keyAt_le (ascending : descending = false) {left right : Nat} {first second : IndexNode}
    (before : left < right) (first_there : bucket.nodes[left]? = some first)
    (second_there : bucket.nodes[right]? = some second) (no_end : second.isEndLevel = false) :
    KeyLe false (keyAt bucket.nodes left) (keyAt bucket.nodes right) := by
  subst ascending
  have chained : Chained false none bucket.nodes := by
    rcases bucket.chained with chained | ⟨-, first, tail, split, degenerate, chained⟩
    · exact chained
    · rw [split]
      exact chained_ascending degenerate chained
  obtain ⟨front, rest, nodes, rfl⟩ := split_at first_there
  have later : rest[right - front.length - 1]? = some second := by
    rw [nodes, List.getElem?_append_right before.le] at second_there
    rw [← second_there]
    obtain ⟨gap, rfl⟩ : ∃ gap, right = front.length + (gap + 1) := ⟨right - front.length - 1, by omega⟩
    simp
  obtain ⟨middle, last, split, place⟩ := split_at later
  rw [split] at nodes
  have right_place : right = (front ++ first :: middle).length := by
    rw [List.length_append, List.length_cons]
    omega
  have second_split : bucket.nodes = (front ++ first :: middle) ++ second :: last := by
    rw [nodes, List.append_assoc, List.cons_append]
  have left_key : keyAt bucket.nodes front.length = first.key ((lastKey none front).getD []) := by
    rw [nodes, keyAt_append]
  have right_key : keyAt bucket.nodes right =
      second.key ((lastKey (lastKey none front) (first :: middle)).getD []) := by
    rw [right_place, second_split, keyAt_append, lastKey, lastKey, lastKey, List.foldl_append]
  rw [left_key, right_key]
  rw [nodes] at chained
  exact chained.back.keyLe no_end

/-! ## The loops -/

/-- What a start point is. -/
def Landed (retrieval : Bool) (key : List UInt8) (find_record_number : Option Nat)
    (area : Area) : Prop :=
  area.start = 0 ∧ area.returnPrefix = 0 ∨
    ∃ node, bucket.nodes[area.start]? = some node ∧ node.isEndBucket = false ∧
      node.isEndLevel = false ∧
      ((∃ moved, compareNode descending retrieval key (keyAt bucket.nodes area.start) =
          .next moved ∧ area.returnPrefix = min node.prefixLength moved) ∨
        keyAt bucket.nodes area.start = key ∧ area.returnPrefix = node.prefixLength ∧
          ∃ number, find_record_number = some number ∧ node.recordNumber < number)

/-- Without a record number the buffer holds the bytes that the node at the start shares. -/
def Prepared (find_record_number : Option Nat) (area : Area) : Prop :=
  find_record_number = none → ∀ node, bucket.nodes[area.start]? = some node →
    Holds area.value ((keyAt bucket.nodes area.start).take node.prefixLength)

/-- What is known about the jump node before. -/
structure Reached (retrieval : Bool) (key : List UInt8) (reach : List UInt8) (area : Area) :
    Prop where
  held : reach <+: area.jumpKey
  compared : reach = [] ∧ area.testPrefix = 0 ∨
    ∃ previous, reach <+: previous ∧
      compareNode descending retrieval key previous = .next area.testPrefix

theorem walkDuplicates_landed {find_record_number : Nat} {key reach : List UInt8}
    {jumpNode : IndexJumpNode} {node : IndexNode} {area : Area} {rest : List IndexJumpNode}
    (landed : bucket.Landed retrieval key (some find_record_number) area)
    (there : bucket.nodes[jumpNode.offset]? = some node) (no_bucket : node.isEndBucket = false)
    (no_end : node.isEndLevel = false) (same : keyAt bucket.nodes jumpNode.offset = key)
    (reaches : jumpNode.prefixLength + jumpNode.data.length = node.prefixLength)
    (shared : reach = key.take node.prefixLength)
    (jumps : Jumps bucket.nodes (jumpNode.offset + 1) reach rest) :
    ∃ final, bucket.walkDuplicates find_record_number key.length jumpNode node area rest =
        .ok final ∧ bucket.Landed retrieval key (some find_record_number) final := by
  induction rest generalizing jumpNode node area reach with
  | nil => exact ⟨area, rfl, landed⟩
  | cons next rest ih =>
      rw [walkDuplicates]
      split
      · exact ⟨area, rfl, landed⟩
      · rename_i smaller
        have moved : bucket.Landed retrieval key (some find_record_number)
            { area with
              start := jumpNode.offset
              returnPrefix := jumpNode.prefixLength + jumpNode.data.length } :=
          .inr ⟨node, there, no_bucket, no_end,
            .inr ⟨same, reaches, find_record_number, rfl, Nat.lt_of_not_le smaller⟩⟩
        rw [Jumps] at jumps
        split at jumps
        · exact absurd jumps id
        · rename_i nextNode next_there
          obtain ⟨after, next_bucket, next_end, bound, next_reaches, next_shared, jumps⟩ := jumps
          simp only [next_there]
          split
          · exact ⟨_, rfl, moved⟩
          · rename_i duplicate
            simp only [not_or, not_and, not_not] at duplicate
            obtain ⟨empty, level, long, jump_level, -, -⟩ := duplicate
            have whole := (bucket.keyAt_take next_there next_end).1
            have short := (bucket.keyAt_take there no_end).2
            rw [same] at short
            have reach_length : reach.length = node.prefixLength := by
              rw [shared]
              exact List.length_take_of_le (by omega)
            have no_bytes : next.data = [] := List.eq_nil_of_length_eq_zero (by omega)
            have next_key : keyAt bucket.nodes next.offset = key.take node.prefixLength := by
              rw [empty, List.append_nil] at whole
              rw [← whole, ← next_shared, no_bytes, List.append_nil,
                List.take_of_length_le (by omega), shared]
            have next_same : keyAt bucket.nodes next.offset = key := by
              rw [next_key]
              rcases Bool.dichotomy descending with ascending | turned
              · have up := bucket.keyAt_le ascending after there next_there next_end
                rw [same, next_key] at up
                exact (KeyLe.take key _).antisymm up
              · have full := long turned
                exact List.take_of_length_le (by omega)
            refine ih moved next_there next_bucket next_end next_same next_reaches ?_ jumps
            rw [next_shared, next_same]

/-- The comparison, or its omission, tells how the key compares with the node of the jump node. -/
theorem jumpOutcome_eq {key reach jumped : List UInt8} {jumpPrefix : Nat} {area : Area}
    (reached : @Reached descending retrieval key reach area)
    (bound : jumpPrefix ≤ reach.length)
    (reach_key : reach.take jumpPrefix = jumped.take jumpPrefix) :
    (if jumpPrefix ≤ area.testPrefix then
        (compareNode descending retrieval (key.drop jumpPrefix) (jumped.drop jumpPrefix)).shift
          jumpPrefix
      else
        .next area.testPrefix) =
      compareNode descending retrieval key jumped := by
  obtain ⟨-, ⟨nothing, zero⟩ | ⟨previous, begins, passes⟩⟩ := reached
  · obtain rfl : jumpPrefix = 0 := by
      rw [nothing] at bound
      exact Nat.le_zero.mp bound
    rw [if_pos (Nat.zero_le _)]
    exact (@compareNode_drop descending retrieval 0 key jumped rfl (Nat.zero_le _)).symm
  · have previous_key : previous.take jumpPrefix = jumped.take jumpPrefix := by
      obtain ⟨tail, rfl⟩ := begins
      rw [← reach_key, List.take_append_of_le_length bound]
    split
    · rename_i near
      have agree := congrArg (List.take jumpPrefix) (compareNode_agree passes)
      rw [List.take_take, List.take_take, Nat.min_eq_left near, previous_key] at agree
      exact (compareNode_drop agree (near.trans (compareNode_inside passes))).symm
    · rename_i far
      exact (compareNode_longer passes (Nat.lt_of_not_le far) (bound.trans begins.length_le)
        previous_key).symm

theorem findArea_landed {key reach : List UInt8} {find_record_number : Option Nat} {start : Nat}
    {area : Area} {jumpNodes : List IndexJumpNode}
    (jumps : Jumps bucket.nodes start reach jumpNodes)
    (landed : bucket.Landed retrieval key find_record_number area)
    (prepared : bucket.Prepared find_record_number area)
    (reached : @Reached descending retrieval key reach area) :
    ∃ final, bucket.findArea retrieval key find_record_number area jumpNodes = .ok final ∧
      bucket.Landed retrieval key find_record_number final ∧
      bucket.Prepared find_record_number final := by
  induction jumpNodes generalizing start reach area with
  | nil => exact ⟨area, rfl, landed, prepared⟩
  | cons jumpNode rest ih =>
      rw [Jumps] at jumps
      split at jumps
      · exact absurd jumps id
      · rename_i node there
        obtain ⟨-, no_bucket, no_end, bound, reaches, shared, jumps⟩ := jumps
        obtain ⟨whole, size⟩ := bucket.keyAt_take there no_end
        have first := @memcpy_begins area.jumpKey reach jumpNode.data jumpNode.prefixLength
          reached.held bound
        rw [shared] at first
        have second := @memcpy_begins _ _ node.data node.prefixLength first
          (by rw [List.length_take]; omega)
        rw [List.take_take, Nat.min_self, whole] at second
        have jumpKey := List.prefix_iff_eq_take.mp second
        rw [size] at jumpKey
        have reach_key : reach.take jumpNode.prefixLength =
            (keyAt bucket.nodes jumpNode.offset).take jumpNode.prefixLength := by
          have cut := congrArg (List.take jumpNode.prefixLength) shared
          rw [List.take_left' (List.length_take_of_le bound), List.take_take,
            Nat.min_eq_left (by omega)] at cut
          exact cut
        rw [findArea, there]
        simp only
        rw [← jumpKey]
        rw [jumpOutcome_eq reached bound reach_key]
        cases compares : compareNode descending retrieval key (keyAt bucket.nodes jumpNode.offset)
          with
        | stop => exact ⟨area, rfl, landed, prepared⟩
        | exact =>
            simp only [exactArea]
            have same := compareNode_exact.mp compares
            cases find_record_number with
            | none => exact ⟨area, rfl, landed, prepared⟩
            | some find_record_number =>
                obtain ⟨final, run, landed⟩ := bucket.walkDuplicates_landed landed there no_bucket
                  no_end same.symm reaches (by rw [shared, ← same]) jumps
                rw [← size, ← same]
                exact ⟨final, run, landed, fun impossible => by cases impossible⟩
        | next testPrefix =>
            refine ih jumps
              (.inr ⟨node, there, no_bucket, no_end, .inl ⟨testPrefix, compares, ?_⟩⟩) ?_ ⟨?_, ?_⟩
            · rw [reaches]
            · intro _ other other_there buffer some_buffer
              obtain rfl := Option.some.inj (there.symm.trans other_there)
              simp only at some_buffer
              split at some_buffer
              · rename_i nothing
                rw [← reaches, nothing]
                exact List.nil_prefix
              · obtain ⟨old, -, rfl⟩ := Option.mem_map.mp some_buffer
                have part : (keyAt bucket.nodes jumpNode.offset).take node.prefixLength =
                    (memcpy (memcpy area.jumpKey jumpNode.prefixLength jumpNode.data)
                      node.prefixLength node.data).take node.prefixLength := by
                  have cut := List.prefix_iff_eq_take.mp
                    ((List.take_prefix node.prefixLength _).trans second)
                  rw [List.length_take_of_le (by omega)] at cut
                  exact cut
                rw [reaches, ← part]
                exact @memcpy_begins old [] _ 0 List.nil_prefix (Nat.le_refl _)
            · rw [shared]
              exact (List.take_prefix _ _).trans second
            · rw [shared]
              exact .inr ⟨_, List.take_prefix _ _, compares⟩

theorem findAreaStartPoint_landed (key : List UInt8) (value : Option (List UInt8))
    (find_record_number : Option Nat) :
    ∃ area, bucket.findAreaStartPoint retrieval key value find_record_number = .ok area ∧
      bucket.Landed retrieval key find_record_number area ∧
      bucket.Prepared find_record_number area := by
  refine bucket.findArea_landed bucket.jumps (.inl ⟨rfl, rfl⟩) ?_ ⟨List.nil_prefix, .inl ⟨rfl, rfl⟩⟩
  intro _ node there buffer _
  obtain ⟨rest, nodes⟩ := List.head?_eq_some_iff.mp (List.head?_eq_getElem? ▸ there)
  rw [bucket.first_unshared nodes]
  exact List.nil_prefix

end Bucket

end Firebird
