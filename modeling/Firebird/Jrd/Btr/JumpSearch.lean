import Firebird.Jrd.Btr.SearchOrder

/-!
# Searching through jump nodes

The node that `find_area_start_point` returns lies on the way of a scan from the first node, and the
prefix it returns is the one that the scan has there.
-/

namespace Firebird

variable {descending retrieval : Bool}

/-! ## One node -/

/-- What a scan knows when it has come past the nodes up to one with the key `previous`. -/
def Passed (descending retrieval : Bool) (key : List UInt8) :
    Option (List UInt8) → Nat → Prop
  | none, keyPrefix => keyPrefix = 0
  | some previous, keyPrefix => compareNode descending retrieval key previous = .next keyPrefix

theorem IndexNode.key_take {node : IndexNode} {previous : List UInt8}
    (inside : node.prefixLength ≤ previous.length) :
    (node.key previous).take node.prefixLength = previous.take node.prefixLength := by
  rw [IndexNode.key, List.take_append_of_le_length (by rw [List.length_take_of_le inside]),
    List.take_take, Nat.min_self]

theorem Follows.inside {previous : Option (List UInt8)} {node : IndexNode}
    (follows : Follows descending previous node) :
    node.prefixLength ≤ (previous.getD []).length := by
  cases previous with
  | none => exact follows.le
  | some previous =>
      have shared := computePrefix_le_left previous (node.key previous)
      rw [← follows.1] at shared
      exact shared

theorem IndexNode.key_drop {node : IndexNode} {previous : List UInt8}
    (inside : node.prefixLength ≤ previous.length) :
    (node.key previous).drop node.prefixLength = node.data := by
  rw [IndexNode.key]
  exact List.drop_left' (List.length_take_of_le inside)

theorem KeyLe.take (key : List UInt8) (count : Nat) : KeyLe false (key.take count) key := by
  induction key generalizing count with
  | nil => rw [List.take_nil]; trivial
  | cons byte key ih =>
      cases count with
      | zero => rfl
      | succ count => exact .inr ⟨rfl, ih count⟩

theorem nodeOutcome_level {key : List UInt8} {node : IndexNode} {keyPrefix : Nat}
    {firstPass : Bool} (level : node.isEndLevel = true) :
    nodeOutcome descending retrieval key node keyPrefix firstPass = .stop := by
  rw [nodeOutcome, if_pos (Or.inl level)]

/-- The running prefix tells how the key compares with the next node. -/
theorem nodeOutcome_eq {key : List UInt8} {previous : Option (List UInt8)} {node : IndexNode}
    {keyPrefix : Nat} {firstPass : Bool} (no_end : node.isEndLevel = false)
    (passed : Passed descending retrieval key previous keyPrefix)
    (follows : Follows descending previous node) (first : previous = none → firstPass = true) :
    nodeOutcome descending retrieval key node keyPrefix firstPass =
      compareNode descending retrieval key (node.key (previous.getD [])) := by
  have inside := follows.inside
  have agree := node.key_take inside
  have compared : node.prefixLength = keyPrefix →
      (compareNode descending retrieval (key.drop keyPrefix) node.data).shift keyPrefix =
        compareNode descending retrieval key (node.key (previous.getD [])) := by
    intro level
    have cut := node.key_drop inside
    rw [level] at cut agree
    rw [← cut]
    refine (compareNode_drop ?_ ?_).symm
    · rw [agree]
      cases previous with
      | none => rw [passed]; rfl
      | some previous => exact compareNode_agree passed
    · cases previous with
      | none => rw [passed]; exact Nat.zero_le _
      | some previous => exact compareNode_inside passed
  rw [nodeOutcome, no_end]
  simp only [Bool.false_eq_true, false_or]
  cases previous with
  | none =>
      have start : keyPrefix = 0 := passed
      have unshared : node.prefixLength = 0 := follows
      rw [if_neg (by omega), if_pos ⟨by omega, .inr (.inr (first rfl))⟩]
      exact compared (by omega)
  | some previous =>
      obtain ⟨full, ordered⟩ := follows
      simp only [Option.getD_some] at inside agree compared ⊢
      by_cases shorter : node.prefixLength < keyPrefix
      · rw [if_pos shorter]
        cases outcome : compareNode descending retrieval key (node.key previous) with
        | stop => rfl
        | exact =>
            have same := compareNode_exact.mp outcome
            have reached := compareNode_next passed
            rw [same, ← full] at reached
            omega
        | next moved =>
            have before := compareNode_before ordered outcome
            rw [passed, ← full] at before
            have reached := Outcome.next.inj before
            omega
      · rw [if_neg shorter]
        split
        · rename_i level
          exact compared level.1
        · rename_i skipped
          symm
          rcases Nat.lt_or_eq_of_le (Nat.le_of_not_lt shorter) with longer | level
          · exact compareNode_longer passed longer inside agree.symm
          · have empty : node.data = [] := by
              refine List.eq_nil_of_length_eq_zero (Nat.eq_zero_of_not_pos fun some_data => ?_)
              exact skipped ⟨level.symm, .inr (.inl some_data)⟩
            have ascending : descending = false := by
              refine (Bool.not_eq_true _).mp fun turned => skipped ⟨level.symm, .inl turned⟩
            have cut : node.key previous = previous.take keyPrefix := by
              rw [IndexNode.key, empty, List.append_nil, level]
            subst ascending
            rw [cut] at ordered ⊢
            rw [(KeyLe.take previous keyPrefix).antisymm ordered]
            exact passed

/-! ## A scan over the nodes before the found one -/

/-- The key of the last node, after a bucket or behind the key `previous`. -/
def lastKey (previous : Option (List UInt8)) (nodes : List IndexNode) : Option (List UInt8) :=
  nodes.foldl (fun previous node => some (node.key (previous.getD []))) previous

theorem lastKey_cons (previous : Option (List UInt8)) (node : IndexNode) (rest : List IndexNode) :
    lastKey previous (node :: rest) = lastKey (some (node.key (previous.getD []))) rest := rfl

theorem Chained.head {previous : Option (List UInt8)} {node : IndexNode}
    {rest : List IndexNode} (chained : Chained descending previous (node :: rest))
    (more : rest ≠ []) :
    node.isEndLevel = false ∧ node.isEndBucket = false ∧ Follows descending previous node ∧
      Chained descending (some (node.key (previous.getD []))) rest := by
  rw [Chained] at chained
  split at chained
  · exact absurd chained.2.2 more
  · rename_i no_level
    obtain ⟨follows, chained⟩ := chained
    split at chained
    · exact absurd chained more
    · rename_i no_bucket
      exact ⟨(Bool.not_eq_true _).mp no_level, (Bool.not_eq_true _).mp no_bucket, follows, chained⟩

theorem append_cons_ne_nil {α : Type*} (front rest : List α) (node : α) :
    front ++ node :: rest ≠ [] := by
  simp

theorem Chained.follows {previous : Option (List UInt8)} {node : IndexNode}
    {rest : List IndexNode} (chained : Chained descending previous (node :: rest))
    (no_end : node.isEndLevel = false) : Follows descending previous node := by
  rw [Chained, if_neg (by rw [no_end]; exact Bool.false_ne_true)] at chained
  exact chained.1

/-- Behind its front the bucket is still in order. -/
theorem Chained.back {previous : Option (List UInt8)} {front rest : List IndexNode}
    {node : IndexNode} (chained : Chained descending previous (front ++ node :: rest)) :
    Chained descending (lastKey previous front) (node :: rest) := by
  induction front generalizing previous with
  | nil => exact chained
  | cons first front ih => exact ih (chained.head (append_cons_ne_nil _ _ _)).2.2.2

/-- If the search passes a node it passes those before it. -/
theorem Chained.passes {previous : Option (List UInt8)} {key : List UInt8}
    {front rest : List IndexNode} {first node : IndexNode} {moved : Nat}
    (chained : Chained descending previous (first :: (front ++ node :: rest)))
    (no_end : node.isEndLevel = false)
    (passes : compareNode descending retrieval key
      (node.key ((lastKey previous (first :: front)).getD [])) = .next moved) :
    ∃ earlier, compareNode descending retrieval key (first.key (previous.getD [])) =
      .next earlier := by
  induction front generalizing previous first with
  | nil =>
      have follows := (chained.head (List.cons_ne_nil _ _)).2.2.2.follows no_end
      exact ⟨_, compareNode_before follows.2 passes⟩
  | cons second front ih =>
      have chained := (chained.head (append_cons_ne_nil _ _ _)).2.2.2
      have no_level := (chained.head (append_cons_ne_nil _ _ _)).1
      obtain ⟨earlier, before⟩ := ih chained passes
      exact ⟨_, compareNode_before (chained.follows no_level).2 before⟩

/-- Apart from the contents of `value` the run depends on the prefix alone. -/
theorem findNode_congr {previous : Option (List UInt8)} {key : List UInt8} {nodes : List IndexNode}
    {pointer keyPrefix : Nat} {left_first right_first pointer_by_marker : Bool}
    {left_value right_value : Option (List UInt8)}
    (chained : Chained descending previous nodes)
    (passed : Passed descending retrieval key previous keyPrefix)
    (left_none : previous = none → left_first = true)
    (right_none : previous = none → right_first = true) :
    (findNode descending retrieval key pointer_by_marker pointer keyPrefix left_first left_value
        nodes).map Prod.fst =
      (findNode descending retrieval key pointer_by_marker pointer keyPrefix right_first
        right_value nodes).map Prod.fst := by
  induction nodes generalizing previous pointer keyPrefix left_first right_first left_value
    right_value with
  | nil => rfl
  | cons node rest ih =>
      rw [findNode, findNode]
      by_cases level : node.isEndLevel = true
      · rw [nodeOutcome_level level, nodeOutcome_level level]
        rfl
      · have no_end := (Bool.not_eq_true _).mp level
        have follows := chained.follows no_end
        rw [nodeOutcome_eq no_end passed follows left_none,
          nodeOutcome_eq no_end passed follows right_none]
        cases outcome : compareNode descending retrieval key (node.key (previous.getD [])) with
        | exact => rfl
        | stop => rfl
        | next moved =>
            simp only
            split
            · split
              · rfl
              · rfl
            · rename_i no_bucket
              rw [Chained, if_neg level, if_neg no_bucket] at chained
              refine ih chained.2 outcome ?_ ?_
              · exact fun impossible => by cases impossible
              · exact fun impossible => by cases impossible

/-- A scan that passes a node comes to it with the shorter of the two prefixes. -/
theorem findNode_skip {previous : Option (List UInt8)} {key : List UInt8}
    {front rest : List IndexNode} {node : IndexNode} {moved pointer keyPrefix : Nat}
    {firstPass pointer_by_marker : Bool} {value other : Option (List UInt8)}
    (chained : Chained descending previous (front ++ node :: rest))
    (no_end : node.isEndLevel = false)
    (passes : compareNode descending retrieval key
      (node.key ((lastKey previous front).getD [])) = .next moved)
    (passed : Passed descending retrieval key previous keyPrefix)
    (first : previous = none → firstPass = true) :
    (findNode descending retrieval key pointer_by_marker pointer keyPrefix firstPass value
        (front ++ node :: rest)).map Prod.fst =
      (findNode descending retrieval key pointer_by_marker (pointer + front.length)
        (min node.prefixLength moved) true other (node :: rest)).map Prod.fst := by
  induction front generalizing previous pointer keyPrefix firstPass value with
  | nil =>
      have reached : keyPrefix = min node.prefixLength moved := by
        have follows := chained.follows no_end
        cases previous with
        | none =>
            have start : keyPrefix = 0 := passed
            have unshared : node.prefixLength = 0 := follows
            rw [start, unshared, Nat.zero_min]
        | some previous =>
            have before := compareNode_before follows.2 passes
            rw [passed, ← follows.1] at before
            exact Outcome.next.inj before
      rw [← reached]
      exact findNode_congr chained passed first fun _ => rfl
  | cons earlier front ih =>
      obtain ⟨no_level, no_bucket, follows, later⟩ := chained.head (append_cons_ne_nil _ _ _)
      obtain ⟨newPrefix, outcome⟩ := chained.passes no_end passes
      rw [List.cons_append, findNode, nodeOutcome_eq no_level passed follows first, outcome]
      simp only [no_bucket, Bool.false_eq_true, if_false]
      rw [List.length_cons, Nat.add_comm front.length, ← Nat.add_assoc]
      refine ih later passes outcome ?_
      exact fun impossible => by cases impossible

/-! ## The contents of `value` -/

/-- The buffer, if there is one, starts with the bytes. -/
def Holds (value : Option (List UInt8)) (bytes : List UInt8) : Prop :=
  ∀ buffer ∈ value, bytes <+: buffer

theorem memcpy_begins {buffer bytes data : List UInt8} {offset : Nat} (holds : bytes <+: buffer)
    (inside : offset ≤ bytes.length) : bytes.take offset ++ data <+: memcpy buffer offset data := by
  obtain ⟨rest, rfl⟩ := holds
  rw [memcpy, List.length_append, Nat.sub_eq_zero_of_le (by omega), List.replicate_zero,
    List.append_nil, List.take_append_of_le_length inside]
  exact List.prefix_append _ _

theorem Holds.node {value : Option (List UInt8)} {previous : List UInt8} {node : IndexNode}
    (holds : Holds value (previous.take node.prefixLength))
    (inside : node.prefixLength ≤ previous.length) :
    Holds (if node.data = [] then value else value.map (memcpy · node.prefixLength node.data))
      (node.key previous) := by
  intro buffer some_buffer
  split at some_buffer
  · rename_i empty
    rw [IndexNode.key, empty, List.append_nil]
    exact holds buffer some_buffer
  · obtain ⟨old, some_old, rfl⟩ := Option.mem_map.mp some_buffer
    have written := @memcpy_begins old _ node.data node.prefixLength
      (holds old some_old) (by rw [List.length_take_of_le inside])
    rw [List.take_take, Nat.min_self] at written
    exact written

/-- At the node that is found the buffer holds its key. -/
theorem findNode_holds {previous : Option (List UInt8)} {key : List UInt8}
    {nodes : List IndexNode} {pointer keyPrefix found foundPrefix : Nat}
    {firstPass pointer_by_marker : Bool} {value after : Option (List UInt8)}
    (chained : Chained descending previous nodes)
    (holds : ∀ node ∈ nodes.head?, Holds value ((previous.getD []).take node.prefixLength))
    (run : findNode descending retrieval key pointer_by_marker pointer keyPrefix firstPass value
      nodes = .ok (some (found, foundPrefix), after)) :
    ∃ front node rest, nodes = front ++ node :: rest ∧ found = pointer + front.length ∧
      Holds after (node.key ((lastKey previous front).getD [])) := by
  induction nodes generalizing previous pointer keyPrefix firstPass value with
  | nil => cases run
  | cons node rest ih =>
      have inside : node.prefixLength ≤ (previous.getD []).length := by
        rw [Chained] at chained
        split at chained
        · rw [chained.1]
          exact Nat.zero_le _
        · exact chained.1.inside
      have picked := (holds node rfl).node inside
      have here : ∀ {newPrefix : Nat} {buffer : Option (List UInt8)},
          Holds buffer (node.key (previous.getD [])) →
          Except.ok (some (pointer, newPrefix), buffer) =
            (.ok (some (found, foundPrefix), after) : Except Fault _) →
          ∃ front last rest', node :: rest = front ++ last :: rest' ∧
            found = pointer + front.length ∧
            Holds after (last.key ((lastKey previous front).getD [])) := by
        intro newPrefix buffer holds same
        simp only [Except.ok.injEq, Prod.mk.injEq, Option.some.injEq] at same
        obtain ⟨⟨rfl, -⟩, rfl⟩ := same
        exact ⟨[], node, rest, rfl, rfl, holds⟩
      rw [findNode] at run
      split at run
      · exact here picked run
      · exact here picked run
      · split at run
        · split at run
          · exact here picked run
          · cases run
        · rename_i no_bucket
          cases rest with
          | nil => cases run
          | cons next rest =>
              obtain ⟨-, -, -, later⟩ := chained.head (List.cons_ne_nil _ _)
              have start : ∀ follower ∈ (next :: rest).head?,
                  Holds (if node.data = [] then value
                    else value.map (memcpy · node.prefixLength node.data))
                    (((some (node.key (previous.getD []))).getD []).take follower.prefixLength) :=
                fun follower _ buffer some_buffer =>
                  (List.take_prefix _ _).trans (picked buffer some_buffer)
              obtain ⟨front, last, rest', split_at, place, held⟩ := ih later start run
              refine ⟨node :: front, last, rest', ?_, ?_, held⟩
              · rw [split_at, List.cons_append]
              · rw [place, List.length_cons]
                omega

/-! ## The loop of `find_page` -/

theorem findPageNode_congr {previous : Option (List UInt8)} {key : List UInt8}
    {find_record_number : Option Nat} {nodes : List IndexNode} {previousNumber keyPrefix : Nat}
    {left_first right_first : Bool} (chained : Chained descending previous nodes)
    (passed : Passed descending retrieval key previous keyPrefix)
    (left_none : previous = none → left_first = true)
    (right_none : previous = none → right_first = true) :
    findPageNode descending retrieval key find_record_number previousNumber keyPrefix left_first
        nodes =
      findPageNode descending retrieval key find_record_number previousNumber keyPrefix right_first
        nodes := by
  induction nodes generalizing previous previousNumber keyPrefix left_first right_first with
  | nil => rfl
  | cons node rest ih =>
      rw [findPageNode, findPageNode]
      by_cases level : node.isEndLevel = true
      · rw [nodeOutcome_level level, nodeOutcome_level level]
      · have no_end := (Bool.not_eq_true _).mp level
        have follows := chained.follows no_end
        rw [nodeOutcome_eq no_end passed follows left_none,
          nodeOutcome_eq no_end passed follows right_none]
        cases outcome : compareNode descending retrieval key (node.key (previous.getD [])) with
        | exact => rfl
        | stop => rfl
        | next moved =>
            simp only
            split
            · rfl
            · rename_i no_bucket
              rw [Chained, if_neg level, if_neg no_bucket] at chained
              refine ih chained.2 outcome ?_ ?_
              · exact fun impossible => by cases impossible
              · exact fun impossible => by cases impossible

/-- At a node that is passed the number of the page before it no longer matters. -/
theorem findPageNode_skip {previous : Option (List UInt8)} {key : List UInt8}
    {find_record_number : Option Nat} {front rest : List IndexNode} {node : IndexNode}
    {moved previousNumber other keyPrefix : Nat} {firstPass : Bool}
    (chained : Chained descending previous (front ++ node :: rest))
    (no_end : node.isEndLevel = false)
    (passes : compareNode descending retrieval key
      (node.key ((lastKey previous front).getD [])) = .next moved)
    (passed : Passed descending retrieval key previous keyPrefix)
    (first : previous = none → firstPass = true) :
    findPageNode descending retrieval key find_record_number previousNumber keyPrefix firstPass
        (front ++ node :: rest) =
      findPageNode descending retrieval key find_record_number other (min node.prefixLength moved)
        true (node :: rest) := by
  induction front generalizing previous previousNumber keyPrefix firstPass with
  | nil =>
      have follows := chained.follows no_end
      have reached : keyPrefix = min node.prefixLength moved := by
        cases previous with
        | none =>
            have start : keyPrefix = 0 := passed
            have unshared : node.prefixLength = 0 := follows
            rw [start, unshared, Nat.zero_min]
        | some previous =>
            have before := compareNode_before follows.2 passes
            rw [passed, ← follows.1] at before
            exact Outcome.next.inj before
      rw [← reached, findPageNode_congr chained passed first fun _ => rfl, List.nil_append,
        findPageNode, findPageNode,
        nodeOutcome_eq no_end passed follows fun _ => rfl]
      simp only [lastKey, List.foldl_nil] at passes
      rw [passes]
  | cons earlier front ih =>
      obtain ⟨no_level, no_bucket, follows, later⟩ := chained.head (append_cons_ne_nil _ _ _)
      obtain ⟨newPrefix, outcome⟩ := chained.passes no_end passes
      rw [List.cons_append, findPageNode, nodeOutcome_eq no_level passed follows first, outcome]
      simp only [no_bucket, Bool.false_eq_true, if_false]
      exact ih later passes outcome fun impossible => by cases impossible

/-! ## Duplicates -/

/-- Neighbours with the searched key are in the order of their record numbers. -/
def RecordsOrdered (key : List UInt8) : Option (List UInt8) → List IndexNode → Prop
  | previous, first :: second :: rest =>
      (first.key (previous.getD []) = key → second.key key = key → second.isEndBucket = false →
        second.isEndLevel = false → first.recordNumber ≤ second.recordNumber) ∧
      RecordsOrdered key (some (first.key (previous.getD []))) (second :: rest)
  | _, _ => True

instance RecordsOrdered.decidable (key : List UInt8) :
    ∀ previous nodes, Decidable (RecordsOrdered key previous nodes)
  | _, [] => isTrue trivial
  | _, [_] => isTrue trivial
  | previous, first :: second :: rest =>
      have := RecordsOrdered.decidable key (some (first.key (previous.getD []))) (second :: rest)
      inferInstanceAs (Decidable ((first.key (previous.getD []) = key → second.key key = key →
        second.isEndBucket = false → second.isEndLevel = false →
          first.recordNumber ≤ second.recordNumber) ∧
        RecordsOrdered key (some (first.key (previous.getD []))) (second :: rest)))

theorem RecordsOrdered.tail {key : List UInt8} {previous : Option (List UInt8)}
    {node : IndexNode} {rest : List IndexNode}
    (ordered : RecordsOrdered key previous (node :: rest)) :
    RecordsOrdered key (some (node.key (previous.getD []))) rest := by
  cases rest with
  | nil => trivial
  | cons next rest => exact ordered.2

theorem Chained.keyLe {previous : Option (List UInt8)} {front rest : List IndexNode}
    {first node : IndexNode} (chained : Chained descending previous (first :: (front ++ node :: rest)))
    (no_end : node.isEndLevel = false) :
    KeyLe descending (first.key (previous.getD []))
      (node.key ((lastKey previous (first :: front)).getD [])) := by
  induction front generalizing previous first with
  | nil => exact ((chained.head (List.cons_ne_nil _ _)).2.2.2.follows no_end).2
  | cons second front ih =>
      have later := (chained.head (append_cons_ne_nil _ _ _)).2.2.2
      have no_level := (later.head (append_cons_ne_nil _ _ _)).1
      exact (later.follows no_level).2.trans (ih later)

/-- Nodes between two nodes with one key are duplicates of it. -/
theorem Chained.between {previous : Option (List UInt8)} {key : List UInt8}
    {front rest : List IndexNode} {first second node : IndexNode}
    (chained : Chained descending previous (first :: second :: (front ++ node :: rest)))
    (no_end : node.isEndLevel = false) (first_key : first.key (previous.getD []) = key)
    (node_key : node.key ((lastKey previous (first :: second :: front)).getD []) = key) :
    second.key key = key := by
  have later := (chained.head (List.cons_ne_nil _ _)).2.2.2
  have no_level := (later.head (append_cons_ne_nil _ _ _)).1
  have up := (later.follows no_level).2
  have down := later.keyLe no_end
  rw [Option.getD_some, first_key] at down
  rw [first_key] at up
  refine KeyLe.antisymm ?_ up
  rw [lastKey_cons, first_key] at node_key
  rw [node_key] at down
  exact down

/-- A duplicate has no bytes of its own. -/
theorem Follows.duplicate {key : List UInt8} {node : IndexNode}
    (follows : Follows descending (some key) node) (same : node.key key = key) :
    node.data = [] ∧ node.prefixLength = key.length := by
  have full := follows.1
  rw [same, computePrefix_self] at full
  refine ⟨?_, full⟩
  rw [IndexNode.key, full, List.take_length] at same
  exact List.append_right_eq_self.mp same

/-- The record numbers of duplicates are in order up to the last one. -/
theorem RecordsOrdered.le {previous : Option (List UInt8)} {key : List UInt8}
    {front rest : List IndexNode} {first node : IndexNode}
    (ordered : RecordsOrdered key previous (first :: (front ++ node :: rest)))
    (chained : Chained descending previous (first :: (front ++ node :: rest)))
    (no_end : node.isEndLevel = false) (no_bucket : node.isEndBucket = false)
    (first_key : first.key (previous.getD []) = key)
    (node_key : node.key ((lastKey previous (first :: front)).getD []) = key) :
    first.recordNumber ≤ node.recordNumber := by
  induction front generalizing previous first with
  | nil =>
      rw [lastKey_cons, first_key] at node_key
      exact ordered.1 first_key node_key no_bucket no_end
  | cons second front ih =>
      have later := (chained.head (append_cons_ne_nil _ _ _)).2.2.2
      obtain ⟨no_level, no_marker, -, -⟩ := later.head (append_cons_ne_nil _ _ _)
      have second_key := chained.between no_end first_key node_key
      have step := ordered.1 first_key second_key no_marker no_level
      refine step.trans (ih ordered.tail later ?_ node_key)
      rw [Option.getD_some, first_key]
      exact second_key

/-- The walk over duplicates goes on to the last one that has a smaller record number. -/
theorem findPageInDuplicates_skip {previous : Option (List UInt8)} {key : List UInt8}
    {front rest : List IndexNode} {first node : IndexNode}
    {findRecordNumber previousNumber other : Nat}
    (ordered : RecordsOrdered key previous (first :: (front ++ node :: rest)))
    (chained : Chained descending previous (first :: (front ++ node :: rest)))
    (no_end : node.isEndLevel = false) (no_bucket : node.isEndBucket = false)
    (first_key : first.key (previous.getD []) = key)
    (node_key : node.key ((lastKey previous (first :: front)).getD []) = key)
    (below : node.recordNumber < findRecordNumber) :
    findPageInDuplicates findRecordNumber previousNumber (first :: (front ++ node :: rest)) =
      findPageInDuplicates findRecordNumber other (node :: rest) := by
  have last : ∀ number, findPageInDuplicates findRecordNumber number (node :: rest) =
      findPageInDuplicates findRecordNumber other (node :: rest) := by
    intro number
    rw [findPageInDuplicates.eq_def, findPageInDuplicates.eq_def _ other]
    simp only [no_bucket, Bool.false_eq_true, if_false, if_neg (Nat.not_le_of_lt below)]
  have step : ∀ {before : Option (List UInt8)} {duplicate second : IndexNode}
      {more : List IndexNode} {number : Nat},
      Chained descending before (duplicate :: second :: more) →
      duplicate.recordNumber < findRecordNumber → second.isEndLevel = false →
      duplicate.key (before.getD []) = key → second.key key = key →
        findPageInDuplicates findRecordNumber number (duplicate :: second :: more) =
          findPageInDuplicates findRecordNumber duplicate.pageNumber (second :: more) := by
    intro before duplicate second more number chained smaller no_level duplicate_key second_key
    obtain ⟨-, no_marker, follows, later⟩ := chained.head (List.cons_ne_nil _ _)
    have second_follows := later.follows no_level
    rw [duplicate_key] at second_follows
    obtain ⟨empty, shared⟩ := second_follows.duplicate second_key
    have whole : key.length = duplicate.length + duplicate.prefixLength := by
      rw [← duplicate_key, IndexNode.key, List.length_append,
        List.length_take_of_le follows.inside, IndexNode.length, Nat.add_comm]
    rw [findPageInDuplicates.eq_def]
    simp only [no_marker, Bool.false_eq_true, if_false, if_neg (Nat.not_le_of_lt smaller),
      no_level, empty, shared, whole, ne_eq, not_true_eq_false, or_self]
  induction front generalizing previous first previousNumber with
  | nil =>
      have smaller := ordered.le chained no_end no_bucket first_key node_key
      rw [lastKey_cons, first_key] at node_key
      rw [List.nil_append, step chained (smaller.trans_lt below) no_end first_key node_key, last]
  | cons second front ih =>
      have smaller := ordered.le chained no_end no_bucket first_key node_key
      have later := (chained.head (append_cons_ne_nil _ _ _)).2.2.2
      have no_level := (later.head (append_cons_ne_nil _ _ _)).1
      have second_key := chained.between no_end first_key node_key
      refine (step chained (smaller.trans_lt below) no_level first_key second_key).trans ?_
      refine ih ordered.tail later ?_ node_key
      rw [Option.getD_some, first_key]
      exact second_key

/-- A search for a record number comes to the same page from any duplicate with a smaller one. -/
theorem findPageNode_duplicate {previous : Option (List UInt8)} {key : List UInt8}
    {front rest : List IndexNode} {node : IndexNode}
    {find_record_number previousNumber other keyPrefix : Nat} {firstPass : Bool}
    (ordered : RecordsOrdered key previous (front ++ node :: rest))
    (chained : Chained descending previous (front ++ node :: rest))
    (no_end : node.isEndLevel = false) (no_bucket : node.isEndBucket = false)
    (node_key : node.key ((lastKey previous front).getD []) = key)
    (below : node.recordNumber < find_record_number)
    (passed : Passed descending false key previous keyPrefix)
    (first : previous = none → firstPass = true) :
    findPageNode descending false key (some find_record_number) previousNumber keyPrefix firstPass
        (front ++ node :: rest) =
      findPageInDuplicates find_record_number other (node :: rest) := by
  induction front generalizing previous previousNumber keyPrefix firstPass with
  | nil =>
      rw [List.nil_append, findPageNode,
        nodeOutcome_eq no_end passed (chained.follows no_end) first]
      simp only [lastKey, List.foldl_nil] at node_key
      rw [compareNode_exact.mpr node_key.symm]
      simp only [exactPage]
      rw [findPageInDuplicates.eq_def, findPageInDuplicates.eq_def _ other]
      simp only [no_bucket, Bool.false_eq_true, if_false, if_neg (Nat.not_le_of_lt below)]
  | cons earlier front ih =>
      obtain ⟨no_level, no_marker, follows, later⟩ := chained.head (append_cons_ne_nil _ _ _)
      have before := chained.keyLe no_end
      rw [node_key] at before
      rw [List.cons_append, findPageNode, nodeOutcome_eq no_level passed follows first]
      rcases compareNode_le before with same | ⟨moved, outcome⟩
      · rw [compareNode_exact.mpr same.symm]
        exact findPageInDuplicates_skip ordered chained no_end no_bucket same node_key below
      · rw [outcome]
        simp only [no_marker, Bool.false_eq_true, if_false]
        exact ih ordered.tail later node_key outcome fun impossible => by cases impossible

theorem duplicates_between {previous : Option (List UInt8)} {key : List UInt8}
    {front rest : List IndexNode} {first node : IndexNode}
    (ordered : RecordsOrdered key previous (first :: (front ++ node :: rest)))
    (chained : Chained descending previous (first :: (front ++ node :: rest)))
    (no_end : node.isEndLevel = false) (no_bucket : node.isEndBucket = false)
    (first_key : first.key (previous.getD []) = key)
    (node_key : node.key ((lastKey previous (first :: front)).getD []) = key) :
    ∀ place < (first :: front).length, ∃ duplicate, (first :: front)[place]? = some duplicate ∧
      duplicate.key ((lastKey previous ((first :: front).take place)).getD []) = key ∧
      duplicate.recordNumber ≤ node.recordNumber := by
  induction front generalizing previous first with
  | nil =>
      intro place inside
      obtain rfl : place = 0 := Nat.lt_one_iff.mp inside
      exact ⟨first, rfl, first_key, ordered.le chained no_end no_bucket first_key node_key⟩
  | cons second front ih =>
      have smaller := ordered.le chained no_end no_bucket first_key node_key
      have later := (chained.head (append_cons_ne_nil _ _ _)).2.2.2
      have second_key := chained.between no_end first_key node_key
      intro place inside
      cases place with
      | zero => exact ⟨first, rfl, first_key, smaller⟩
      | succ place =>
          refine ih ordered.tail later ?_ node_key place (Nat.lt_of_succ_lt_succ inside)
          rw [Option.getD_some, first_key]
          exact second_key

/-- A scan stops at the first duplicate, and all nodes up to the given one are duplicates with a
smaller record number. -/
theorem findNode_duplicate {previous : Option (List UInt8)} {key : List UInt8}
    {front rest : List IndexNode} {node : IndexNode}
    {find_record_number pointer keyPrefix : Nat} {firstPass pointer_by_marker : Bool}
    {value : Option (List UInt8)}
    (ordered : RecordsOrdered key previous (front ++ node :: rest))
    (chained : Chained descending previous (front ++ node :: rest))
    (no_end : node.isEndLevel = false) (no_bucket : node.isEndBucket = false)
    (node_key : node.key ((lastKey previous front).getD []) = key)
    (below : node.recordNumber < find_record_number)
    (passed : Passed descending false key previous keyPrefix)
    (first : previous = none → firstPass = true) :
    ∃ skipped foundPrefix, skipped ≤ front.length ∧
      (findNode descending false key pointer_by_marker pointer keyPrefix firstPass value
        (front ++ node :: rest)).map Prod.fst = .ok (some (pointer + skipped, foundPrefix)) ∧
      ∀ place < front.length, skipped ≤ place → ∃ duplicate, front[place]? = some duplicate ∧
        duplicate.key ((lastKey previous (front.take place)).getD []) = key ∧
        duplicate.recordNumber < find_record_number := by
  induction front generalizing previous pointer keyPrefix firstPass value with
  | nil =>
      refine ⟨0, keyPrefix, Nat.le_refl _, ?_, fun _ inside => absurd inside (Nat.not_lt_zero _)⟩
      rw [List.nil_append, findNode, nodeOutcome_eq no_end passed (chained.follows no_end) first]
      simp only [lastKey, List.foldl_nil] at node_key
      rw [compareNode_exact.mpr node_key.symm]
      rfl
  | cons earlier front ih =>
      obtain ⟨no_level, no_marker, follows, later⟩ := chained.head (append_cons_ne_nil _ _ _)
      have before := chained.keyLe no_end
      rw [node_key] at before
      rw [List.cons_append, findNode, nodeOutcome_eq no_level passed follows first]
      rcases compareNode_le before with same | ⟨moved, outcome⟩
      · refine ⟨0, keyPrefix, Nat.zero_le _, ?_, ?_⟩
        · rw [compareNode_exact.mpr same.symm]
          rfl
        · intro place inside _
          obtain ⟨duplicate, there, duplicate_key, smaller⟩ :=
            duplicates_between ordered chained no_end no_bucket same node_key place inside
          exact ⟨duplicate, there, duplicate_key, smaller.trans_lt below⟩
      · rw [outcome]
        simp only [no_marker, Bool.false_eq_true, if_false]
        obtain ⟨skipped, foundPrefix, inside, found, duplicates⟩ :=
          @ih _ (pointer + 1) moved (Firebird.passed descending earlier keyPrefix firstPass)
            (if earlier.data = [] then value
              else value.map (memcpy · earlier.prefixLength earlier.data))
            ordered.tail later node_key outcome fun impossible => by cases impossible
        refine ⟨skipped + 1, foundPrefix, Nat.succ_le_succ inside, ?_, ?_⟩
        · rw [found, Nat.add_assoc, Nat.add_comm 1]
        · intro place bound above
          cases place with
          | zero => exact absurd above (Nat.not_succ_le_zero _)
          | succ place =>
              exact duplicates place (Nat.lt_of_succ_lt_succ bound) (Nat.le_of_succ_le_succ above)

end Firebird
