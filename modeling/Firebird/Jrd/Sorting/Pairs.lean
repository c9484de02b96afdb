import Mathlib
import Firebird.Jrd.Sorting.Reads

/-!
# The pass over the pairs

`quick` leaves intervals of at most two pointers.  Each of them is put in order when the pass comes
to it, and the pass does not disturb what is in order before it.  Records with the same key are
compared sooner or later, and then beyond their keys.
-/

namespace Firebird

namespace SortBuffer

/-- What the pass over the pairs does to one pair. -/
def orderPair (length : Nat) (buffer : SortBuffer) (i : Nat) : SortBuffer :=
  if buffer.head (i + 1) ≤ buffer.head i ∧ buffer.compareRecords length i (i + 1) = .gt then
    buffer.swap i (i + 1)
  else buffer

section

variable {length : Nat} {buffer : SortBuffer} {intervals : List (Nat × Nat)} {i : Nat}

theorem orderPairs_succ (left : Nat) :
    orderPairs length buffer i (left + 1) =
      orderPairs length (orderPair length buffer i) (i + 1) left :=
  rfl

theorem orderPair_rearranged : Rearranged i (i + 1) buffer (orderPair length buffer i) := by
  rw [orderPair]
  split
  · exact swap_rearranged (Nat.le_refl _) (Nat.le_succ _) (Nat.le_succ _) (Nat.le_refl _)
  · exact .refl _ _ _

theorem WellFormed.orderPair (wellFormed : buffer.WellFormed length) (first : 1 ≤ i)
    (last : i + 1 ≤ buffer.count) : (orderPair length buffer i).WellFormed length := by
  rw [SortBuffer.orderPair]
  split
  · exact wellFormed.swap first (Nat.le_of_succ_le last) (Nat.le_succ_of_le first) last
  · exact wellFormed

theorem orderPair_ordered (wellFormed : buffer.WellFormed length) (first : 1 ≤ i)
    (last : i + 1 ≤ buffer.count) :
    (orderPair length buffer i).value i ≤ (orderPair length buffer i).value (i + 1) := by
  obtain ⟨more, not_more, -⟩ := @WellFormed.compare length buffer wellFormed i (i + 1) first
    (Nat.le_of_succ_le last) (Nat.le_succ_of_le first) last
  rw [orderPair]
  split
  · rename_i swapped
    rw [swap_value_left, swap_value_right]
    exact more swapped.2
  · rename_i stays
    by_cases low : buffer.head (i + 1) ≤ buffer.head i
    · exact not_more fun greater => stays ⟨low, greater⟩
    · exact (lt_of_headD_lt (not_le.mp low)).le

/-- A swap puts the two records of an interval in order, or exchanges records with the same
contents. -/
theorem Pending.orderPair_cases (pending : Pending length buffer intervals) (first : 1 ≤ i)
    (last : i + 1 ≤ buffer.count) :
    (∀ number, (orderPair length buffer i).value number = buffer.value number) ∨
      ∃ interval ∈ intervals, interval.1 ≤ i ∧ i + 1 ≤ interval.2 := by
  rcases pending.ordered i (i + 1) first (Nat.lt_succ_self i) last with ordered | inside
  · refine .inl fun number => ?_
    rw [orderPair]
    split
    · rename_i swapped
      obtain ⟨more, -⟩ := @WellFormed.compare length buffer pending.wellFormed i (i + 1) first
        (Nat.le_of_succ_le last) (Nat.le_succ_of_le first) last
      have same : buffer.value i = buffer.value (i + 1) := le_antisymm ordered (more swapped.2)
      rcases eq_or_ne number i with rfl | not_first
      · rw [swap_value_left, same]
      · rcases eq_or_ne number (i + 1) with rfl | not_second
        · rw [swap_value_right, same]
        · exact swap_value_other not_first not_second
    · rfl
  · exact .inr inside

theorem Settled.orderPair {relation : List UInt32 → List UInt32 → Prop}
    (settled : Settled relation buffer intervals) (pending : Pending length buffer intervals)
    (short : ∀ interval ∈ intervals, interval.2 < interval.1 + 2) (first : 1 ≤ i)
    (last : i + 1 ≤ buffer.count) : Settled relation (orderPair length buffer i) intervals := by
  have moved := @orderPair_rearranged length buffer i
  rcases pending.orderPair_cases first last with same | ⟨interval, member, low, high⟩
  · intro number other begins less ends
    rw [moved.count_eq] at ends
    rw [same, same]
    exact settled number other begins less ends
  · have bound := short interval member
    obtain rfl : interval = (i, i + 1) := Prod.ext (by simp only; omega) (by simp only; omega)
    have front := List.perm_cons_erase member
    have disjoint := (pending.perm front).disjoint
    exact ((settled.perm front).rearrange (List.pairwise_cons.mp disjoint).1 first last moved).perm
      front.symm

theorem Pending.orderPair (pending : Pending length buffer intervals)
    (short : ∀ interval ∈ intervals, interval.2 < interval.1 + 2) (first : 1 ≤ i)
    (last : i + 1 ≤ buffer.count) : Pending length (orderPair length buffer i) intervals where
  wellFormed := pending.wellFormed.orderPair first last
  inside := by
    intro interval member
    rw [orderPair_rearranged.count_eq]
    exact pending.inside interval member
  disjoint := pending.disjoint
  ordered := Settled.orderPair pending.ordered pending short first last

/-- Neighbours before the pair stay related. -/
theorem Settled.neighbours_kept {relation : List UInt32 → List UInt32 → Prop}
    (settled : Settled relation buffer intervals) (pending : Pending length buffer intervals)
    (short : ∀ interval ∈ intervals, interval.2 < interval.1 + 2) (first : 1 ≤ i)
    (last : i + 1 ≤ buffer.count) {number : Nat} (begins : 1 ≤ number) (before : number < i)
    (related : relation (buffer.value number) (buffer.value (number + 1))) :
    relation ((SortBuffer.orderPair length buffer i).value number)
      ((SortBuffer.orderPair length buffer i).value (number + 1)) := by
  have moved := @orderPair_rearranged length buffer i
  rcases pending.orderPair_cases first last with same | ⟨interval, member, low, high⟩
  · rw [same, same]
    exact related
  · rcases Nat.lt_or_eq_of_le (Nat.succ_le_of_lt before) with apart | adjacent
    · rw [moved.value_outside (.inl before), moved.value_outside (.inl apart)]
      exact related
    · have count := moved.count_eq
      rcases settled.orderPair pending short first last number (number + 1) begins
        (Nat.lt_succ_self _) (by omega) with ordered | ⟨other, inside, under, beyond⟩
      · exact ordered
      · have bound := short interval member
        have limit := short other inside
        have differ : other ≠ interval := by
          rintro rfl
          omega
        have disjoint := (pending.perm (List.perm_cons_erase member)).disjoint
        have far := (List.pairwise_cons.mp disjoint).1 other ((List.mem_erase_of_ne differ).mpr inside)
        omega

/-- The pass beyond the pairs puts all pointers in order. -/
theorem orderPairs_spec {left : Nat} (pending : Pending length buffer intervals)
    (short : ∀ interval ∈ intervals, interval.2 < interval.1 + 2) (first : 1 ≤ i)
    (all : i + left = buffer.count)
    (done : ∀ number, 1 ≤ number → number < i → buffer.value number ≤ buffer.value (number + 1)) :
    let after := orderPairs length buffer i left
    after.WellFormed length ∧ Rearranged 1 buffer.count buffer after ∧
      ∀ number, 1 ≤ number → number < buffer.count →
        after.value number ≤ after.value (number + 1) := by
  induction left generalizing buffer i with
  | zero =>
      refine ⟨pending.wellFormed, .refl _ _ _, fun number begins ends => ?_⟩
      exact done number begins (by omega)
  | succ left ih =>
      intro after
      have last : i + 1 ≤ buffer.count := by omega
      have moved := @orderPair_rearranged length buffer i
      have next := pending.orderPair short first last
      obtain ⟨wellFormed, rearranged, ordered⟩ := @ih (orderPair length buffer i) (i + 1) next
        (Nat.le_succ_of_le first) (by rw [moved.count_eq]; omega) (by
          intro number begins before
          rcases Nat.lt_or_eq_of_le (Nat.le_of_lt_succ before) with earlier | rfl
          · exact Settled.neighbours_kept pending.ordered pending short first last begins earlier
              (done number begins earlier)
          · exact orderPair_ordered pending.wellFormed first last)
      rw [moved.count_eq] at rearranged ordered
      exact ⟨wellFormed, (moved.mono first last).trans rearranged, ordered⟩

theorem ordered_of_neighbours {value : Nat → List UInt32} {count : Nat}
    (neighbours : ∀ number, 1 ≤ number → number < count → value number ≤ value (number + 1))
    {low high : Nat} (first : 1 ≤ low) (less : low ≤ high) (last : high ≤ count) :
    value low ≤ value high := by
  induction high with
  | zero => omega
  | succ high ih =>
      rcases Nat.lt_or_eq_of_le less with inside | rfl
      · exact (ih (Nat.le_of_lt_succ inside) (by omega)).trans (neighbours high (by omega) last)
      · exact le_refl _

/-- `sortBuffer` sorts the pointers, keeps the pointers back and does not exceed its stacks. -/
theorem sortBuffer_spec (wellFormed : buffer.WellFormed length) (few : buffer.count < 2 ^ 32) :
    ∃ after, buffer.sortBuffer length = .ok after ∧ after.WellFormed length ∧
      Rearranged 1 buffer.count buffer after ∧
      ∀ low high, 1 ≤ low → low ≤ high → high ≤ buffer.count →
        after.value low ≤ after.value high := by
  obtain ⟨middle, final, ⟨run, pending, short, moved, -, -⟩⟩ := quick_spec wellFormed few
  have count := moved.count_eq
  refine ⟨orderPairs length middle 1 (middle.count - 1), ?_, ?_⟩
  · rw [sortBuffer, quick, run]
    rfl
  · rcases Nat.eq_zero_or_pos buffer.count with none | some
    · rw [count, none]
      exact ⟨pending.wellFormed, by rwa [none] at moved, fun _ _ _ _ _ => by omega⟩
    · obtain ⟨formed, rearranged, ordered⟩ := @orderPairs_spec length middle final 1
        (middle.count - 1) pending short (Nat.le_refl 1) (by omega) fun _ _ _ => by omega
      rw [count] at formed rearranged ordered
      rw [count]
      exact ⟨formed, moved.trans rearranged, fun low high first less last =>
        ordered_of_neighbours ordered first less last⟩

/-! ## What the pass reads -/

variable {keyLength : Nat}

theorem pairsReads_succ (left : Nat) :
    pairsReads length buffer i (left + 1) =
      (if buffer.head (i + 1) ≤ buffer.head i then [buffer.recordsRead length i (i + 1)] else []) ++
        pairsReads length (orderPair length buffer i) (i + 1) left :=
  rfl

/-- The comparison of one pair stays within the keys if and only if they are different. -/
theorem pairReads_le (wellFormed : buffer.WellFormed length) (some_long : 1 ≤ keyLength)
    (room : keyLength + 2 ≤ length) (first : 1 ≤ i) (last : i + 1 ≤ buffer.count) :
    (∀ read ∈ if buffer.head (i + 1) ≤ buffer.head i then [buffer.recordsRead length i (i + 1)] else [],
      read ≤ keyLength) ↔ Differ keyLength (buffer.value i) (buffer.value (i + 1)) := by
  split
  · rw [List.forall_mem_singleton, wellFormed.recordsRead_le room first (Nat.le_of_succ_le last)
      (Nat.le_succ_of_le first) last]
  · rename_i low
    refine ⟨fun _ => .of_head some_long (not_le.mp low).ne, fun _ _ member => ?_⟩
    exact absurd member List.not_mem_nil

theorem Differ.orderPair (differ : Differ keyLength (buffer.value i) (buffer.value (i + 1))) :
    Differ keyLength ((SortBuffer.orderPair length buffer i).value i)
      ((SortBuffer.orderPair length buffer i).value (i + 1)) := by
  rw [SortBuffer.orderPair]
  split
  · rw [swap_value_left, swap_value_right]
    exact differ.symm
  · exact differ

/-- If the pass stays within the keys, then all neighbours have different keys. -/
theorem pairsReads_told {left : Nat} (some_long : 1 ≤ keyLength) (room : keyLength + 2 ≤ length)
    (pending : Pending length buffer intervals)
    (short : ∀ interval ∈ intervals, interval.2 < interval.1 + 2) (first : 1 ≤ i)
    (all : i + left = buffer.count) (settled : Settled (Differ keyLength) buffer intervals)
    (done : ∀ number, 1 ≤ number → number < i →
      Differ keyLength (buffer.value number) (buffer.value (number + 1)))
    (reads : ∀ read ∈ pairsReads length buffer i left, read ≤ keyLength) :
    ∀ number, 1 ≤ number → number < buffer.count →
      Differ keyLength ((orderPairs length buffer i left).value number)
        ((orderPairs length buffer i left).value (number + 1)) := by
  induction left generalizing buffer i with
  | zero => exact fun number begins ends => done number begins (by omega)
  | succ left ih =>
      have last : i + 1 ≤ buffer.count := by omega
      have count := (@orderPair_rearranged length buffer i).count_eq
      rw [pairsReads_succ, List.forall_mem_append, pairReads_le pending.wellFormed some_long room first
        last] at reads
      rw [← count]
      refine @ih (orderPair length buffer i) (i + 1) (pending.orderPair short first last)
        (Nat.le_succ_of_le first) (by omega) (settled.orderPair pending short first last) ?_ reads.2
      intro number begins before
      rcases Nat.lt_or_eq_of_le (Nat.le_of_lt_succ before) with earlier | rfl
      · exact settled.neighbours_kept pending short first last begins earlier
          (done number begins earlier)
      · exact reads.1.orderPair

/-- The pass stays within the keys if they are different. -/
theorem pairsReads_le {left : Nat} (some_long : 1 ≤ keyLength) (room : keyLength + 2 ≤ length)
    (wellFormed : buffer.WellFormed length) (first : 1 ≤ i) (all : i + left = buffer.count)
    (distinct : Settled (Differ keyLength) buffer []) :
    ∀ read ∈ pairsReads length buffer i left, read ≤ keyLength := by
  induction left generalizing buffer i with
  | zero => exact fun read member => absurd member List.not_mem_nil
  | succ left ih =>
      have last : i + 1 ≤ buffer.count := by omega
      have moved := @orderPair_rearranged length buffer i
      rw [pairsReads_succ, List.forall_mem_append, pairReads_le wellFormed some_long room first last]
      constructor
      · rcases distinct i (i + 1) first (Nat.lt_succ_self i) last with differ | ⟨_, member, -⟩
        · exact differ
        · exact absurd member List.not_mem_nil
      · exact ih (wellFormed.orderPair first last) (Nat.le_succ_of_le first)
          (by rw [moved.count_eq]; omega) (distinct.of_distinct (moved.mono first last))

/-- `sortBuffer` sorts the records, and its comparisons read nothing behind their keys. -/
def SortsByKeys (buffer : SortBuffer) (length keyLength : Nat) : Prop :=
  (∃ after, buffer.sortBuffer length = .ok after ∧ after.WellFormed length ∧
    Rearranged 1 buffer.count buffer after ∧
    ∀ low high, 1 ≤ low → low ≤ high → high ≤ buffer.count →
      after.value low ≤ after.value high) ∧
    ∀ read ∈ buffer.sortBufferReads length, read ≤ keyLength

/-- The comparisons stay within the keys if and only if no two records have the same key. -/
theorem sortBuffer_sortsByKeys_iff (wellFormed : buffer.WellFormed length)
    (few : buffer.count < 2 ^ 32) (some_long : 1 ≤ keyLength) (room : keyLength + 2 ≤ length) :
    buffer.SortsByKeys length keyLength ↔
      ∀ low high, 1 ≤ low → low < high → high ≤ buffer.count →
        Differ keyLength (buffer.value low) (buffer.value high) := by
  obtain ⟨middle, final, ⟨run, pending, short, moved, told, reads⟩⟩ := quick_spec wellFormed few
  have count := moved.count_eq
  have quick_eq : buffer.quick length = .ok middle := run
  rw [SortsByKeys, and_iff_right (sortBuffer_spec wellFormed few), sortBufferReads, quick_eq,
    List.forall_mem_append]
  constructor
  · rintro ⟨within, pairs_within⟩ low high first less last
    have start : Settled (Differ keyLength) buffer ([(1, buffer.count)] ++ []) :=
      fun low high first _ last => .inr ⟨(1, buffer.count), List.mem_cons_self, first, last⟩
    have settled := told keyLength some_long room start within
    have neighbours := @pairsReads_told length middle final 1 keyLength (middle.count - 1) some_long
      room pending short (Nat.le_refl 1) (by omega) settled (fun _ _ _ => by omega) pairs_within
    obtain ⟨-, rearranged, ordered⟩ := @orderPairs_spec length middle final 1
      (middle.count - 1) pending short (Nat.le_refl 1) (by omega) fun _ _ _ => by omega
    generalize orderPairs length middle 1 (middle.count - 1) = after at neighbours rearranged ordered
    have distinct : Settled (Differ keyLength) after [] := by
      intro low high first less last
      rw [rearranged.count_eq] at last
      refine .inl ((neighbours low first (by omega)).across (ordered low first (by omega)) ?_)
      exact ordered_of_neighbours ordered (by omega) less last
    rw [count] at rearranged
    have whole := moved.trans rearranged
    have before := distinct.of_distinct (by rw [whole.count_eq]; exact whole.symm)
    rcases before low high first less last with differ | ⟨_, member, -⟩
    · exact differ
    · exact absurd member List.not_mem_nil
  · intro differ
    have distinct : Settled (Differ keyLength) buffer [] :=
      fun low high first less last => .inl (differ low high first less last)
    refine ⟨reads keyLength some_long room distinct, ?_⟩
    dsimp only
    rw [count]
    rcases Nat.eq_zero_or_pos buffer.count with none | some
    · rw [none]
      exact fun read member => absurd member List.not_mem_nil
    · exact pairsReads_le some_long room pending.wellFormed (Nat.le_refl 1) (by omega)
        (distinct.of_distinct moved)

end

/-- Two records of two longwords. -/
def twoRecords (first second : List UInt32) : SortBuffer where
  count := 2
  pointers := fun number =>
    match number with
    | 0 => .low
    | 1 => .record 0
    | 2 => .record 1
    | _ => .high
  sr_bckptr := fun address => some (address + 1)
  sort_record := fun address => if address = 0 then first else second
  m_first_pointer := 0
  beyond := 0

theorem twoRecords_wellFormed {first second : List UInt32} (first_length : first.length = 2)
    (second_length : second.length = 2) : (twoRecords first second).WellFormed 4 := by
  refine ⟨fun number low high => ?_, fun address inside => ?_, by decide, rfl⟩
  · have bound : number ≤ 2 := high
    rcases (by omega : number = 1 ∨ number = 2) with rfl | rfl
    · exact ⟨0, rfl, Nat.two_pos, rfl⟩
    · exact ⟨1, rfl, Nat.one_lt_two, rfl⟩
  · have bound : address < 2 := inside
    rcases (by omega : address = 0 ∨ address = 1) with rfl | rfl
    · exact congrArg (· + 2) first_length
    · exact congrArg (· + 2) second_length

theorem sortBuffer_sortsByKeys_iff_twoRecords :
    (twoRecords [7, 2] [7, 1]).SortsByKeys 4 2 := by
  refine (sortBuffer_sortsByKeys_iff (twoRecords_wellFormed rfl rfl) (by decide) (by decide)
    (by decide)).mpr fun low high first less last => ?_
  have bound : high ≤ 2 := last
  obtain rfl : low = 1 := by omega
  obtain rfl : high = 2 := by omega
  exact fun same => absurd same (by decide)

/-- The comparison of two records with the same contents goes on with what is behind them. -/
theorem not_sortsByKeys : ¬∀ (buffer : SortBuffer) (length keyLength : Nat),
    buffer.WellFormed length → buffer.count < 2 ^ 32 → 1 ≤ keyLength → keyLength + 2 ≤ length →
      buffer.SortsByKeys length keyLength := by
  intro sorts
  have within := (sorts (twoRecords [7, 1] [7, 1]) 4 2 (twoRecords_wellFormed rfl rfl) (by decide)
    (by decide) (by decide)).2
  exact absurd (within 3 (by decide)) (by decide)

end SortBuffer

end Firebird
