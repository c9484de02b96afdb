import Mathlib
import Firebird.Jrd.Sorting.Quick

/-!
# What the comparisons read

A comparison stops at the first longword in which two records differ.  `quick` compares the record
that it partitions an interval with to all others in it, so it stays within the keys if and only if
all of these keys are different.
-/

namespace Firebird

namespace SortBuffer

/-- The longwords that a comparison reads of each of two records. -/
def longsRead : Nat → List UInt32 → List UInt32 → Nat
  | tl + 1, p :: ps, q :: qs => if p = q then longsRead tl ps qs + 1 else 1
  | _, _, _ => 0

/-- The longwords that the comparison of the records at two pointers reads. -/
def recordsRead (buffer : SortBuffer) (length left right : Nat) : Nat :=
  longsRead (length - 1) (buffer.longs left) (buffer.longs right)

/-- The comparisons of `skipLow`. -/
def skipLowReads (buffer : SortBuffer) (length r i : Nat) : Nat → List Nat
  | 0 => []
  | left + 1 =>
      buffer.recordsRead length i r ::
        if buffer.compareRecords length i r = .gt then []
        else skipLowReads buffer length r (i + 1) left

/-- The comparisons of `skipHigh`. -/
def skipHighReads (buffer : SortBuffer) (length r j : Nat) : Nat → List Nat
  | 0 => []
  | left + 1 =>
      buffer.recordsRead length j r ::
        if buffer.compareRecords length j r = .lt then []
        else skipHighReads buffer length r (j - 1) left

/-- The comparisons of `partition`. -/
def partitionReads (length r upper : Nat) (key : UInt32) : Nat → SortBuffer → Nat → Nat → List Nat
  | 0, _, _, _ => []
  | rounds + 1, buffer, i, j =>
      match buffer.scanLow key i (buffer.count + 2 - i) with
      | .error _ => []
      | .ok i =>
          let low := if buffer.head i = key then buffer.skipLowReads length r i (upper + 1 - i) else []
          let i := if buffer.head i = key then buffer.skipLow length r i (upper + 1 - i) else i
          let j := buffer.scanHigh key j
          let high := if buffer.head j = key then buffer.skipHighReads length r j (j - r) else []
          let j := if buffer.head j = key then buffer.skipHigh length r j (j - r) else j
          low ++ high ++
            if j ≤ i then []
            else partitionReads length r upper key rounds (buffer.swap i j) (i + 1) (j - 1)

/-- The comparisons of `quickLoop`. -/
def quickReads (length : Nat) : Nat → List (Nat × Nat) → SortBuffer → List Nat
  | rounds + 1, (r, upper) :: stack, buffer =>
      if upper < r + 2 then
        quickReads length rounds stack buffer
      else
        let buffer := buffer.swap (r + (upper - r) / 2) r
        partitionReads length r upper (buffer.head r) (upper + 1) buffer (r + 1) upper ++
          match partition length r upper (buffer.head r) (upper + 1) buffer (r + 1) upper with
          | .error _ => []
          | .ok (buffer, j) =>
              let buffer := buffer.swap r j
              if upper - j + 1 < j - r then
                quickReads length rounds ((j + 1, upper) :: (r, j - 1) :: stack) buffer
              else
                quickReads length rounds ((r, j - 1) :: (j + 1, upper) :: stack) buffer
  | _, _, _ => []

/-- The comparisons of the pass over the pairs. -/
def pairsReads (length : Nat) (buffer : SortBuffer) (i : Nat) : Nat → List Nat
  | 0 => []
  | left + 1 =>
      let swapped := buffer.head (i + 1) ≤ buffer.head i ∧
        buffer.compareRecords length i (i + 1) = .gt
      (if buffer.head (i + 1) ≤ buffer.head i then [buffer.recordsRead length i (i + 1)] else []) ++
        pairsReads length (if swapped then buffer.swap i (i + 1) else buffer) (i + 1) left

/-- The comparisons of `sortBuffer`; other accesses to records read their first longword. -/
def sortBufferReads (buffer : SortBuffer) (length : Nat) : List Nat :=
  quickReads length (2 * buffer.count + 1) [(1, buffer.count)] buffer ++
    match buffer.quick length with
    | .error _ => []
    | .ok buffer => pairsReads length buffer 1 (buffer.count - 1)

/-- Two records have different keys. -/
def Differ (keyLength : Nat) (left right : List UInt32) : Prop :=
  left.take keyLength ≠ right.take keyLength

theorem longsRead_le {tl keyLength : Nat} {left right : List UInt32} (left_length : left.length = tl)
    (right_length : right.length = tl) (inside : keyLength < tl) :
    longsRead tl left right ≤ keyLength ↔ Differ keyLength left right := by
  induction tl generalizing left right keyLength with
  | zero => omega
  | succ tl ih =>
      obtain ⟨p, ps, rfl⟩ := List.exists_of_length_succ _ left_length
      obtain ⟨q, qs, rfl⟩ := List.exists_of_length_succ _ right_length
      rw [longsRead, Differ]
      cases keyLength with
      | zero =>
          simp only [List.take_zero, ne_eq, not_true_eq_false, iff_false]
          split <;> omega
      | succ keyLength =>
          rw [List.take_succ_cons, List.take_succ_cons]
          split
          · rename_i same
            rw [Nat.succ_le_succ_iff, ih (Nat.succ.inj left_length) (Nat.succ.inj right_length)
              (Nat.lt_of_succ_lt_succ inside), Differ, same]
            simp
          · rename_i differ
            simp [differ]

section

variable {length keyLength : Nat} {buffer : SortBuffer}

theorem Differ.of_head (some_long : 1 ≤ keyLength) {left right : Nat}
    (differ : buffer.head left ≠ buffer.head right) :
    Differ keyLength (buffer.value left) (buffer.value right) := by
  intro same
  have head : ∀ longs : List UInt32, (longs.take keyLength).headD 0 = longs.headD 0 := by
    intro longs
    obtain ⟨rest, rfl⟩ := Nat.exists_eq_add_of_le' some_long
    cases longs with
    | nil => rfl
    | cons p ps => rfl
  exact differ ((head _).symm.trans ((congrArg (·.headD 0) same).trans (head _)))

theorem Differ.symm {left right : List UInt32} (differ : Differ keyLength left right) :
    Differ keyLength right left :=
  Ne.symm differ

/-- Nothing between two records with different keys has the key of both. -/
theorem lt_of_take_lt {left right : List UInt32} (less : left.take keyLength < right.take keyLength) :
    left < right := by
  induction keyLength generalizing left right with
  | zero => exact absurd less (List.lt_irrefl _)
  | succ keyLength ih =>
      cases right with
      | nil => exact absurd less (List.not_lt_nil _)
      | cons q qs =>
          cases left with
          | nil => exact List.nil_lt_cons _ _
          | cons p ps =>
              rw [List.take_succ_cons, List.take_succ_cons, List.cons_lt_cons_iff] at less
              rw [List.cons_lt_cons_iff]
              rcases less with down | ⟨rfl, down⟩
              · exact .inl down
              · exact .inr ⟨rfl, ih down⟩

theorem take_le_take {left right : List UInt32} (ordered : left ≤ right) :
    left.take keyLength ≤ right.take keyLength :=
  not_lt.mp fun less => not_lt.mpr ordered (lt_of_take_lt less)

theorem Differ.across {left middle right : List UInt32} (low : left ≤ middle) (high : middle ≤ right)
    (differ : Differ keyLength left middle) : Differ keyLength left right := by
  intro same
  have back : middle.take keyLength ≤ left.take keyLength := by
    rw [same]
    exact take_le_take high
  exact differ (le_antisymm (take_le_take low) back)

theorem WellFormed.recordsRead_le (wellFormed : buffer.WellFormed length)
    (room : keyLength + 2 ≤ length) {left right : Nat} (left_first : 1 ≤ left)
    (left_last : left ≤ buffer.count) (right_first : 1 ≤ right) (right_last : right ≤ buffer.count) :
    buffer.recordsRead length left right ≤ keyLength ↔
      Differ keyLength (buffer.value left) (buffer.value right) := by
  have left_length := wellFormed.value_length left_first left_last
  have right_length := wellFormed.value_length right_first right_last
  obtain ⟨left_behind, left_longs⟩ := wellFormed.longs_eq left_first left_last
  obtain ⟨right_behind, right_longs⟩ := wellFormed.longs_eq right_first right_last
  rw [recordsRead, left_longs, right_longs, longsRead_le (by simp; omega) (by simp; omega) (by omega),
    Differ, Differ, List.take_append_of_le_length (by omega),
    List.take_append_of_le_length (by omega)]

/-! ## One partition -/

theorem skipLowReads_le (wellFormed : buffer.WellFormed length) (room : keyLength + 2 ≤ length)
    {r i left upper : Nat} (first : 1 ≤ r) (above : r < i) (all : i + left = upper + 1)
    (last : upper ≤ buffer.count) :
    (∀ read ∈ buffer.skipLowReads length r i left, read ≤ keyLength) ↔
      ∀ number, i ≤ number → number ≤ buffer.skipLow length r i left → number ≤ upper →
        Differ keyLength (buffer.value number) (buffer.value r) := by
  induction left generalizing i with
  | zero =>
      refine ⟨fun _ number _ _ _ => by omega, fun _ read member => ?_⟩
      exact absurd member List.not_mem_nil
  | succ left ih =>
      have compared := @WellFormed.recordsRead_le length keyLength buffer wellFormed room i r
        (by omega) (by omega) first (by omega)
      rw [skipLowReads, skipLow, List.forall_mem_cons, compared]
      split
      · refine ⟨fun reads number low high _ => ?_, fun differ => ⟨?_, fun _ member => ?_⟩⟩
        · obtain rfl := Nat.le_antisymm high low
          exact reads.1
        · exact differ i (le_refl _) (le_refl _) (by omega)
        · exact absurd member List.not_mem_nil
      · obtain ⟨ahead, -⟩ := buffer.skipLow_spec length r (i + 1) left
        rw [ih (by omega) (by omega)]
        constructor
        · rintro ⟨differ, rest⟩ number low high limit
          rcases Nat.lt_or_eq_of_le low with later | rfl
          · exact rest number later high limit
          · exact differ
        · intro differ
          refine ⟨differ i (le_refl _) (by omega) (by omega), fun number low high limit => ?_⟩
          exact differ number (Nat.le_of_succ_le low) high limit

theorem skipHighReads_le (wellFormed : buffer.WellFormed length) (room : keyLength + 2 ≤ length)
    {r j left : Nat} (first : 1 ≤ r) (all : j = r + left) (last : j ≤ buffer.count) :
    (∀ read ∈ buffer.skipHighReads length r j left, read ≤ keyLength) ↔
      ∀ number, buffer.skipHigh length r j left ≤ number → number ≤ j → r < number →
        Differ keyLength (buffer.value number) (buffer.value r) := by
  induction left generalizing j with
  | zero =>
      refine ⟨fun _ number _ _ _ => by omega, fun _ read member => ?_⟩
      exact absurd member List.not_mem_nil
  | succ left ih =>
      have compared := @WellFormed.recordsRead_le length keyLength buffer wellFormed room j r
        (by omega) (by omega) first (by omega)
      rw [skipHighReads, skipHigh, List.forall_mem_cons, compared]
      split
      · refine ⟨fun reads number low high _ => ?_, fun differ => ⟨?_, fun _ member => ?_⟩⟩
        · obtain rfl := Nat.le_antisymm high low
          exact reads.1
        · exact differ j (le_refl _) (le_refl _) (by omega)
        · exact absurd member List.not_mem_nil
      · obtain ⟨behind, -⟩ := buffer.skipHigh_spec length r (j - 1) left (by omega)
        rw [ih (by omega) (by omega)]
        constructor
        · rintro ⟨differ, rest⟩ number low high above
          rcases Nat.lt_or_eq_of_le high with earlier | rfl
          · exact rest number low (by omega) above
          · exact differ
        · intro differ
          refine ⟨differ j (by omega) (le_refl _) (by omega), fun number low high above => ?_⟩
          exact differ number low (by omega) above

section

variable {r upper i j : Nat} (converging : Converging length r upper buffer i j)
  (some_long : 1 ≤ keyLength) (room : keyLength + 2 ≤ length)
include converging some_long room

/-- The low end reads no more than keys if all keys that it passes are different from that of `r`. -/
theorem Converging.low_le {found : Nat}
    (run : buffer.scanLow (buffer.head r) i (buffer.count + 2 - i) = .ok found) :
    (∀ read ∈ if buffer.head found = buffer.head r then
        buffer.skipLowReads length r found (upper + 1 - found) else [], read ≤ keyLength) ↔
      ∀ number, i ≤ number →
        number ≤ (if buffer.head found = buffer.head r then
          buffer.skipLow length r found (upper + 1 - found) else found) →
        number ≤ upper → Differ keyLength (buffer.value number) (buffer.value r) := by
  obtain ⟨wellFormed, first, last, above, meet, below, stops, -, -⟩ := converging
  obtain ⟨stop, again, ahead, bound, reached, passed⟩ :=
    @scanLow_spec buffer (buffer.head r) i (upper + 1) (buffer.count + 2 - i) (by omega) (by omega)
      stops
  obtain rfl : found = stop := Except.ok.inj (run.symm.trans again)
  have scanned : ∀ number, i ≤ number → number < found →
      Differ keyLength (buffer.value number) (buffer.value r) := fun number low high =>
    .of_head some_long (passed number low high).ne
  split
  · rename_i same
    rw [skipLowReads_le wellFormed room first (by omega) (by omega : found + (upper + 1 - found) =
      upper + 1) last]
    constructor
    · intro differ number low high limit
      rcases Nat.lt_or_ge number found with early | late
      · exact scanned number low early
      · exact differ number late high limit
    · exact fun differ number low high limit => differ number (ahead.trans low) high limit
  · rename_i other
    refine ⟨fun _ number low high _ => ?_, fun _ _ member => absurd member List.not_mem_nil⟩
    rcases Nat.lt_or_eq_of_le high with early | rfl
    · exact scanned number low early
    · exact .of_head some_long other

/-- The high end reads no more than keys if all keys that it passes are different from that of
`r`. -/
theorem Converging.high_le :
    let found := buffer.scanHigh (buffer.head r) j
    (∀ read ∈ if buffer.head found = buffer.head r then
        buffer.skipHighReads length r found (found - r) else [], read ≤ keyLength) ↔
      ∀ number, (if buffer.head found = buffer.head r then
          buffer.skipHigh length r found (found - r) else found) ≤ number →
        number ≤ j → r < number → Differ keyLength (buffer.value number) (buffer.value r) := by
  obtain ⟨wellFormed, first, last, above, meet, below, stops, -, -⟩ := converging
  intro found
  obtain ⟨ahead, bound, reached, passed⟩ :=
    @scanHigh_spec buffer (buffer.head r) r j (le_refl _) (by omega)
  have scanned : ∀ number, found < number → number ≤ j →
      Differ keyLength (buffer.value number) (buffer.value r) := fun number low high =>
    .of_head some_long (passed number low high).ne'
  split
  · rename_i same
    rw [skipHighReads_le wellFormed room first (by omega : found = r + (found - r)) (by omega)]
    constructor
    · intro differ number low high more
      rcases Nat.lt_or_ge found number with late | early
      · exact scanned number late high
      · exact differ number low early more
    · exact fun differ number low high more => differ number low (high.trans bound) more
  · rename_i other
    refine ⟨fun _ number low high _ => ?_, fun _ _ member => absurd member List.not_mem_nil⟩
    rcases Nat.lt_or_eq_of_le low with late | rfl
    · exact scanned number late high
    · exact .of_head some_long other

end

/-- A partition reads no more than keys if all keys in its interval are different from that of
`r`. -/
theorem partitionReads_le {r upper rounds i j : Nat} (converging : Converging length r upper buffer i j)
    (some_long : 1 ≤ keyLength) (room : keyLength + 2 ≤ length) (enough : j < rounds)
    (before : ∀ number, r < number → number < i →
      Differ keyLength (buffer.value number) (buffer.value r))
    (behind : ∀ number, j < number → number ≤ upper →
      Differ keyLength (buffer.value number) (buffer.value r)) :
    (∀ read ∈ partitionReads length r upper (buffer.head r) rounds buffer i j, read ≤ keyLength) ↔
      ∀ number, r < number → number ≤ upper →
        Differ keyLength (buffer.value number) (buffer.value r) := by
  induction rounds generalizing buffer i j with
  | zero => omega
  | succ rounds ih =>
      obtain ⟨found, run, ahead, limit, low, stop_low⟩ := converging.advance
      obtain ⟨least, back, high, stop_high⟩ := converging.retreat
      have low_reads := converging.low_le some_long room run
      have high_reads := converging.high_le some_long room
      have above := converging.above
      have below := converging.below
      rw [partitionReads, run]
      dsimp only at *
      rw [List.forall_mem_append, List.forall_mem_append, low_reads, high_reads]
      generalize (if buffer.head found = buffer.head r then
        buffer.skipLow length r found (upper + 1 - found) else found) = i' at *
      generalize (if buffer.head (buffer.scanHigh (buffer.head r) j) = buffer.head r then
        buffer.skipHigh length r (buffer.scanHigh (buffer.head r) j)
          (buffer.scanHigh (buffer.head r) j - r)
        else buffer.scanHigh (buffer.head r) j) = j' at *
      have up_to : (∀ number, i ≤ number → number ≤ i' → number ≤ upper →
          Differ keyLength (buffer.value number) (buffer.value r)) →
          ∀ number, r < number → number ≤ i' → number ≤ upper →
            Differ keyLength (buffer.value number) (buffer.value r) := by
        intro differ number after ends bound
        rcases Nat.lt_or_ge number i with early | late
        · exact before number after early
        · exact differ number late ends bound
      have down_to : (∀ number, j' ≤ number → number ≤ j → r < number →
          Differ keyLength (buffer.value number) (buffer.value r)) →
          ∀ number, j' ≤ number → number ≤ upper → r < number →
            Differ keyLength (buffer.value number) (buffer.value r) := by
        intro differ number begins bound after
        rcases Nat.lt_or_ge j number with late | early
        · exact behind number late bound
        · exact differ number begins early after
      split
      · rename_i crossed
        constructor
        · rintro ⟨⟨passed_low, passed_high⟩, -⟩ number after bound
          rcases Nat.lt_or_ge i' number with late | early
          · exact down_to passed_high number (by omega) bound after
          · exact up_to passed_low number after early bound
        · intro differ
          refine ⟨⟨fun number begins _ bound => differ number (by omega) bound,
            fun number _ ends after => differ number after (by omega)⟩, fun _ member => ?_⟩
          exact absurd member List.not_mem_nil
      · rename_i apart
        obtain ⟨swapped, again⟩ :=
          converging.swap ahead limit back apart low stop_low high stop_high
        have pivot : (buffer.swap i' j').value r = buffer.value r :=
          swapped.value_outside (.inl (Nat.lt_succ_self r))
        have key : (buffer.swap i' j').head r = buffer.head r :=
          swapped.head_outside (.inl (Nat.lt_succ_self r))
        have rest : (∀ number, i ≤ number → number ≤ i' → number ≤ upper →
            Differ keyLength (buffer.value number) (buffer.value r)) →
            (∀ number, j' ≤ number → number ≤ j → r < number →
              Differ keyLength (buffer.value number) (buffer.value r)) →
            ((∀ read ∈ partitionReads length r upper (buffer.head r) rounds (buffer.swap i' j')
              (i' + 1) (j' - 1), read ≤ keyLength) ↔ ∀ number, r < number → number ≤ upper →
                Differ keyLength (buffer.value number) (buffer.value r)) := by
          intro passed_low passed_high
          have exchanged := @ih (buffer.swap i' j') (i' + 1) (j' - 1) again (by omega) (by
            intro number after ends
            rw [pivot]
            rcases Nat.lt_or_eq_of_le (Nat.le_of_lt_succ ends) with inside | rfl
            · rw [swap_value_other (by omega) (by omega)]
              exact up_to passed_low number after inside.le (by omega)
            · rw [swap_value_left]
              exact down_to passed_high j' (le_refl _) (by omega) (by omega)) (by
            intro number begins bound
            rw [pivot]
            rcases Nat.lt_or_eq_of_le (show j' ≤ number by omega) with inside | rfl
            · rw [swap_value_other (by omega) (by omega)]
              exact down_to passed_high number inside.le bound (by omega)
            · rw [swap_value_right]
              exact up_to passed_low i' (by omega) (le_refl _) (by omega))
          rw [key, pivot] at exchanged
          rw [exchanged]
          exact ⟨@Rearranged.forall_value _ _ _ _ swapped.symm (Differ keyLength · (buffer.value r)),
            @Rearranged.forall_value _ _ _ _ swapped (Differ keyLength · (buffer.value r))⟩
        constructor
        · rintro ⟨⟨passed_low, passed_high⟩, after_swap⟩
          exact (rest passed_low passed_high).mp after_swap
        · intro differ
          have passed_low : ∀ number, i ≤ number → number ≤ i' → number ≤ upper →
              Differ keyLength (buffer.value number) (buffer.value r) :=
            fun number begins _ bound => differ number (by omega) bound
          have passed_high : ∀ number, j' ≤ number → number ≤ j → r < number →
              Differ keyLength (buffer.value number) (buffer.value r) :=
            fun number _ ends after => differ number after (by omega)
          exact ⟨⟨passed_low, passed_high⟩, (rest passed_low passed_high).mpr differ⟩

/-! ## The loop over the stack -/

/-- Records with different keys have different keys in any order. -/
theorem Settled.of_distinct {before after : SortBuffer} (distinct : Settled (Differ keyLength) before [])
    (moved : Rearranged 1 before.count before after) : Settled (Differ keyLength) after [] := by
  intro low high first less last
  obtain ⟨exchange, fixes, moves⟩ := moved.moved
  have inside : ∀ number, 1 ≤ number → number ≤ before.count →
      1 ≤ exchange number ∧ exchange number ≤ before.count := by
    intro number above below
    by_contra outside
    have fixed := exchange.injective (fixes (exchange number) (by omega))
    omega
  rw [moved.count_eq] at last
  rw [value_congr moved.record_eq (moves low), value_congr moved.record_eq (moves high)]
  have low_inside := inside low first (by omega)
  have high_inside := inside high (by omega) last
  rcases Nat.lt_trichotomy (exchange low) (exchange high) with before_it | same | behind_it
  · rcases distinct _ _ low_inside.1 before_it high_inside.2 with differ | ⟨_, member, -⟩
    · exact .inl differ
    · exact absurd member List.not_mem_nil
  · exact absurd (exchange.injective same) less.ne
  · rcases distinct _ _ high_inside.1 behind_it low_inside.2 with differ | ⟨_, member, -⟩
    · exact .inl differ.symm
    · exact absurd member List.not_mem_nil

/-- What the loop over the stack makes of a buffer, and what its comparisons tell. -/
structure QuickRun (length rounds : Nat) (stack done : List (Nat × Nat)) (before after : SortBuffer)
    (final : List (Nat × Nat)) : Prop where
  run : before.quickLoop length rounds stack = .ok after
  pending : Pending length after final
  short : ∀ interval ∈ final, interval.2 < interval.1 + 2
  rearranged : Rearranged 1 before.count before after
  told : ∀ keyLength, 1 ≤ keyLength → keyLength + 2 ≤ length →
    Settled (Differ keyLength) before (stack ++ done) →
      (∀ read ∈ quickReads length rounds stack before, read ≤ keyLength) →
        Settled (Differ keyLength) after final
  reads : ∀ keyLength, 1 ≤ keyLength → keyLength + 2 ≤ length →
    Settled (Differ keyLength) before [] →
      ∀ read ∈ quickReads length rounds stack before, read ≤ keyLength

theorem QuickRun.nil {rounds : Nat} {done : List (Nat × Nat)} (pending : Pending length buffer done)
    (short : ∀ interval ∈ done, interval.2 < interval.1 + 2) :
    QuickRun length rounds [] done buffer buffer done := by
  have nothing : quickReads length rounds [] buffer = [] := by
    cases rounds with
    | zero => rfl
    | succ rounds => rfl
  refine ⟨by cases rounds <;> rfl, pending, short, .refl _ _ _, fun _ _ _ settled _ => settled, ?_⟩
  intro _ _ _ _ read member
  rw [nothing] at member
  exact absurd member List.not_mem_nil

/-- The parts of an interval differ in their keys if the record between them differs from both. -/
theorem Parted.settled {before middle : SortBuffer} {r upper j : Nat} {intervals : List (Nat × Nat)}
    (parted : Parted length r upper before middle j)
    (pending : Pending length before ((r, upper) :: intervals))
    (settled : Settled (Differ keyLength) before ((r, upper) :: intervals))
    (differ : ∀ number, r < number → number ≤ upper →
      Differ keyLength (before.value number) (before.value r)) :
    Settled (Differ keyLength) (middle.swap r j) ((r, j - 1) :: (j + 1, upper) :: intervals) := by
  obtain ⟨first, last, -⟩ := pending.inside (r, upper) List.mem_cons_self
  simp only at first last
  have low := parted.least
  have high := parted.most
  have moved := (settled.rearrange (List.pairwise_cons.mp pending.disjoint).1 first last
    parted.rearranged_swap)
  have pivot : middle.value r = before.value r :=
    parted.rearranged.value_outside (.inl (Nat.lt_succ_self r))
  have apart : ∀ number, r < number → number ≤ upper →
      Differ keyLength (middle.value number) (middle.value r) := by
    rw [pivot]
    exact @Rearranged.forall_value _ _ _ _ parted.rearranged (Differ keyLength · (before.value r))
      differ
  have left := @swap_related middle r j (Differ keyLength) fun number after ends =>
    apart number after (ends.trans high)
  have right := parted.right fun number after ends => (apart number (by omega) ends).symm
  have left_ordered := swap_related parted.small
  have right_ordered := parted.right parted.large
  refine moved.cut left right fun low_number high_number begins before_slot behind_slot ends => ?_
  exact (left low_number begins before_slot).across (left_ordered low_number begins before_slot)
    (right_ordered high_number behind_slot ends)

/-- The loop goes on with the two parts of an interval. -/
theorem QuickRun.cut {rounds r upper j : Nat} {stack done next final : List (Nat × Nat)}
    {middle after : SortBuffer} (pending : Pending length buffer ((r, upper) :: stack ++ done))
    (long : r + 2 ≤ upper)
    (parted : Parted length r upper (buffer.swap (r + (upper - r) / 2) r) middle j)
    (order : ((r, j - 1) :: (j + 1, upper) :: stack).Perm next)
    (loop : buffer.quickLoop length (rounds + 1) ((r, upper) :: stack) =
      (middle.swap r j).quickLoop length rounds next)
    (compared : quickReads length (rounds + 1) ((r, upper) :: stack) buffer =
      partitionReads length r upper ((buffer.swap (r + (upper - r) / 2) r).head r) (upper + 1)
        (buffer.swap (r + (upper - r) / 2) r) (r + 1) upper ++
          quickReads length rounds next (middle.swap r j))
    (rest : QuickRun length rounds next done (middle.swap r j) after final) :
    QuickRun length (rounds + 1) ((r, upper) :: stack) done buffer after final := by
  obtain ⟨front, ready, converging⟩ := pending.converging long
  obtain ⟨first, last, -⟩ := pending.inside (r, upper) List.mem_cons_self
  simp only at first last
  have apart := (List.pairwise_cons.mp pending.disjoint).1
  have whole : Rearranged 1 buffer.count buffer (middle.swap r j) :=
    (front.trans parted.rearranged_swap).mono first last
  have count := whole.count_eq
  have partition_le := fun keyLength some_long room =>
    @partitionReads_le length keyLength _ r upper (upper + 1) (r + 1) upper converging some_long room
      (Nat.lt_succ_self upper) (fun _ _ _ => by omega) fun _ _ _ => by omega
  refine ⟨loop.trans rest.run, rest.pending, rest.short, whole.trans (count ▸ rest.rearranged),
    ?_, ?_⟩
  · intro keyLength some_long room settled reads
    rw [compared, List.forall_mem_append] at reads
    have parts := parted.settled ready (settled.rearrange apart first last front)
      ((partition_le keyLength some_long room).mp reads.1)
    exact rest.told keyLength some_long room (parts.perm (order.append_right done)) reads.2
  · intro keyLength some_long room distinct
    have swapped_distinct := distinct.of_distinct (front.mono first last)
    rw [compared, List.forall_mem_append, partition_le keyLength some_long room]
    refine ⟨fun number above below => ?_,
      rest.reads keyLength some_long room (distinct.of_distinct whole)⟩
    have bound : number ≤ (buffer.swap (r + (upper - r) / 2) r).count := below.trans last
    rcases swapped_distinct r number first above bound with differ | ⟨_, member, -⟩
    · exact differ.symm
    · exact absurd member List.not_mem_nil

theorem quickLoop_spec {rounds : Nat} {stack done : List (Nat × Nat)}
    (pending : Pending length buffer (stack ++ done))
    (short : ∀ interval ∈ done, interval.2 < interval.1 + 2)
    (enough : (stack.map roundsOf).sum ≤ rounds) {records : Nat} (few : records < 2 ^ 32)
    (halved : Halved records stack) :
    ∃ after final, QuickRun length rounds stack done buffer after final := by
  induction rounds generalizing buffer stack done with
  | zero =>
      cases stack with
      | nil => exact ⟨buffer, done, .nil pending short⟩
      | cons interval stack =>
          rw [List.map_cons, List.sum_cons, roundsOf] at enough
          omega
  | succ rounds ih =>
      cases stack with
      | nil => exact ⟨buffer, done, .nil pending short⟩
      | cons interval stack =>
          obtain ⟨r, upper⟩ := interval
          rw [List.map_cons, List.sum_cons, roundsOf] at enough
          simp only at enough
          rcases Nat.lt_or_ge upper (r + 2) with two | long
          · have order : ((r, upper) :: stack ++ done).Perm (stack ++ (r, upper) :: done) :=
              List.perm_middle.symm
            obtain ⟨after, final, rest⟩ := @ih buffer stack ((r, upper) :: done)
              (pending.perm order) (by
                intro interval member
                rcases List.mem_cons.mp member with rfl | member
                · exact two
                · exact short interval member) (by omega) halved.2
            refine ⟨after, final, ?_, rest.pending, rest.short, rest.rearranged, ?_, ?_⟩
            · rw [quickLoop, if_pos two]
              exact rest.run
            · intro keyLength some_long room settled
              rw [quickReads, if_pos two]
              exact rest.told keyLength some_long room (settled.perm order)
            · intro keyLength some_long room
              rw [quickReads, if_pos two]
              exact rest.reads keyLength some_long room
          · obtain ⟨front, ready, converging⟩ := pending.converging long
            obtain ⟨first, last, -⟩ := pending.inside (r, upper) List.mem_cons_self
            simp only at first last
            obtain ⟨middle, j, run, parted⟩ := partition_spec converging (Nat.lt_succ_self upper)
            have low := parted.least
            have high := parted.most
            have cut := parted.pending ready
            have sum : roundsOf (r, j - 1) + (roundsOf (j + 1, upper) + (stack.map roundsOf).sum) ≤
                rounds := by
              rw [roundsOf, roundsOf]
              simp only
              omega
            have shallow := halved.short few (show r ≤ upper by omega)
            have wide : ¬upper < r + 2 := by omega
            have deep : ¬stackSize < stack.length + 2 := by
              rw [stackSize]
              omega
            rcases Nat.lt_or_ge (upper - j + 1) (j - r) with larger | smaller
            · have turned := cut.perm (List.Perm.swap (j + 1, upper) (r, j - 1) (stack ++ done))
              obtain ⟨after, final, rest⟩ := @ih (middle.swap r j)
                ((j + 1, upper) :: (r, j - 1) :: stack) done turned short (by
                  rw [List.map_cons, List.map_cons, List.sum_cons, List.sum_cons]
                  omega) ((halved.cut first low high).1 larger)
              refine ⟨after, final, .cut pending long parted (.swap _ _ _) ?_ ?_ rest⟩
              · rw [quickLoop, if_neg wide]
                simp only [run, bind, Except.bind]
                rw [if_neg deep, if_pos larger]
              · rw [quickReads, if_neg wide]
                simp only [run, if_pos larger]
            · obtain ⟨after, final, rest⟩ := @ih (middle.swap r j)
                ((r, j - 1) :: (j + 1, upper) :: stack) done cut short (by
                  rw [List.map_cons, List.map_cons, List.sum_cons, List.sum_cons]
                  omega) ((halved.cut first low high).2 smaller)
              refine ⟨after, final, .cut pending long parted (.refl _) ?_ ?_ rest⟩
              · rw [quickLoop, if_neg wide]
                simp only [run, bind, Except.bind]
                rw [if_neg deep, if_neg (Nat.not_lt.mpr smaller)]
              · rw [quickReads, if_neg wide]
                simp only [run, if_neg (Nat.not_lt.mpr smaller)]

/-- `quick` leaves at most pairs of neighbours out of order. -/
theorem quick_spec (wellFormed : buffer.WellFormed length) (few : buffer.count < 2 ^ 32) :
    ∃ after final,
      QuickRun length (2 * buffer.count + 1) [(1, buffer.count)] [] buffer after final := by
  refine @quickLoop_spec length buffer _ [(1, buffer.count)] [] ?_ ?_ ?_ buffer.count few ?_
  · refine ⟨wellFormed, ?_, ?_, ?_⟩
    · intro interval member
      obtain rfl := List.mem_singleton.mp member
      exact ⟨le_refl _, le_refl _, by simp only; omega⟩
    · exact List.pairwise_singleton _ _
    · intro low high first less last
      exact .inr ⟨(1, buffer.count), List.mem_cons_self, first, last⟩
  · exact fun _ member => absurd member List.not_mem_nil
  · rw [List.map_singleton, List.sum_singleton, roundsOf, Nat.add_sub_cancel]
  · refine ⟨?_, trivial⟩
    rw [sizeOf, Nat.add_sub_cancel]
    exact (Nat.mul_one _).le

end

end SortBuffer

end Firebird
