import Mathlib
import Firebird.Jrd.Sorting.Buffer

/-!
# The order that `quick` establishes

Comparisons read one longword too many, but this longword decides only between records with the same
contents.  Every pair of pointers is in order or lies in an interval that is still on the stack, and
the intervals of two pointers that are left over are corrected by a pass over the pairs.
-/

namespace Firebird

namespace SortBuffer

/-- The record at a pointer. -/
def value (buffer : SortBuffer) (number : Nat) : List UInt32 := buffer.words (buffer.pointers number)

/-- The pointers show to the records, which show back, and are followed by `high_key`. -/
structure WellFormed (length : Nat) (buffer : SortBuffer) : Prop where
  linked : ∀ number, 1 ≤ number → number ≤ buffer.count → ∃ address,
    buffer.pointers number = .record address ∧ address < buffer.count ∧
    buffer.sr_bckptr address = some number
  sized : ∀ address < buffer.count, (buffer.sort_record address).length + 2 = length
  some_longs : 3 ≤ length
  guard : buffer.pointers (buffer.count + 1) = .high

/-- The pointers in an interval are exchanged. -/
structure Rearranged (lower upper : Nat) (before after : SortBuffer) : Prop where
  count_eq : after.count = before.count
  record_eq : after.sort_record = before.sort_record
  moved : ∃ exchange : Equiv.Perm Nat,
    (∀ number, number < lower ∨ upper < number → exchange number = number) ∧
    ∀ number, after.pointers number = before.pointers (exchange number)

/-! ## Comparisons -/

theorem compareLongs_gt {tl : Nat} {left right : List UInt32} (left_length : left.length = tl)
    (right_length : right.length = tl) : compareLongs tl left right = .gt ↔ right < left := by
  induction tl generalizing left right with
  | zero =>
      rw [List.eq_nil_of_length_eq_zero left_length, List.eq_nil_of_length_eq_zero right_length]
      simp [compareLongs]
  | succ tl ih =>
      obtain ⟨p, ps, rfl⟩ := List.exists_of_length_succ _ left_length
      obtain ⟨q, qs, rfl⟩ := List.exists_of_length_succ _ right_length
      rw [compareLongs, List.cons_lt_cons_iff]
      rcases lt_trichotomy p q with less | rfl | more
      · rw [if_neg less.ne, if_pos less]
        simp [less.not_gt, less.ne']
      · rw [if_pos rfl, ih (Nat.succ.inj left_length) (Nat.succ.inj right_length)]
        simp
      · rw [if_neg more.ne', if_neg more.not_gt]
        simp [more]

theorem compareLongs_lt {tl : Nat} {left right : List UInt32} (left_length : left.length = tl)
    (right_length : right.length = tl) : compareLongs tl left right = .lt ↔ left < right := by
  induction tl generalizing left right with
  | zero =>
      rw [List.eq_nil_of_length_eq_zero left_length, List.eq_nil_of_length_eq_zero right_length]
      simp [compareLongs]
  | succ tl ih =>
      obtain ⟨p, ps, rfl⟩ := List.exists_of_length_succ _ left_length
      obtain ⟨q, qs, rfl⟩ := List.exists_of_length_succ _ right_length
      rw [compareLongs, List.cons_lt_cons_iff]
      rcases lt_trichotomy p q with less | rfl | more
      · rw [if_neg less.ne, if_pos less]
        simp [less]
      · rw [if_pos rfl, ih (Nat.succ.inj left_length) (Nat.succ.inj right_length)]
        simp
      · rw [if_neg more.ne', if_neg more.not_gt]
        simp [more.not_gt, more.ne']

theorem append_lt_append {left right : List UInt32} {first second : UInt32}
    (same : left.length = right.length) (less : left < right) :
    left ++ [first] < right ++ [second] := by
  induction left generalizing right with
  | nil =>
      rw [List.eq_nil_of_length_eq_zero same.symm] at less
      exact absurd less (List.not_lt_nil _)
  | cons head left ih =>
      cases right with
      | nil => cases same
      | cons other right =>
          rw [List.cons_append, List.cons_append, List.cons_lt_cons_iff]
          rcases List.cons_lt_cons_iff.mp less with down | ⟨rfl, down⟩
          · exact .inl down
          · exact .inr ⟨rfl, ih (Nat.succ.inj same) down⟩

/-- One longword behind two records does not turn their order around. -/
theorem le_of_append_le {left right : List UInt32} {first second : UInt32}
    (same : left.length = right.length) (ordered : left ++ [first] ≤ right ++ [second]) :
    left ≤ right :=
  not_lt.mp fun less => not_lt.mpr ordered (append_lt_append same.symm less)

section

variable {length : Nat} {buffer : SortBuffer}

theorem WellFormed.value_length (wellFormed : buffer.WellFormed length) {number : Nat}
    (first : 1 ≤ number) (last : number ≤ buffer.count) :
    (buffer.value number).length + 2 = length := by
  obtain ⟨address, shown, inside, -⟩ := wellFormed.linked number first last
  rw [value, shown]
  exact wellFormed.sized address inside

theorem WellFormed.longs_eq (wellFormed : buffer.WellFormed length) {number : Nat}
    (first : 1 ≤ number) (last : number ≤ buffer.count) :
    ∃ behind, buffer.longs number = buffer.value number ++ [behind] := by
  obtain ⟨address, shown, -, -⟩ := wellFormed.linked number first last
  rw [longs, value, shown]
  cases address with
  | zero => exact ⟨_, rfl⟩
  | succ address => exact ⟨_, rfl⟩

theorem WellFormed.compare (wellFormed : buffer.WellFormed length) {left right : Nat}
    (left_first : 1 ≤ left) (left_last : left ≤ buffer.count) (right_first : 1 ≤ right)
    (right_last : right ≤ buffer.count) :
    (buffer.compareRecords length left right = .gt → buffer.value right ≤ buffer.value left) ∧
    (buffer.compareRecords length left right ≠ .gt → buffer.value left ≤ buffer.value right) ∧
    (buffer.compareRecords length left right = .lt → buffer.value left ≤ buffer.value right) ∧
    (buffer.compareRecords length left right ≠ .lt → buffer.value right ≤ buffer.value left) := by
  have left_length := wellFormed.value_length left_first left_last
  have right_length := wellFormed.value_length right_first right_last
  have same : (buffer.value left).length = (buffer.value right).length := by omega
  obtain ⟨left_behind, left_longs⟩ := wellFormed.longs_eq left_first left_last
  obtain ⟨right_behind, right_longs⟩ := wellFormed.longs_eq right_first right_last
  have left_tl : (buffer.value left ++ [left_behind]).length = length - 1 := by
    rw [List.length_append, List.length_singleton]
    omega
  have right_tl : (buffer.value right ++ [right_behind]).length = length - 1 := by
    rw [List.length_append, List.length_singleton]
    omega
  rw [compareRecords, left_longs, right_longs, ne_eq, ne_eq, compareLongs_gt left_tl right_tl,
    compareLongs_lt left_tl right_tl, not_lt, not_lt]
  refine ⟨?_, ?_, ?_, ?_⟩
  · exact fun more => le_of_append_le same.symm more.le
  · exact le_of_append_le same
  · exact fun less => le_of_append_le same less.le
  · exact le_of_append_le same.symm

theorem headD_le {left right : List UInt32} (some_long : right ≠ []) (ordered : left ≤ right) :
    left.headD 0 ≤ right.headD 0 := by
  cases left with
  | nil => exact UInt32.zero_le
  | cons p ps =>
      cases right with
      | nil => exact absurd rfl some_long
      | cons q qs =>
          refine not_lt.mp fun less => not_lt.mpr ordered (List.cons_lt_cons_iff.mpr (.inl less))

theorem lt_of_headD_lt {left right : List UInt32} (less : left.headD 0 < right.headD 0) :
    left < right := by
  cases right with
  | nil => exact absurd less (not_lt.mpr UInt32.zero_le)
  | cons q qs =>
      cases left with
      | nil => exact List.nil_lt_cons _ _
      | cons p ps => exact List.cons_lt_cons_iff.mpr (.inl less)

/-! ## Exchanges of pointers -/

theorem Rearranged.refl (lower upper : Nat) (buffer : SortBuffer) :
    Rearranged lower upper buffer buffer :=
  ⟨rfl, rfl, Equiv.refl _, fun _ _ => rfl, fun _ => rfl⟩

theorem Rearranged.symm {lower upper : Nat} {before after : SortBuffer}
    (moved : Rearranged lower upper before after) : Rearranged lower upper after before := by
  obtain ⟨exchange, fixes, moves⟩ := moved.moved
  refine ⟨moved.count_eq.symm, moved.record_eq.symm, exchange.symm, ?_, ?_⟩
  · intro number outside
    rw [Equiv.symm_apply_eq, fixes number outside]
  · intro number
    rw [moves, Equiv.apply_symm_apply]

theorem Rearranged.trans {lower upper : Nat} {first second third : SortBuffer}
    (front : Rearranged lower upper first second) (back : Rearranged lower upper second third) :
    Rearranged lower upper first third := by
  obtain ⟨early, early_fixes, early_moves⟩ := front.moved
  obtain ⟨late, late_fixes, late_moves⟩ := back.moved
  refine ⟨back.count_eq.trans front.count_eq, back.record_eq.trans front.record_eq,
    late.trans early, ?_, ?_⟩
  · intro number outside
    rw [Equiv.trans_apply, late_fixes number outside, early_fixes number outside]
  · intro number
    rw [late_moves, early_moves, Equiv.trans_apply]

theorem Rearranged.mono {lower upper least most : Nat} {before after : SortBuffer}
    (moved : Rearranged lower upper before after) (low : least ≤ lower) (high : upper ≤ most) :
    Rearranged least most before after := by
  obtain ⟨exchange, fixes, moves⟩ := moved.moved
  refine ⟨moved.count_eq, moved.record_eq, exchange, ?_, moves⟩
  intro number outside
  exact fixes number (by omega)

theorem value_congr {before after : SortBuffer} {number origin : Nat}
    (same : after.sort_record = before.sort_record)
    (shown : after.pointers number = before.pointers origin) :
    after.value number = before.value origin := by
  rw [value, value, shown]
  cases before.pointers origin with
  | low => rfl
  | high => rfl
  | null => rfl
  | record address => rw [words, words, same]

/-- The values in the interval stay in it and the others stay where they are. -/
theorem Rearranged.values {lower upper : Nat} {before after : SortBuffer}
    (moved : Rearranged lower upper before after) (number : Nat) :
    ∃ origin, after.value number = before.value origin ∧
      (lower ≤ number ∧ number ≤ upper → lower ≤ origin ∧ origin ≤ upper) ∧
      (number < lower ∨ upper < number → origin = number) := by
  obtain ⟨exchange, fixes, moves⟩ := moved.moved
  refine ⟨exchange number, value_congr moved.record_eq (moves number), ?_, fixes number⟩
  rintro ⟨above, below⟩
  by_contra outside
  have fixed := exchange.injective (fixes (exchange number) (by omega))
  omega

/-- What holds of all values in the interval, holds of them in any order. -/
theorem Rearranged.forall_value {lower upper : Nat} {before after : SortBuffer}
    (moved : Rearranged lower upper before after) {property : List UInt32 → Prop}
    (every : ∀ number, lower ≤ number → number ≤ upper → property (before.value number))
    (number : Nat) (low : lower ≤ number) (high : number ≤ upper) :
    property (after.value number) := by
  obtain ⟨origin, same, inside, -⟩ := moved.values number
  rw [same]
  exact every origin (inside ⟨low, high⟩).1 (inside ⟨low, high⟩).2

theorem swap_pointers (a b number : Nat) :
    (buffer.swap a b).pointers number = buffer.pointers (Equiv.swap a b number) := by
  rw [Equiv.swap_apply_def]
  change (if number = a then buffer.pointers b else
    if number = b then buffer.pointers a else buffer.pointers number) = _
  split
  · rfl
  · split
    · rfl
    · rfl

theorem swap_rearranged {lower upper a b : Nat} (a_low : lower ≤ a) (a_high : a ≤ upper)
    (b_low : lower ≤ b) (b_high : b ≤ upper) : Rearranged lower upper buffer (buffer.swap a b) := by
  refine ⟨rfl, rfl, Equiv.swap a b, ?_, ?_⟩
  · intro number outside
    exact Equiv.swap_apply_of_ne_of_ne (by omega) (by omega)
  · intro number
    exact swap_pointers a b number

theorem swap_value_left (a b : Nat) : (buffer.swap a b).value a = buffer.value b := by
  rw [value, value, swap]
  simp only [if_true]
  rfl

theorem swap_value_right (a b : Nat) : (buffer.swap a b).value b = buffer.value a := by
  rw [value, value, swap]
  by_cases same : b = a
  · rw [same]
    simp only [if_true]
    rfl
  · simp only [same, if_false, if_true]
    rfl

theorem swap_value_other {a b number : Nat} (not_a : number ≠ a) (not_b : number ≠ b) :
    (buffer.swap a b).value number = buffer.value number := by
  rw [value, value, swap]
  simp only [not_a, not_b, if_false]
  rfl

theorem WellFormed.swap (wellFormed : buffer.WellFormed length) {a b : Nat} (a_low : 1 ≤ a)
    (a_high : a ≤ buffer.count) (b_low : 1 ≤ b) (b_high : b ≤ buffer.count) :
    (buffer.swap a b).WellFormed length := by
  obtain ⟨x, a_shown, x_inside, x_back⟩ := wellFormed.linked a a_low a_high
  obtain ⟨y, b_shown, y_inside, y_back⟩ := wellFormed.linked b b_low b_high
  refine ⟨?_, wellFormed.sized, wellFormed.some_longs, ?_⟩
  · intro number first last
    rw [SortBuffer.swap]
    simp only [a_shown, b_shown, setBckptr]
    by_cases at_a : number = a
    · exact ⟨y, by rw [if_pos at_a], y_inside, by rw [if_pos rfl, at_a]⟩
    · by_cases at_b : number = b
      · have other : x ≠ y := by
          rintro rfl
          rw [x_back] at y_back
          exact at_a (at_b.trans (Option.some.inj y_back).symm)
        exact ⟨x, by rw [if_neg at_a, if_pos at_b], x_inside,
          by rw [if_neg other, if_pos rfl, at_b]⟩
      · obtain ⟨z, shown, inside, back⟩ := wellFormed.linked number first last
        have not_x : z ≠ x := by
          rintro rfl
          rw [x_back] at back
          exact at_a (Option.some.inj back).symm
        have not_y : z ≠ y := by
          rintro rfl
          rw [y_back] at back
          exact at_b (Option.some.inj back).symm
        exact ⟨z, by rw [if_neg at_a, if_neg at_b, shown], inside,
          by rw [if_neg not_y, if_neg not_x, back]⟩
  · rw [SortBuffer.swap]
    simp only
    rw [if_neg (by omega), if_neg (by omega)]
    exact wellFormed.guard

/-! ## One partition -/

theorem scanLow_spec {key : UInt32} {i stop left : Nat} (before : i ≤ stop)
    (enough : stop < i + left) (stops : key ≤ buffer.head stop) :
    ∃ found, buffer.scanLow key i left = .ok found ∧ i ≤ found ∧ found ≤ stop ∧
      key ≤ buffer.head found ∧ ∀ number, i ≤ number → number < found →
        buffer.head number < key := by
  induction left generalizing i with
  | zero => omega
  | succ left ih =>
      rw [scanLow]
      split
      · rename_i low
        have further : i + 1 ≤ stop := by
          rcases Nat.lt_or_eq_of_le before with less | rfl
          · exact less
          · exact absurd low (not_lt.mpr stops)
        obtain ⟨found, run, above, below, reached, passed⟩ := ih further (by omega)
        refine ⟨found, run, by omega, below, reached, ?_⟩
        intro number first last
        rcases Nat.lt_or_eq_of_le first with later | rfl
        · exact passed number later last
        · exact low
      · rename_i high
        exact ⟨i, rfl, Nat.le_refl _, before, not_lt.mp high, fun _ _ _ => by omega⟩

theorem skipLow_spec (length r i left : Nat) :
    let found := buffer.skipLow length r i left
    i ≤ found ∧ found ≤ i + left ∧
      (found < i + left → buffer.compareRecords length found r = .gt) ∧
      ∀ number, i ≤ number → number < found → buffer.compareRecords length number r ≠ .gt := by
  induction left generalizing i with
  | zero => exact ⟨Nat.le_refl _, Nat.le_refl _, fun less => absurd less (Nat.lt_irrefl _),
      fun _ _ _ => by simp only [skipLow] at *; omega⟩
  | succ left ih =>
      simp only [skipLow]
      split
      · rename_i more
        exact ⟨Nat.le_refl _, by omega, fun _ => more, fun _ _ _ => by omega⟩
      · rename_i more
        obtain ⟨above, below, stopped, passed⟩ := ih (i + 1)
        refine ⟨by omega, by omega, fun less => stopped (by omega), ?_⟩
        intro number first last
        rcases Nat.lt_or_eq_of_le first with later | rfl
        · exact passed number later last
        · exact more

theorem scanHigh_spec {key : UInt32} {r j : Nat} (stops : buffer.head r ≤ key) (above : r ≤ j) :
    r ≤ buffer.scanHigh key j ∧ buffer.scanHigh key j ≤ j ∧
      (1 ≤ r → buffer.head (buffer.scanHigh key j) ≤ key) ∧
      ∀ number, buffer.scanHigh key j < number → number ≤ j → key < buffer.head number := by
  induction j with
  | zero =>
      obtain rfl := Nat.le_zero.mp above
      exact ⟨Nat.le_refl _, Nat.le_refl _, fun _ => stops, fun _ _ _ => by
        simp only [scanHigh] at *; omega⟩
  | succ j ih =>
      rw [scanHigh]
      split
      · rename_i high
        have further : r ≤ j := by
          rcases Nat.lt_or_eq_of_le above with less | rfl
          · omega
          · exact absurd high (not_lt.mpr stops)
        obtain ⟨low, below, reached, passed⟩ := ih further
        refine ⟨low, by omega, reached, ?_⟩
        intro number first last
        rcases Nat.lt_or_eq_of_le last with earlier | rfl
        · exact passed number first (by omega)
        · exact high
      · rename_i low
        exact ⟨above, Nat.le_refl _, fun _ => not_lt.mp low, fun _ _ _ => by omega⟩

theorem skipHigh_spec (length r j left : Nat) (inside : left ≤ j) :
    let found := buffer.skipHigh length r j left
    found ≤ j ∧ j ≤ found + left ∧
      (j < found + left → buffer.compareRecords length found r = .lt) ∧
      ∀ number, found < number → number ≤ j → buffer.compareRecords length number r ≠ .lt := by
  induction left generalizing j with
  | zero => exact ⟨Nat.le_refl _, Nat.le_refl _, fun less => absurd less (Nat.lt_irrefl _),
      fun _ _ _ => by simp only [skipHigh] at *; omega⟩
  | succ left ih =>
      simp only [skipHigh]
      split
      · rename_i less
        exact ⟨Nat.le_refl _, by omega, fun _ => less, fun _ _ _ => by omega⟩
      · rename_i less
        obtain ⟨above, below, stopped, passed⟩ := ih (j - 1) (by omega)
        refine ⟨by omega, by omega, fun more => stopped (by omega), ?_⟩
        intro number first last
        rcases Nat.lt_or_eq_of_le last with earlier | rfl
        · exact passed number first (by omega)
        · exact less

/-- What is known while the two ends converge. -/
structure Converging (length r upper : Nat) (buffer : SortBuffer) (i j : Nat) : Prop where
  wellFormed : buffer.WellFormed length
  first : 1 ≤ r
  last : upper ≤ buffer.count
  above : r < i
  meet : i ≤ j + 1
  below : j ≤ upper
  stops : buffer.head r ≤ buffer.head (upper + 1)
  low : ∀ number, r < number → number < i → buffer.value number ≤ buffer.value r
  high : ∀ number, j < number → number ≤ upper → buffer.value r ≤ buffer.value number

/-- The low end stops behind records that are not above the partition record. -/
theorem Converging.advance {r upper i j : Nat} (converging : Converging length r upper buffer i j) :
    ∃ found, buffer.scanLow (buffer.head r) i (buffer.count + 2 - i) = .ok found ∧
      let stopped := if buffer.head found = buffer.head r then
        buffer.skipLow length r found (upper + 1 - found) else found
      i ≤ stopped ∧ stopped ≤ upper + 1 ∧
        (∀ number, r < number → number < stopped → buffer.value number ≤ buffer.value r) ∧
        (stopped ≤ upper → buffer.value r ≤ buffer.value stopped) := by
  obtain ⟨wellFormed, first, last, above, meet, below, stops, low, high⟩ := converging
  obtain ⟨found, run, ahead, bound, reached, passed⟩ :=
    @scanLow_spec buffer (buffer.head r) i (upper + 1) (buffer.count + 2 - i) (by omega) (by omega)
      stops
  have low_found : ∀ number, r < number → number < found →
      buffer.value number ≤ buffer.value r := by
    intro number after before
    rcases Nat.lt_or_ge number i with early | late
    · exact low number after early
    · exact (lt_of_headD_lt (passed number late before)).le
  refine ⟨found, run, ?_⟩
  split
  · obtain ⟨on, limit, stopped, skipped⟩ := @skipLow_spec buffer length r found (upper + 1 - found)
    refine ⟨by omega, by omega, ?_, ?_⟩
    · intro number after before
      rcases Nat.lt_or_ge number found with early | late
      · exact low_found number after early
      · exact (wellFormed.compare (by omega) (by omega) first (by omega)).2.1
          (skipped number late before)
    · intro inside
      exact (wellFormed.compare (by omega) (by omega) first (by omega)).1 (stopped (by omega))
  · rename_i differ
    refine ⟨ahead, bound, low_found, fun inside => ?_⟩
    exact (lt_of_headD_lt (lt_of_le_of_ne reached (Ne.symm differ))).le

/-- The high end stops before records that are not below the partition record. -/
theorem Converging.retreat {r upper i j : Nat} (converging : Converging length r upper buffer i j) :
    let found := buffer.scanHigh (buffer.head r) j
    let stopped := if buffer.head found = buffer.head r then
      buffer.skipHigh length r found (found - r) else found
    r ≤ stopped ∧ stopped ≤ j ∧
      (∀ number, stopped < number → number ≤ upper → buffer.value r ≤ buffer.value number) ∧
      buffer.value stopped ≤ buffer.value r := by
  obtain ⟨wellFormed, first, last, above, meet, below, stops, low, high⟩ := converging
  obtain ⟨ahead, bound, reached, passed⟩ :=
    @scanHigh_spec buffer (buffer.head r) r j (le_refl _) (by omega)
  intro found
  have high_found : ∀ number, found < number → number ≤ upper →
      buffer.value r ≤ buffer.value number := by
    intro number after before
    rcases Nat.lt_or_ge j number with late | early
    · exact high number late before
    · exact (lt_of_headD_lt (passed number after early)).le
  dsimp only
  split
  · obtain ⟨on, limit, stopped, skipped⟩ :=
      @skipHigh_spec buffer length r found (found - r) (Nat.sub_le _ _)
    refine ⟨by omega, by omega, ?_, ?_⟩
    · intro number after before
      rcases Nat.lt_or_ge found number with late | early
      · exact high_found number late before
      · exact (wellFormed.compare (by omega) (by omega) first (by omega)).2.2.2
          (skipped number after early)
    · rcases Nat.lt_or_eq_of_le (show r ≤ buffer.skipHigh length r found (found - r) by omega)
        with later | same
      · exact (wellFormed.compare (by omega) (by omega) first (by omega)).2.2.1
          (stopped (by omega))
      · rw [← same]
  · rename_i differ
    exact ⟨ahead, bound, high_found, (lt_of_headD_lt (lt_of_le_of_ne (reached first) differ)).le⟩

theorem Rearranged.value_outside {lower upper number : Nat} {before after : SortBuffer}
    (moved : Rearranged lower upper before after) (outside : number < lower ∨ upper < number) :
    after.value number = before.value number := by
  obtain ⟨origin, same, -, fixed⟩ := moved.values number
  rw [same, fixed outside]

theorem Rearranged.head_outside {lower upper number : Nat} {before after : SortBuffer}
    (moved : Rearranged lower upper before after) (outside : number < lower ∨ upper < number) :
    after.head number = before.head number :=
  congrArg (·.headD 0) (moved.value_outside outside)

/-- The two records at which the ends have stopped are exchanged. -/
theorem Converging.swap {r upper i j low_stop high_stop : Nat}
    (converging : Converging length r upper buffer i j) (ahead : i ≤ low_stop)
    (limit : low_stop ≤ upper + 1) (back : high_stop ≤ j) (apart : ¬high_stop ≤ low_stop)
    (low : ∀ number, r < number → number < low_stop → buffer.value number ≤ buffer.value r)
    (stop_low : low_stop ≤ upper → buffer.value r ≤ buffer.value low_stop)
    (high : ∀ number, high_stop < number → number ≤ upper → buffer.value r ≤ buffer.value number)
    (stop_high : buffer.value high_stop ≤ buffer.value r) :
    Rearranged (r + 1) upper buffer (buffer.swap low_stop high_stop) ∧
      Converging length r upper (buffer.swap low_stop high_stop) (low_stop + 1) (high_stop - 1) := by
  obtain ⟨wellFormed, first, last, above, meet, below, stops, -, -⟩ := converging
  have swapped : Rearranged (r + 1) upper buffer (buffer.swap low_stop high_stop) :=
    swap_rearranged (by omega) (by omega) (by omega) (by omega)
  have pivot : (buffer.swap low_stop high_stop).value r = buffer.value r :=
    swapped.value_outside (.inl (by omega))
  refine ⟨swapped, wellFormed.swap (by omega) (by omega) (by omega) (by omega), first, last,
    by omega, by omega, by omega, ?_, ?_, ?_⟩
  · rw [swapped.head_outside (.inl (by omega)), swapped.head_outside (.inr (by omega))]
    exact stops
  · intro number after before
    rw [pivot]
    rcases Nat.lt_or_eq_of_le (Nat.le_of_lt_succ before) with inside | rfl
    · rw [swap_value_other (by omega) (by omega)]
      exact low number after inside
    · rw [swap_value_left]
      exact stop_high
  · intro number after before
    rw [pivot]
    rcases Nat.lt_or_eq_of_le (show high_stop ≤ number by omega) with inside | rfl
    · rw [swap_value_other (by omega) (by omega)]
      exact high number inside before
    · rw [swap_value_right]
      exact stop_low (by omega)

/-- The pointers behind `r` are parted into those up to `split` and those behind it. -/
structure Parted (length r upper : Nat) (before after : SortBuffer) (split : Nat) : Prop where
  wellFormed : after.WellFormed length
  rearranged : Rearranged (r + 1) upper before after
  least : r ≤ split
  most : split ≤ upper
  small : ∀ number, r < number → number ≤ split → after.value number ≤ after.value r
  large : ∀ number, split < number → number ≤ upper → after.value r ≤ after.value number

theorem partition_spec {r upper rounds i j : Nat} (converging : Converging length r upper buffer i j)
    (enough : j < rounds) :
    ∃ after split, partition length r upper (buffer.head r) rounds buffer i j = .ok (after, split) ∧
      Parted length r upper buffer after split := by
  induction rounds generalizing buffer i j with
  | zero => omega
  | succ rounds ih =>
      obtain ⟨found, run, ahead, limit, low, stop_low⟩ := converging.advance
      obtain ⟨least, back, high, stop_high⟩ := converging.retreat
      have above := converging.above
      have below := converging.below
      rw [partition, run]
      simp only [bind, Except.bind]
      generalize (if buffer.head found = buffer.head r then
        buffer.skipLow length r found (upper + 1 - found) else found) = i' at *
      generalize (if buffer.head (buffer.scanHigh (buffer.head r) j) = buffer.head r then
        buffer.skipHigh length r (buffer.scanHigh (buffer.head r) j)
          (buffer.scanHigh (buffer.head r) j - r)
        else buffer.scanHigh (buffer.head r) j) = j' at *
      split
      · rename_i crossed
        refine ⟨buffer, j', rfl, converging.wellFormed, .refl _ _ _, least, by omega, ?_, high⟩
        intro number after before
        rcases Nat.lt_or_eq_of_le (Nat.le_trans before crossed) with inside | same
        · exact low number after inside
        · rw [show number = j' by omega]
          exact stop_high
      · rename_i apart
        obtain ⟨swapped, again⟩ :=
          converging.swap ahead limit back apart low stop_low high stop_high
        have key : (buffer.swap i' j').head r = buffer.head r :=
          swapped.head_outside (.inl (Nat.lt_succ_self r))
        obtain ⟨after, split, done, parted⟩ := ih again (by omega)
        rw [key] at done
        exact ⟨after, split, done, { parted with rearranged := swapped.trans parted.rearranged }⟩

/-! ## The stack of intervals -/

/-- The values of two pointers are related in the order of the pointers, unless both are in one of
the intervals. -/
def Settled (relation : List UInt32 → List UInt32 → Prop) (buffer : SortBuffer)
    (intervals : List (Nat × Nat)) : Prop :=
  ∀ low high, 1 ≤ low → low < high → high ≤ buffer.count →
    relation (buffer.value low) (buffer.value high) ∨
      ∃ interval ∈ intervals, interval.1 ≤ low ∧ high ≤ interval.2

/-- Pairs of pointers that are out of order lie in one of the disjoint intervals. -/
structure Pending (length : Nat) (buffer : SortBuffer) (intervals : List (Nat × Nat)) : Prop where
  wellFormed : buffer.WellFormed length
  inside : ∀ interval ∈ intervals,
    1 ≤ interval.1 ∧ interval.2 ≤ buffer.count ∧ interval.1 ≤ interval.2 + 1
  disjoint : intervals.Pairwise fun left right => left.2 < right.1 ∨ right.2 < left.1
  ordered : ∀ low high, 1 ≤ low → low < high → high ≤ buffer.count →
    buffer.value low ≤ buffer.value high ∨
      ∃ interval ∈ intervals, interval.1 ≤ low ∧ high ≤ interval.2

/-- The rounds that an interval takes, with the intervals that it is cut into. -/
def roundsOf (interval : Nat × Nat) : Nat := 2 * (interval.2 + 1 - interval.1) + 1

/-- The records in an interval. -/
def sizeOf (interval : Nat × Nat) : Nat := interval.2 + 1 - interval.1

/-- Each interval on the stack has at most half of the records that the one below it had. -/
def Halved (records : Nat) : List (Nat × Nat) → Prop
  | [] => True
  | interval :: below => sizeOf interval * 2 ^ below.length ≤ records ∧ Halved records below

theorem Halved.cut {records r upper j : Nat} {below : List (Nat × Nat)}
    (halved : Halved records ((r, upper) :: below)) (first : 1 ≤ r) (low : r ≤ j)
    (high : j ≤ upper) :
    (upper - j + 1 < j - r → Halved records ((j + 1, upper) :: (r, j - 1) :: below)) ∧
      (j - r ≤ upper - j + 1 → Halved records ((r, j - 1) :: (j + 1, upper) :: below)) := by
  obtain ⟨whole, rest⟩ := halved
  rw [sizeOf] at whole
  simp only at whole
  have left : sizeOf (r, j - 1) ≤ upper + 1 - r := by rw [sizeOf]; simp only; omega
  have right : sizeOf (j + 1, upper) ≤ upper + 1 - r := by rw [sizeOf]; simp only; omega
  refine ⟨fun larger => ⟨?_, ?_, rest⟩, fun smaller => ⟨?_, ?_, rest⟩⟩
  · have half : 2 * sizeOf (j + 1, upper) ≤ upper + 1 - r := by rw [sizeOf]; simp only; omega
    rw [List.length_cons, Nat.pow_succ, Nat.mul_comm (2 ^ below.length), ← Nat.mul_assoc,
      Nat.mul_comm _ 2]
    exact (Nat.mul_le_mul_right _ half).trans whole
  · exact (Nat.mul_le_mul_right _ left).trans whole
  · have half : 2 * sizeOf (r, j - 1) ≤ upper + 1 - r := by rw [sizeOf]; simp only; omega
    rw [List.length_cons, Nat.pow_succ, Nat.mul_comm (2 ^ below.length), ← Nat.mul_assoc,
      Nat.mul_comm _ 2]
    exact (Nat.mul_le_mul_right _ half).trans whole
  · exact (Nat.mul_le_mul_right _ right).trans whole

theorem Halved.short {records r upper : Nat} {below : List (Nat × Nat)}
    (halved : Halved records ((r, upper) :: below)) (few : records < 2 ^ 32)
    (some_record : r ≤ upper) : below.length < 32 := by
  have one : 1 ≤ sizeOf (r, upper) := by rw [sizeOf]; simp only; omega
  have bound : 2 ^ below.length < 2 ^ 32 :=
    lt_of_le_of_lt (Nat.le_trans (Nat.le_mul_of_pos_left _ one) halved.1) few
  exact (Nat.pow_lt_pow_iff_right (by decide)).mp bound

theorem guard_stops (wellFormed : buffer.WellFormed length) {r : Nat} :
    buffer.head r ≤ buffer.head (buffer.count + 1) := by
  have top : buffer.head (buffer.count + 1) = UInt32.ofNat 4294967295 := by
    rw [head, wellFormed.guard]
    rfl
  rw [top, UInt32.le_iff_toNat_le]
  have bound := (buffer.head r).toNat_lt
  have value : (UInt32.ofNat 4294967295).toNat = 4294967295 := rfl
  omega

theorem Pending.stops {intervals : List (Nat × Nat)} {r upper : Nat}
    (pending : Pending length buffer ((r, upper) :: intervals)) (some_pointer : r ≤ upper) {number : Nat}
    (above : r ≤ number) (below : number ≤ upper) :
    buffer.head number ≤ buffer.head (upper + 1) := by
  obtain ⟨first, last, -⟩ := pending.inside (r, upper) List.mem_cons_self
  simp only at first last
  rcases Nat.lt_or_eq_of_le last with inner | rfl
  · have some_longs : buffer.value (upper + 1) ≠ [] := by
      intro nothing
      have size := pending.wellFormed.value_length (show 1 ≤ upper + 1 by omega) inner
      have longs := pending.wellFormed.some_longs
      rw [nothing, List.length_nil] at size
      omega
    refine headD_le some_longs ?_
    rcases pending.ordered number (upper + 1) (by omega) (by omega) inner with
      ordered | ⟨interval, member, low, high⟩
    · exact ordered
    · rcases List.mem_cons.mp member with rfl | member
      · simp only at high
        omega
      · have apart := (List.pairwise_cons.mp pending.disjoint).1 interval member
        simp only at apart
        omega
  · exact guard_stops pending.wellFormed

namespace Settled

variable {relation : List UInt32 → List UInt32 → Prop} {intervals : List (Nat × Nat)} {r upper : Nat}

theorem perm {left right : List (Nat × Nat)} (settled : Settled relation buffer left)
    (same : left.Perm right) : Settled relation buffer right := by
  intro low high first less last
  rcases settled low high first less last with ordered | ⟨interval, member, bounds⟩
  · exact .inl ordered
  · exact .inr ⟨interval, same.mem_iff.mp member, bounds⟩

/-- Exchanges within an interval leave the others related to it. -/
theorem rearrange {after : SortBuffer} (settled : Settled relation buffer ((r, upper) :: intervals))
    (disjoint : ∀ interval ∈ intervals, upper < interval.1 ∨ interval.2 < r) (bound : 1 ≤ r)
    (limit : upper ≤ buffer.count) (moved : Rearranged r upper buffer after) :
    Settled relation after ((r, upper) :: intervals) := by
  intro low high first less last
  rw [moved.count_eq] at last
  obtain ⟨low_origin, low_value, low_inside, low_outside⟩ := moved.values low
  obtain ⟨high_origin, high_value, high_inside, high_outside⟩ := moved.values high
  by_cases low_in : r ≤ low ∧ low ≤ upper
  · by_cases high_in : high ≤ upper
    · exact .inr ⟨(r, upper), List.mem_cons_self, low_in.1, high_in⟩
    · have spot := low_inside low_in
      rw [low_value, high_value, high_outside (by omega)]
      rcases settled low_origin high (by omega) (by omega) last with
        ordered | ⟨interval, member, left, right⟩
      · exact .inl ordered
      · rcases List.mem_cons.mp member with rfl | member
        · exact absurd right high_in
        · have far := disjoint interval member
          omega
  · rw [low_value, high_value, low_outside (by omega)]
    by_cases high_in : r ≤ high ∧ high ≤ upper
    · have spot := high_inside high_in
      rcases settled low high_origin first (by omega) (by omega) with
        ordered | ⟨interval, member, left, right⟩
      · exact .inl ordered
      · rcases List.mem_cons.mp member with rfl | member
        · simp only at left
          omega
        · have far := disjoint interval member
          omega
    · rw [high_outside (by omega)]
      exact settled low high first less last

/-- An interval is cut into two beside a pointer that both parts are related to. -/
theorem cut {j : Nat} (settled : Settled relation buffer ((r, upper) :: intervals))
    (left : ∀ number, r ≤ number → number < j → relation (buffer.value number) (buffer.value j))
    (right : ∀ number, j < number → number ≤ upper →
      relation (buffer.value j) (buffer.value number))
    (across : ∀ low high, r ≤ low → low < j → j < high → high ≤ upper →
      relation (buffer.value low) (buffer.value high)) :
    Settled relation buffer ((r, j - 1) :: (j + 1, upper) :: intervals) := by
  intro low high begins less ends
  rcases settled low high begins less ends with ordered | ⟨interval, member, bound, limit⟩
  · exact .inl ordered
  · rcases List.mem_cons.mp member with rfl | member
    · simp only at bound limit
      rcases Nat.lt_trichotomy low j with before | rfl | after
      · rcases Nat.lt_trichotomy high j with inside | rfl | beyond
        · exact .inr ⟨(r, j - 1), List.mem_cons_self, bound, by simp only; omega⟩
        · exact .inl (left low bound before)
        · exact .inl (across low high bound before beyond limit)
      · exact .inl (right high less limit)
      · exact .inr ⟨(j + 1, upper), List.mem_cons_of_mem _ List.mem_cons_self, after, limit⟩
    · exact .inr ⟨interval, List.mem_cons_of_mem _ (List.mem_cons_of_mem _ member), bound, limit⟩

end Settled

theorem Pending.perm {left right : List (Nat × Nat)} (pending : Pending length buffer left)
    (same : left.Perm right) : Pending length buffer right where
  wellFormed := pending.wellFormed
  inside := fun interval member => pending.inside interval (same.mem_iff.mpr member)
  disjoint := (same.pairwise_iff fun apart => apart.symm).mp pending.disjoint
  ordered := Settled.perm pending.ordered same

/-- Exchanges within an interval keep the others in order with it. -/
theorem Pending.rearrange {intervals : List (Nat × Nat)} {r upper : Nat} {after : SortBuffer}
    (pending : Pending length buffer ((r, upper) :: intervals))
    (moved : Rearranged r upper buffer after) (wellFormed : after.WellFormed length) :
    Pending length after ((r, upper) :: intervals) where
  wellFormed := wellFormed
  inside := by
    intro interval member
    rw [moved.count_eq]
    exact pending.inside interval member
  disjoint := pending.disjoint
  ordered := by
    obtain ⟨bound, limit, -⟩ := pending.inside (r, upper) List.mem_cons_self
    exact Settled.rearrange pending.ordered (List.pairwise_cons.mp pending.disjoint).1 bound limit
      moved

/-- The exchange with the middle record, and the two ends of the interval. -/
theorem Pending.converging {intervals : List (Nat × Nat)} {r upper : Nat}
    (pending : Pending length buffer ((r, upper) :: intervals)) (long : r + 2 ≤ upper) :
    let swapped := buffer.swap (r + (upper - r) / 2) r
    Rearranged r upper buffer swapped ∧ Pending length swapped ((r, upper) :: intervals) ∧
      Converging length r upper swapped (r + 1) upper := by
  intro swapped
  obtain ⟨first, last, -⟩ := pending.inside (r, upper) List.mem_cons_self
  simp only at first last
  have half : r + (upper - r) / 2 ≤ upper := by omega
  have front : Rearranged r upper buffer swapped :=
    swap_rearranged (by omega) half (le_refl _) (by omega)
  have formed : swapped.WellFormed length :=
    pending.wellFormed.swap (by omega) (by omega) (by omega) (by omega)
  have ready := pending.rearrange front formed
  exact ⟨front, ready, formed, first, last, by omega, by omega, le_refl _,
    ready.stops (by omega) (le_refl _) (by omega), fun _ _ _ => by omega, fun _ _ _ => by omega⟩

/-- What all pointers up to the slot are to the record of `r`, they are to it when it is in the
slot. -/
theorem swap_related {middle : SortBuffer} {r j : Nat} {relation : List UInt32 → List UInt32 → Prop}
    (small : ∀ number, r < number → number ≤ j → relation (middle.value number) (middle.value r))
    (number : Nat) (after : r ≤ number) (less : number < j) :
    relation ((middle.swap r j).value number) ((middle.swap r j).value j) := by
  rw [swap_value_right]
  rcases Nat.lt_or_eq_of_le after with later | rfl
  · rw [swap_value_other (by omega) (by omega)]
    exact small number later less.le
  · rw [swap_value_left]
    exact small j less (le_refl _)

section

variable {before middle : SortBuffer} {r upper j : Nat} (parted : Parted length r upper before middle j)
include parted

theorem Parted.rearranged_swap : Rearranged r upper before (middle.swap r j) :=
  (parted.rearranged.mono (Nat.le_succ r) (le_refl _)).trans
    (swap_rearranged (le_refl _) (parted.least.trans parted.most) parted.least parted.most)

theorem Parted.right {relation : List UInt32 → List UInt32 → Prop}
    (large : ∀ number, j < number → number ≤ upper →
      relation (middle.value r) (middle.value number))
    (number : Nat) (after : j < number) (limit : number ≤ upper) :
    relation ((middle.swap r j).value j) ((middle.swap r j).value number) := by
  have least := parted.least
  rw [swap_value_right, swap_value_other (by omega) (by omega)]
  exact large number after limit

/-- A partition cuts an interval into two. -/
theorem Parted.pending {intervals : List (Nat × Nat)}
    (pending : Pending length before ((r, upper) :: intervals)) :
    Pending length (middle.swap r j) ((r, j - 1) :: (j + 1, upper) :: intervals) := by
  obtain ⟨first, last, -⟩ := pending.inside (r, upper) List.mem_cons_self
  simp only at first last
  have low := parted.least
  have high := parted.most
  have count : middle.count = before.count := parted.rearranged.count_eq
  have final := pending.rearrange parted.rearranged_swap
    (parted.wellFormed.swap first (by omega) (by omega) (by omega))
  have left := swap_related parted.small
  have right := parted.right parted.large
  refine ⟨final.wellFormed, ?_, ?_, ?_⟩
  · intro interval member
    rcases List.mem_cons.mp member with rfl | member
    · have bound : (middle.swap r j).count = before.count := count
      simp only
      omega
    · rcases List.mem_cons.mp member with rfl | member
      · have bound : (middle.swap r j).count = before.count := count
        simp only
        omega
      · exact final.inside interval (List.mem_cons_of_mem _ member)
  · obtain ⟨apart, rest⟩ := List.pairwise_cons.mp final.disjoint
    refine List.pairwise_cons.mpr ⟨?_, List.pairwise_cons.mpr ⟨?_, rest⟩⟩
    · intro interval member
      rcases List.mem_cons.mp member with rfl | member
      · simp only
        omega
      · have far := apart interval member
        simp only at far ⊢
        omega
    · intro interval member
      have far := apart interval member
      simp only at far ⊢
      omega
  · exact Settled.cut final.ordered left right fun low high bound before beyond limit =>
      (left low bound before).trans (right high beyond limit)

end

end

end SortBuffer

end Firebird
