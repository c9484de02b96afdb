import Firebird.Jrd.Btr.CompoundOrder
import Firebird.Jrd.Btr.Selectivity

/-!
# Numbers of the segments in a key

Every key that `BTR_key` builds is marked: its groups have the numbers of their segments in front, from
the number of all segments down.
-/

namespace Firebird
namespace Selectivity

/-- A key with a whole group in front. -/
theorem Marked.group {marker : UInt8} {key : List UInt8} (some_segment : 1 ≤ marker.toNat)
    (marked : Marked false marker.toNat key) (a b c d : UInt8) :
    Marked false marker.toNat (marker :: a :: b :: c :: d :: key) := by
  have behind : ∀ group, (marker :: a :: b :: c :: d :: key).getD (5 * (group + 1)) 0 =
      key.getD (5 * group) 0 := by
    intro group
    have place_eq : 5 * (group + 1) = 5 * group + 1 + 1 + 1 + 1 + 1 := by omega
    rw [place_eq]
    rfl
  have grouped := marked.grouped
  refine ⟨?_, fun group inside => ?_, fun group inside => ?_⟩
  · simp only [STUFF_COUNT, List.length_cons] at grouped ⊢
    omega
  · simp only [List.length_cons] at inside
    cases group with
    | zero => exact ⟨some_segment, le_refl _⟩
    | succ group =>
        rw [behind]
        exact marked.bounded group (by omega)
  · simp only [List.length_cons] at inside
    cases group with
    | zero =>
        rw [← Nat.mul_succ, behind]
        exact (marked.bounded 0 (by omega)).2
    | succ group =>
        rw [← Nat.mul_succ, behind, behind, Nat.mul_succ]
        exact marked.descends group (by omega)

theorem marked_nil (segments : Nat) : Marked false segments [] :=
  ⟨by decide, fun _ inside => absurd inside (Nat.not_lt_zero _),
    fun _ inside => absurd inside (Nat.not_lt_zero _)⟩

theorem Marked.le {lower upper : Nat} {key : List UInt8} (marked : Marked false lower key)
    (le : lower ≤ upper) : Marked false upper key :=
  ⟨marked.grouped, fun group inside =>
    ⟨(marked.bounded group inside).1, (marked.bounded group inside).2.trans le⟩, marked.descends⟩

/-- A key with one group, which may be too short. -/
theorem marked_short {marker : UInt8} (some_segment : 1 ≤ marker.toNat) {bytes : List UInt8}
    (some_byte : bytes ≠ []) (short : bytes.length ≤ stuffCount) :
    Marked false marker.toNat (marker :: bytes) := by
  have length_pos := List.length_pos_of_ne_nil some_byte
  rw [stuffCount] at short
  refine ⟨?_, fun group inside => ?_, fun group inside => ?_⟩
  · rw [STUFF_COUNT, List.length_cons]
    omega
  · rw [List.length_cons] at inside
    have first : group = 0 := by omega
    rw [first]
    exact ⟨some_segment, le_refl _⟩
  · rw [List.length_cons] at inside
    omega

/-- One segment that fills its groups, and what follows it. -/
theorem Marked.emit_append {marker : UInt8} {rest : List UInt8} (some_segment : 1 ≤ marker.toNat)
    (marked : Marked false marker.toNat rest) :
    ∀ key : List UInt8, key.length % stuffCount = 0 →
      Marked false marker.toNat (emit marker 0 key ++ rest)
  | [], _ => marked
  | a :: b :: c :: d :: key, whole => by
      have whole : key.length % stuffCount = 0 := by
        simp only [stuffCount, List.length_cons] at whole ⊢
        omega
      exact Marked.group some_segment (Marked.emit_append some_segment marked key whole) a b c d
  | [_], whole => absurd whole Nat.one_ne_zero
  | [_, _], whole => absurd whole two_ne_zero
  | [_, _, _], whole => absurd whole three_ne_zero

/-- The last segment. -/
theorem marked_emit {marker : UInt8} (some_segment : 1 ≤ marker.toNat) :
    ∀ key : List UInt8, Marked false marker.toNat (emit marker 0 key)
  | [] => marked_nil _
  | a :: b :: c :: d :: key => Marked.group some_segment (marked_emit some_segment key) a b c d
  | [a] => @marked_short _ some_segment [a] (List.cons_ne_nil _ _) (Nat.le_of_ble_eq_true rfl)
  | [a, b] =>
      @marked_short _ some_segment [a, b] (List.cons_ne_nil _ _) (Nat.le_of_ble_eq_true rfl)
  | [a, b, c] =>
      @marked_short _ some_segment [a, b, c] (List.cons_ne_nil _ _) (Nat.le_of_ble_eq_true rfl)

variable {index : CompoundIndex}

/-- The number in front of the groups of segment `n`. -/
theorem marker_toNat {n : Nat} (more : n < index.idx_count) :
    (UInt8.ofNat (index.idx_count - n)).toNat = index.idx_count - n := by
  have le_max := index.le_max
  rw [UInt8.toNat_ofNat']
  exact Nat.mod_eq_of_lt (by omega)

theorem marked_stuffed (n : Nat) (keys : List (List UInt8)) (grouped : Grouped keys)
    (all : n + keys.length ≤ index.idx_count) :
    Marked false (index.idx_count - n) (stuffed index n keys) := by
  induction keys generalizing n with
  | nil => exact marked_nil _
  | cons key rest ih =>
      rw [List.length_cons] at all
      have marker_eq : (UInt8.ofNat (index.idx_count - n)).toNat = index.idx_count - n :=
        marker_toNat (by omega)
      have some_segment : 1 ≤ (UInt8.ofNat (index.idx_count - n)).toNat := by omega
      have behind : Marked false (UInt8.ofNat (index.idx_count - n)).toNat (stuffed index (n + 1) rest) :=
        (ih (n + 1) grouped.tail (by omega)).le (by omega)
      have segments_eq : Marked false (index.idx_count - n) = Marked false
          (UInt8.ofNat (index.idx_count - n)).toNat := congrArg (Marked false) marker_eq.symm
      rw [stuffed, segments_eq]
      cases rest with
      | nil =>
          rw [stuffed, List.append_nil]
          exact marked_emit some_segment key
      | cons next rest => exact Marked.emit_append some_segment behind key grouped.1

theorem shown_complement (byte : UInt8) : shown true (complement byte).toNat = byte.toNat := by
  have byte_lt := byte.toNat_lt
  rw [shown, if_pos rfl, complement_toNat]
  omega

/-- A descending index has the numbers of the ascending one, complemented. -/
theorem Marked.complemented {segments : Nat} {key : List UInt8} (marked : Marked false segments key) :
    Marked true segments (key.map complement) := by
  have shown_eq : ∀ place < key.length,
      shown true ((key.map complement).getD place 0).toNat = shown false (key.getD place 0).toNat := by
    intro place inside
    rw [List.getD_eq_getElem _ _ (by rw [List.length_map]; exact inside), List.getElem_map,
      shown_complement, List.getD_eq_getElem _ _ inside]
    rfl
  refine ⟨by rw [List.length_map]; exact marked.grouped, fun group inside => ?_, fun group inside => ?_⟩
  · rw [List.length_map] at inside
    rw [shown_eq _ inside]
    exact marked.bounded group inside
  · rw [List.length_map] at inside
    rw [shown_eq _ inside, shown_eq _ (by omega)]
    exact marked.descends group inside

/-- Every key of `BTR_key` is marked. -/
theorem marked_btrKey {record : List SegmentKey} {key : List UInt8}
    (all_segments : record.length = index.idx_count) (built : index.btrKey record = .ok key) :
    Marked index.descending index.idx_count key := by
  have ascending : Marked false index.idx_count (stuffed index 0 (CompoundIndex.tuple record)) :=
    marked_stuffed 0 _ (grouped_padInit _) (by
      rw [CompoundIndex.tuple_length, all_segments, Nat.zero_add])
  rw [(CompoundIndex.btrKey_ok all_segments built).1, CompoundIndex.image]
  by_cases descends : index.descending = true
  · rw [if_pos descends, descends]
    exact ascending.complemented
  · rw [if_neg descends, Bool.eq_false_iff.mpr descends]
    exact ascending

end Selectivity
end Firebird
