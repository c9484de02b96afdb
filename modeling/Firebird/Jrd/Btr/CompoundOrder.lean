import Mathlib.Data.List.Lex
import Firebird.Library.Lexicographic
import Firebird.Jrd.Btr.CompoundKey

/-!
# The order of compound index keys

Earlier segments have higher markers, so the bytes of two stuffed keys compare like the tuples of
their filled up segments.  A search key is a prefix of the keys it looks for.
-/

namespace Firebird

/-- The list is empty or its first byte is below the marker. -/
def Below (marker : UInt8) (bytes : List UInt8) : Prop := ∀ byte ∈ bytes.head?, byte < marker

/-- The segment ends with a whole group, or nothing comes behind it. -/
def Aligned (stuff_count : Nat) (key rest : List UInt8) : Prop :=
  rest ≠ [] → (stuff_count + 3 * key.length) % stuffCount = 0

/-- The search segments are the first segments of the tuple, except that the last nonempty one only
has to be the beginning of its segment. -/
def Matches : List (List UInt8) → List (List UInt8) → Prop
  | [], _ => True
  | _ :: _, [] => False
  | key :: search, segment :: rest =>
      key = segment ∧ Matches search rest ∨ key <+: segment ∧ ∀ later ∈ search, later = []

instance Matches.decidable : ∀ search segments, Decidable (Matches search segments)
  | [], _ => isTrue trivial
  | _ :: _, [] => isFalse id
  | key :: search, segment :: rest =>
      have := Matches.decidable search rest
      inferInstanceAs (Decidable (key = segment ∧ Matches search rest ∨
        key <+: segment ∧ ∀ later ∈ search, later = []))

theorem Below.head_lt {marker byte : UInt8} {bytes rest : List UInt8} (below : Below marker bytes)
    (head : bytes = byte :: rest) : byte < marker := below byte (by rw [head]; rfl)

theorem Aligned.turn {byte : UInt8} {key rest : List UInt8}
    (aligned : Aligned 0 (byte :: key) rest) : Aligned (stuffCount - 1) key rest := by
  intro some_rest
  have whole := aligned some_rest
  rw [List.length_cons, stuffCount] at whole
  rw [stuffCount]
  omega

theorem Aligned.step {stuff_count : Nat} {byte : UInt8} {key rest : List UInt8}
    (aligned : Aligned (stuff_count + 1) (byte :: key) rest) : Aligned stuff_count key rest := by
  intro some_rest
  have whole := aligned some_rest
  rw [List.length_cons, stuffCount] at whole
  rw [stuffCount]
  omega

theorem Aligned.done {stuff_count : Nat} {rest : List UInt8}
    (aligned : Aligned (stuff_count + 1) [] rest) (small : stuff_count + 1 < stuffCount) :
    rest = [] := by
  refine not_not.mp fun some_rest => ?_
  have whole := aligned some_rest
  rw [List.length_nil, Nat.mul_zero, Nat.add_zero, Nat.mod_eq_of_lt small] at whole
  exact Nat.succ_ne_zero _ whole

theorem emit_lt_emit {marker : UInt8} {stuff_count : Nat} {left right after before : List UInt8}
    (small : stuff_count < stuffCount)
    (left_below : Below marker after) (right_below : Below marker before)
    (left_aligned : Aligned stuff_count left after)
    (right_aligned : Aligned stuff_count right before) :
    emit marker stuff_count left ++ after < emit marker stuff_count right ++ before ↔
      left < right ∨ left = right ∧ after < before := by
  induction left generalizing stuff_count right with
  | nil =>
      cases right with
      | nil => simp [emit]
      | cons second right =>
          cases stuff_count with
          | zero =>
              cases after with
              | nil => simp [emit]
              | cons head after => simp [emit, List.cons_lt_cons_iff, left_below.head_lt rfl]
          | succ stuff_count =>
              rw [left_aligned.done small]
              simp [emit]
  | cons first left ih =>
      cases right with
      | nil =>
          cases stuff_count with
          | zero =>
              cases before with
              | nil => simp [emit]
              | cons head before =>
                  have high := right_below.head_lt rfl
                  simp [emit, List.cons_lt_cons_iff, high.not_gt, high.ne']
          | succ stuff_count =>
              rw [right_aligned.done small]
              simp [emit]
      | cons second right =>
          cases stuff_count with
          | zero =>
              have rest := @ih (stuffCount - 1) right (Nat.lt_succ_self 3)
                left_aligned.turn right_aligned.turn
              simp only [emit, List.cons_append, List.cons_lt_cons_iff, lt_irrefl, false_or,
                true_and, rest, List.cons.injEq, and_or_left, and_assoc, or_assoc]
          | succ stuff_count =>
              have rest := @ih stuff_count right (Nat.lt_of_succ_lt small)
                left_aligned.step right_aligned.step
              simp only [emit, List.cons_append, List.cons_lt_cons_iff, rest, List.cons.injEq,
                and_or_left, and_assoc, or_assoc]

theorem emit_prefix_emit {marker : UInt8} {stuff_count : Nat}
    {left right after before : List UInt8} (small : stuff_count < stuffCount)
    (left_below : Below marker after) (right_below : Below marker before)
    (left_aligned : Aligned stuff_count left after)
    (right_aligned : Aligned stuff_count right before) :
    emit marker stuff_count left ++ after <+: emit marker stuff_count right ++ before ↔
      left = right ∧ after <+: before ∨ left <+: right ∧ after = [] := by
  induction left generalizing stuff_count right with
  | nil =>
      cases right with
      | nil =>
          constructor
          · intro start
            exact .inl ⟨rfl, start⟩
          · rintro (⟨-, start⟩ | ⟨-, rfl⟩)
            · exact start
            · exact List.nil_prefix
      | cons second right =>
          cases stuff_count with
          | zero =>
              cases after with
              | nil => simp [emit]
              | cons head after => simp [emit, (left_below.head_lt rfl).ne]
          | succ stuff_count =>
              rw [left_aligned.done small]
              simp [emit]
  | cons first left ih =>
      cases right with
      | nil =>
          cases stuff_count with
          | zero =>
              cases before with
              | nil => simp [emit]
              | cons head before => simp [emit, (right_below.head_lt rfl).ne']
          | succ stuff_count =>
              rw [right_aligned.done small]
              simp [emit]
      | cons second right =>
          cases stuff_count with
          | zero =>
              have rest := @ih (stuffCount - 1) right (Nat.lt_succ_self 3)
                left_aligned.turn right_aligned.turn
              simp only [emit, List.cons_append, List.cons_prefix_cons, true_and, rest,
                List.cons.injEq, and_or_left, and_assoc]
          | succ stuff_count =>
              have rest := @ih stuff_count right (Nat.lt_of_succ_lt small)
                left_aligned.step right_aligned.step
              simp only [emit, List.cons_append, List.cons_prefix_cons, rest, List.cons.injEq,
                and_or_left, and_assoc]

/-! ## Tuples of segments -/

section

variable {index : CompoundIndex}

theorem emit_eq_nil {marker : UInt8} {key : List UInt8} : emit marker 0 key = [] ↔ key = [] := by
  cases key with
  | nil => simp [emit]
  | cons byte key => simp [emit]

theorem stuffed_eq_nil {n : Nat} {keys : List (List UInt8)} :
    stuffed index n keys = [] ↔ ∀ key ∈ keys, key = [] := by
  induction keys generalizing n with
  | nil => simp [stuffed]
  | cons key rest ih => simp [stuffed, emit_eq_nil, ih]

theorem stuffed_below {n : Nat} {marker : UInt8} {keys : List (List UInt8)}
    (high : index.idx_count - n < marker.toNat) : Below marker (stuffed index n keys) := by
  induction keys generalizing n with
  | nil => simp [stuffed, Below]
  | cons key rest ih =>
      cases key with
      | nil => exact ih (by omega)
      | cons byte key =>
          intro first head
          obtain rfl := Option.some.inj head
          have limit := index.le_max
          rw [UInt8.lt_iff_toNat_lt, UInt8.toNat_ofNat_of_lt' (by rw [UInt8.size]; omega)]
          exact high

theorem marker_below {n : Nat} {key : List UInt8} {rest : List (List UInt8)}
    (fits : n + (key :: rest).length ≤ index.idx_count) :
    Below (UInt8.ofNat (index.idx_count - n)) (stuffed index (n + 1) rest) := by
  have limit := index.le_max
  rw [List.length_cons] at fits
  refine stuffed_below ?_
  rw [UInt8.toNat_ofNat_of_lt' (by rw [UInt8.size]; omega)]
  omega

theorem Grouped.tail {key : List UInt8} {rest : List (List UInt8)} (grouped : Grouped (key :: rest)) :
    Grouped rest := by
  cases rest with
  | nil => trivial
  | cons next rest => exact grouped.2

theorem Grouped.aligned {n : Nat} {key : List UInt8} {rest : List (List UInt8)}
    (grouped : Grouped (key :: rest)) : Aligned 0 key (stuffed index n rest) := by
  cases rest with
  | nil => exact absurd rfl
  | cons next rest =>
      intro _
      have whole := grouped.1
      rw [stuffCount] at whole ⊢
      omega

/-- Stuffed keys compare like their tuples. -/
theorem stuffed_lt_stuffed {n : Nat} {left right : List (List UInt8)}
    (same : left.length = right.length) (fits : n + left.length ≤ index.idx_count)
    (left_grouped : Grouped left) (right_grouped : Grouped right) :
    stuffed index n left < stuffed index n right ↔ left < right := by
  induction left generalizing n right with
  | nil =>
      rw [List.length_nil] at same
      rw [List.length_eq_zero_iff.mp same.symm]
      simp [stuffed]
  | cons first left ih =>
      cases right with
      | nil => cases same
      | cons second right =>
          have right_fits : n + (second :: right).length ≤ index.idx_count := same ▸ fits
          have rest := @ih (n + 1) right (Nat.succ.inj same)
            (by rw [List.length_cons] at fits; omega) left_grouped.tail right_grouped.tail
          rw [stuffed, stuffed, emit_lt_emit (by decide) (marker_below fits)
            (marker_below right_fits) left_grouped.aligned right_grouped.aligned, rest,
            List.cons_lt_cons_iff]

/-- The stuffed search segments begin the keys that they match. -/
theorem stuffed_prefix_stuffed {n : Nat} {search segments : List (List UInt8)}
    (shorter : search.length ≤ segments.length) (fits : n + segments.length ≤ index.idx_count)
    (search_grouped : Grouped search) (grouped : Grouped segments) :
    stuffed index n search <+: stuffed index n segments ↔ Matches search segments := by
  induction search generalizing n segments with
  | nil => simp [stuffed, Matches]
  | cons key search ih =>
      cases segments with
      | nil => cases shorter
      | cons segment rest =>
          have search_fits : n + (key :: search).length ≤ index.idx_count := by omega
          have later := @ih (n + 1) rest (Nat.le_of_succ_le_succ shorter)
            (by rw [List.length_cons] at fits; omega) search_grouped.tail grouped.tail
          rw [stuffed, stuffed, emit_prefix_emit (by decide) (marker_below search_fits)
            (marker_below fits) search_grouped.aligned grouped.aligned, later, stuffed_eq_nil,
            Matches]

theorem stuffed_inj {n : Nat} {left right : List (List UInt8)}
    (same : left.length = right.length) (fits : n + left.length ≤ index.idx_count)
    (left_grouped : Grouped left) (right_grouped : Grouped right) :
    stuffed index n left = stuffed index n right ↔ left = right := by
  constructor
  · intro equal
    have up := stuffed_lt_stuffed same fits left_grouped right_grouped
    have down := stuffed_lt_stuffed same.symm (same ▸ fits) right_grouped left_grouped
    rcases lt_trichotomy left right with less | done | more
    · exact absurd (up.mpr less) (equal ▸ lt_irrefl _)
    · exact done
    · exact absurd (down.mpr more) (equal ▸ lt_irrefl _)
  · rintro rfl
    rfl

theorem Matches.of_begins {search segments : List (List UInt8)} (start : search <+: segments) :
    Matches search segments := by
  induction search generalizing segments with
  | nil => trivial
  | cons key search ih =>
      obtain ⟨rest, rfl⟩ := start
      exact .inl ⟨rfl, ih (List.prefix_append _ _)⟩

theorem map_padded_begins {search segments : List (List UInt8)} (start : search <+: segments)
    (shorter : search.length < segments.length) : search.map padded <+: padInit segments := by
  induction search generalizing segments with
  | nil => exact List.nil_prefix
  | cons key search ih =>
      obtain ⟨rest, rfl⟩ := start
      cases more : search ++ rest with
      | nil =>
          rw [List.cons_append, more] at shorter
          simp at shorter
      | cons next segments =>
          have later := @ih (next :: segments) (more ▸ List.prefix_append _ _)
            (by rw [List.cons_append, more] at shorter; simpa using shorter)
          rw [List.cons_append, more, padInit, List.map_cons]
          exact List.cons_prefix_cons.mpr ⟨rfl, later⟩

theorem padInit_matches {search segments : List (List UInt8)} (start : search <+: segments) :
    Matches (padInit search) (padInit segments) := by
  induction search using padInit.induct generalizing segments with
  | case1 => trivial
  | case2 last =>
      obtain ⟨rest, rfl⟩ := start
      refine ?_
      cases rest with
      | nil => exact .inl ⟨rfl, trivial⟩
      | cons next rest => exact .inr ⟨List.prefix_append _ _, by simp⟩
  | case3 key next search ih =>
      obtain ⟨rest, rfl⟩ := start
      exact .inl ⟨rfl, ih (List.prefix_append _ _)⟩

namespace CompoundIndex

theorem searchSegments_matches {search record : List SegmentKey} {fuzzy : Bool}
    (start : search <+: record) (some_segment : search ≠ [])
    (all_segments : record.length = index.idx_count) :
    Matches (index.searchSegments search fuzzy) (padInit (record.map SegmentKey.key_data)) := by
  have keys : search.map SegmentKey.key_data <+: record.map SegmentKey.key_data :=
    start.map SegmentKey.key_data
  have count : 0 < search.length := List.length_pos_iff.mpr some_segment
  rw [searchSegments]
  split
  · split
    · trivial
    · split
      · refine .of_begins (map_padded_begins ((List.dropLast_prefix _).trans keys) ?_)
        have bound := start.length_le
        simp only [List.length_dropLast, List.length_map]
        omega
      · exact padInit_matches keys
  · split
    · rename_i fewer
      refine .of_begins (map_padded_begins keys ?_)
      have bound := start.length_le
      simp only [List.length_map]
      omega
    · exact padInit_matches keys

theorem searchSegments_grouped (search : List SegmentKey) (fuzzy : Bool) :
    Grouped (index.searchSegments search fuzzy) := by
  rw [searchSegments]
  split
  · split
    · trivial
    · split
      · exact grouped_map_padded _
      · exact grouped_padInit _
  · split
    · exact grouped_map_padded _
    · exact grouped_padInit _

theorem searchSegments_length (search : List SegmentKey) (fuzzy : Bool) :
    (index.searchSegments search fuzzy).length ≤ search.length := by
  rw [searchSegments]
  split
  · split
    · exact Nat.zero_le _
    · split
      · simp
      · simp [padInit_length]
  · split
    · simp
    · simp [padInit_length]

theorem image_begins {left right : List UInt8} :
    index.image left <+: index.image right ↔ left <+: right := by
  rw [image, image]
  split
  · exact List.prefix_map_iff_of_injective complement_strictAnti.injective
  · exact Iff.rfl

/-- The filled up segments of a record. -/
def tuple (segments : List SegmentKey) : List (List UInt8) :=
  padInit (segments.map SegmentKey.key_data)

theorem btrKey_ok {record : List SegmentKey} {key : List UInt8}
    (all_segments : record.length = index.idx_count) (built : index.btrKey record = .ok key) :
    key = index.image (stuffed index 0 (tuple record)) ∧
      (stuffed index 0 (tuple record)).length < index.maxKeyLength := by
  have some_segment : record ≠ [] := by
    have compound := index.compound
    rintro rfl
    rw [← all_segments, List.length_nil] at compound
    omega
  rcases @btrKey_cases index record some_segment with ⟨done, fits⟩ | ⟨failed, -⟩
  · rw [done] at built
    exact ⟨(Except.ok.inj built).symm, fits⟩
  · rw [failed] at built
    cases built

theorem tuple_length (record : List SegmentKey) : (tuple record).length = record.length := by
  rw [tuple, padInit_length, List.length_map]

/-- Keys that `BTR_key` builds compare like the tuples of their segments, in a descending index the
other way round unless one of them begins the other. -/
theorem image_lt_image {left right : List SegmentKey}
    (left_all : left.length = index.idx_count) (right_all : right.length = index.idx_count) :
    index.image (stuffed index 0 (tuple left)) < index.image (stuffed index 0 (tuple right)) ↔
      if index.descending then
        Matches (tuple left) (tuple right) ∧ tuple left ≠ tuple right ∨
          tuple right < tuple left ∧ ¬ Matches (tuple right) (tuple left)
      else
        tuple left < tuple right := by
  have left_length : (tuple left).length = index.idx_count := (tuple_length left).trans left_all
  have right_length : (tuple right).length = index.idx_count := (tuple_length right).trans right_all
  have same := left_length.trans right_length.symm
  have left_fits : 0 + (tuple left).length ≤ index.idx_count := by omega
  have right_fits : 0 + (tuple right).length ≤ index.idx_count := by omega
  have left_grouped : Grouped (tuple left) := grouped_padInit _
  have right_grouped : Grouped (tuple right) := grouped_padInit _
  rw [image, image]
  split
  · rw [Lexicographic.map_lt_map_iff complement_strictAnti,
      stuffed_prefix_stuffed same.le right_fits left_grouped right_grouped, ne_eq,
      stuffed_inj same left_fits left_grouped right_grouped,
      stuffed_lt_stuffed same.symm right_fits right_grouped left_grouped,
      stuffed_prefix_stuffed same.ge left_fits right_grouped left_grouped]
  · exact stuffed_lt_stuffed same left_fits left_grouped right_grouped

theorem image_inj {left right : List UInt8} : index.image left = index.image right ↔ left = right := by
  rw [image, image]
  split
  · exact (List.map_injective_iff.mpr complement_strictAnti.injective).eq_iff
  · exact Iff.rfl

/-- The search key of the first segments is short enough when the key of the record is. -/
theorem btrMakeKey_builds {search record : List SegmentKey} {record_key : List UInt8}
    (fuzzy : Bool) (start : search <+: record) (some_segment : search ≠ [])
    (all_segments : record.length = index.idx_count)
    (built : index.btrKey record = .ok record_key) :
    ∃ key, index.btrMakeKey search fuzzy = .ok key := by
  have keys : search.map SegmentKey.key_data <+: record.map SegmentKey.key_data :=
    start.map SegmentKey.key_data
  have fits := (btrKey_ok all_segments built).2
  have bound := start.length_le
  have record_fits : 0 + (tuple record).length ≤ index.idx_count := by
    rw [tuple_length]
    omega
  rcases @btrMakeKey_cases index search fuzzy some_segment with done | ⟨-, long | ⟨fewer, long⟩⟩
  · exact ⟨_, done⟩
  · have begins := (@stuffed_prefix_stuffed index 0 (padInit (search.map SegmentKey.key_data))
      (tuple record) (by rw [padInit_length, tuple_length, List.length_map]; exact bound)
      record_fits (grouped_padInit _) (grouped_padInit _)).mpr (padInit_matches keys)
    have shorter := begins.length_le
    omega
  · have begins := (@stuffed_prefix_stuffed index 0 ((search.map SegmentKey.key_data).map padded)
      (tuple record) (by rw [tuple_length, List.length_map, List.length_map]; exact bound)
      record_fits (grouped_map_padded _) (grouped_padInit _)).mpr
      (.of_begins (map_padded_begins keys (by rw [List.length_map, List.length_map]; omega)))
    have shorter := begins.length_le
    omega

/-- What the keys of a compound index mean.  Keys of records compare like the tuples of their filled
up segments; in a descending index the order is reversed, but a key that begins another one stays
below it.  The search key for the first segments begins the keys of all records with these
segments, so it is not above them, and it begins a key exactly when its segments match. -/
theorem compoundKey_order (index : CompoundIndex) :
    (∀ (left right : List SegmentKey) (left_key right_key : List UInt8),
      left.length = index.idx_count → right.length = index.idx_count →
      index.btrKey left = .ok left_key → index.btrKey right = .ok right_key →
        (left_key = right_key ↔ tuple left = tuple right) ∧
        (left_key < right_key ↔
          if index.descending then
            Matches (tuple left) (tuple right) ∧ tuple left ≠ tuple right ∨
              tuple right < tuple left ∧ ¬ Matches (tuple right) (tuple left)
          else
            tuple left < tuple right)) ∧
    (∀ (search record : List SegmentKey) (record_key : List UInt8) (fuzzy : Bool),
      search ≠ [] → search.length ≤ index.idx_count → record.length = index.idx_count →
      index.btrKey record = .ok record_key →
        (∀ {key : List UInt8}, index.btrMakeKey search fuzzy = .ok key →
          (key <+: record_key ↔
            Matches (index.searchSegments search fuzzy) (tuple record))) ∧
        (search <+: record → ∃ key, index.btrMakeKey search fuzzy = .ok key ∧
          key <+: record_key ∧ ¬ record_key < key)) := by
  constructor
  · intro left right left_key right_key left_all right_all left_built right_built
    obtain ⟨rfl, -⟩ := btrKey_ok left_all left_built
    obtain ⟨rfl, -⟩ := btrKey_ok right_all right_built
    refine ⟨?_, image_lt_image left_all right_all⟩
    rw [image_inj]
    exact stuffed_inj (by rw [tuple_length, tuple_length, left_all, right_all])
      (by rw [tuple_length]; omega) (grouped_padInit _) (grouped_padInit _)
  · intro search record record_key fuzzy some_segment fewer all_segments built
    have matching : ∀ {key : List UInt8}, index.btrMakeKey search fuzzy = .ok key →
        (key <+: record_key ↔ Matches (index.searchSegments search fuzzy) (tuple record)) := by
      intro key search_built
      obtain ⟨rfl, -⟩ := btrKey_ok all_segments built
      have limit := @searchSegments_length index search fuzzy
      rcases @btrMakeKey_cases index search fuzzy some_segment with done | ⟨failed, -⟩
      · obtain rfl := Except.ok.inj (done.symm.trans search_built)
        rw [image_begins]
        exact stuffed_prefix_stuffed (by rw [tuple_length]; omega) (by rw [tuple_length]; omega)
          (searchSegments_grouped _ _) (grouped_padInit _)
      · rw [failed] at search_built
        cases search_built
    refine ⟨matching, fun start => ?_⟩
    obtain ⟨key, search_built⟩ := btrMakeKey_builds fuzzy start some_segment all_segments built
    have begins := (matching search_built).mpr
      (searchSegments_matches start some_segment all_segments)
    exact ⟨key, search_built, begins, Lexicographic.not_lt_of_begins begins⟩

/-- An index on two segments. -/
def pair (descending : Bool) : CompoundIndex where
  idx_count := 2
  compound := by decide
  le_max := by decide
  descending := descending
  maxKeyLength := 1024

/-- Of the records `("abcdefgh", "x")` and `("abd", "x")` the search for `"abcd"` in the first
segment finds the first one. -/
theorem compoundKey_order_pair :
    [2, 97, 98, 99, 100, 2, 101, 102, 103, 104, 1, 120] < ([2, 97, 98, 100, 0, 1, 120] : List UInt8) ∧
      [2, 97, 98, 99, 100] <+: ([2, 97, 98, 99, 100, 2, 101, 102, 103, 104, 1, 120] : List UInt8) ∧
      ¬ [2, 97, 98, 99, 100] <+: ([2, 97, 98, 100, 0, 1, 120] : List UInt8) := by
  have records := (compoundKey_order (pair false)).1
    [⟨[97, 98, 99, 100, 101, 102, 103, 104], false⟩, ⟨[120], false⟩]
    [⟨[97, 98, 100], false⟩, ⟨[120], false⟩] _ _ rfl rfl rfl rfl
  have first := ((compoundKey_order (pair false)).2 [⟨[97, 98, 99, 100], false⟩]
    [⟨[97, 98, 99, 100, 101, 102, 103, 104], false⟩, ⟨[120], false⟩] _ false
    (by decide) (by decide) rfl rfl).1 rfl
  have second := ((compoundKey_order (pair false)).2 [⟨[97, 98, 99, 100], false⟩]
    [⟨[97, 98, 100], false⟩, ⟨[120], false⟩] _ false
    (by decide) (by decide) rfl rfl).1 rfl
  exact ⟨records.2.mpr (by decide), first.mpr (by decide), mt second.mp (by decide)⟩

/-- A search for `"abcd"` in the first segment also finds `"abcdefgh"`, and in a descending index
the keys of `"a"` and `"b"` are the other way round. -/
theorem compoundKey_not_exact :
    (∃ record_key key,
      (pair false).btrKey [⟨[97, 98, 99, 100, 101, 102, 103, 104], false⟩, ⟨[120], false⟩] =
        .ok record_key ∧
      (pair false).btrMakeKey [⟨[97, 98, 99, 100], false⟩] false = .ok key ∧
      key <+: record_key ∧
      padded [97, 98, 99, 100] ≠ padded [97, 98, 99, 100, 101, 102, 103, 104]) ∧
    ∃ left_key right_key,
      (pair true).btrKey [⟨[97], false⟩, ⟨[120], false⟩] = .ok left_key ∧
      (pair true).btrKey [⟨[98], false⟩, ⟨[120], false⟩] = .ok right_key ∧
      tuple [⟨[97], false⟩, ⟨[120], false⟩] < tuple [⟨[98], false⟩, ⟨[120], false⟩] ∧
      right_key < left_key := by
  refine ⟨⟨_, _, rfl, rfl, ?_, ?_⟩, _, _, rfl, rfl, ?_, ?_⟩
  · decide
  · decide
  · decide
  · decide

end CompoundIndex

end

end Firebird
