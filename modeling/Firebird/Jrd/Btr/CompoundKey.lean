import Mathlib.Data.List.Basic
import Firebird.Common.Byte

/-!
# Compound index keys

`BTR_key` and `BTR_make_key` cut the key of each segment into groups of `STUFF_COUNT` bytes and put
a marker in front of each group, higher for earlier segments.  Segments before the last are filled
up with zeros.  The keys of the segments are those that `compress` leaves.
-/

namespace Firebird

/-- `STUFF_COUNT`. -/
def stuffCount : Nat := 4

/-- What `compress` leaves in a `temporary_key`. -/
structure SegmentKey where
  key_data : List UInt8
  /-- The flag `key_empty` is still set. -/
  key_empty : Bool
  deriving DecidableEq, Repr

/-- A compound index; the number of its segments fits the marker byte. -/
structure CompoundIndex where
  idx_count : Nat
  compound : 2 ≤ idx_count
  /-- `MAX_INDEX_SEGMENTS`. -/
  le_max : idx_count ≤ 16
  /-- `idx_descending`. -/
  descending : Bool
  /-- `getMaxIndexKeyLength`. -/
  maxKeyLength : Nat

/-- `idx_e_keytoobig`. -/
inductive IndexError where
  | keyTooBig
  deriving DecidableEq, Repr

/-- The variables of the two loops. -/
structure Stuffing where
  /-- The bytes up to `p`. -/
  key_data : List UInt8
  stuff_count : Nat
  prior_length : Nat
  deriving DecidableEq, Repr

namespace CompoundIndex

variable (index : CompoundIndex)

/-- `*p++ = byte`, and the check behind it. -/
def write (state : Stuffing) (byte : UInt8) : Except IndexError Stuffing :=
  if index.maxKeyLength ≤ state.key_data.length + 1 then
    .error .keyTooBig
  else
    .ok { state with key_data := state.key_data ++ [byte] }

/-- `for (; stuff_count; --stuff_count)`. -/
def stuffZeros (state : Stuffing) : Nat → Except IndexError Stuffing
  | 0 => .ok { state with stuff_count := 0 }
  | stuff_count + 1 => do
      let state ← index.write state 0
      stuffZeros state stuff_count

/-- The loop over the bytes of one segment. -/
def stuffBytes (marker : UInt8) (state : Stuffing) : List UInt8 → Except IndexError Stuffing
  | [] => .ok state
  | byte :: rest => do
      let state ←
        if state.stuff_count = 0 then do
          let state ← index.write state marker
          pure { state with stuff_count := stuffCount }
        else
          pure state
      let state ← index.write state byte
      stuffBytes marker { state with stuff_count := state.stuff_count - 1 } rest

/-- The loop over the segments, from the segment `n` on. -/
def stuffSegments (state : Stuffing) (n : Nat) : List SegmentKey → Except IndexError Stuffing
  | [] => .ok state
  | segment :: rest => do
      let state ← index.stuffZeros state state.stuff_count
      let state := { state with prior_length := state.key_data.length }
      let state ← index.stuffBytes (UInt8.ofNat (index.idx_count - n)) state segment.key_data
      stuffSegments state (n + 1) rest

/-- The last checks, and `BTR_complement_key` for a descending index. -/
def finish (key : List UInt8) : Except IndexError (List UInt8) :=
  if index.maxKeyLength ≤ key.length then
    .error .keyTooBig
  else
    .ok (if index.descending then key.map complement else key)

/-- `BTR_key`, from the keys of the record's segments. -/
def btrKey (segments : List SegmentKey) : Except IndexError (List UInt8) := do
  let state ← index.stuffSegments ⟨[], 0, 0⟩ 0 segments
  index.finish state.key_data

/-- `BTR_make_key`, from the keys of the first search values. -/
def btrMakeKey (segments : List SegmentKey) (fuzzy : Bool) : Except IndexError (List UInt8) := do
  let state ← index.stuffSegments ⟨[], 0, 0⟩ 0 segments
  let state ←
    if fuzzy = false ∧ segments.length ≠ index.idx_count then
      index.stuffZeros state state.stuff_count
    else
      pure state
  let key :=
    if fuzzy = true ∧ (segments.getLast?.map SegmentKey.key_empty).getD false = true then
      state.key_data.take state.prior_length
    else
      state.key_data
  let is_key_empty := segments.all SegmentKey.key_empty
  index.finish (if is_key_empty = true ∧ fuzzy = true then [] else key)

end CompoundIndex

/-! ## The stuffed bytes -/

/-- The bytes of a segment with their markers, when `stuff_count` bytes are left in the group. -/
def emit (marker : UInt8) : Nat → List UInt8 → List UInt8
  | _, [] => []
  | 0, byte :: rest => marker :: byte :: emit marker (stuffCount - 1) rest
  | stuff_count + 1, byte :: rest => byte :: emit marker stuff_count rest

/-- The bytes still missing in the last group of a segment. -/
def gap (length : Nat) : Nat := (stuffCount - length % stuffCount) % stuffCount

/-- A segment key, filled up with zeros to whole groups. -/
def padded (key : List UInt8) : List UInt8 := key ++ List.replicate (gap key.length) 0

/-- All segment keys but the last filled up. -/
def padInit : List (List UInt8) → List (List UInt8)
  | [] => []
  | [last] => [last]
  | key :: next :: rest => padded key :: padInit (next :: rest)

/-- The stuffed keys from the segment `n` on. -/
def stuffed (index : CompoundIndex) (n : Nat) : List (List UInt8) → List UInt8
  | [] => []
  | key :: rest =>
      emit (UInt8.ofNat (index.idx_count - n)) 0 key ++ stuffed index (n + 1) rest

/-- All keys but the last consist of whole groups. -/
def Grouped : List (List UInt8) → Prop
  | key :: next :: rest => key.length % stuffCount = 0 ∧ Grouped (next :: rest)
  | _ => True

theorem padded_length (key : List UInt8) : (padded key).length % stuffCount = 0 := by
  rw [padded, List.length_append, List.length_replicate, gap, stuffCount]
  omega

theorem padInit_ne_nil {keys : List (List UInt8)} (some_key : keys ≠ []) : padInit keys ≠ [] := by
  cases keys with
  | nil => exact absurd rfl some_key
  | cons key rest =>
      cases rest with
      | nil => exact List.cons_ne_nil _ _
      | cons next rest => exact List.cons_ne_nil _ _

theorem padInit_eq {keys : List (List UInt8)} (some_key : keys ≠ []) :
    padInit keys = keys.dropLast.map padded ++ [keys.getLastD []] := by
  induction keys using padInit.induct with
  | case1 => exact absurd rfl some_key
  | case2 last => rfl
  | case3 key next rest ih => rw [padInit, ih (List.cons_ne_nil _ _)]; rfl

theorem stuffed_append (index : CompoundIndex) (n : Nat) (front back : List (List UInt8)) :
    stuffed index n (front ++ back) =
      stuffed index n front ++ stuffed index (n + front.length) back := by
  induction front generalizing n with
  | nil => rfl
  | cons key front ih =>
      rw [List.cons_append, stuffed, stuffed, ih, List.append_assoc, List.length_cons,
        Nat.add_assoc, Nat.add_comm 1]

theorem padInit_length (keys : List (List UInt8)) : (padInit keys).length = keys.length := by
  induction keys using padInit.induct with
  | case1 => rfl
  | case2 last => rfl
  | case3 key next rest ih => simp only [padInit, List.length_cons] at ih ⊢; omega

theorem grouped_cons {key : List UInt8} {rest : List (List UInt8)}
    (whole : key.length % stuffCount = 0) (grouped : Grouped rest) : Grouped (key :: rest) := by
  cases rest with
  | nil => trivial
  | cons next rest => exact ⟨whole, grouped⟩

theorem grouped_padInit (keys : List (List UInt8)) : Grouped (padInit keys) := by
  induction keys using padInit.induct with
  | case1 => trivial
  | case2 last => trivial
  | case3 key next rest ih => exact grouped_cons (padded_length key) ih

theorem grouped_map_padded (keys : List (List UInt8)) : Grouped (keys.map padded) := by
  induction keys with
  | nil => trivial
  | cons key rest ih => exact grouped_cons (padded_length key) ih

theorem emit_append (marker : UInt8) (stuff_count : Nat) (front back : List UInt8)
    (small : stuff_count < stuffCount) :
    emit marker stuff_count (front ++ back) =
      emit marker stuff_count front ++
        emit marker ((stuff_count + 3 * front.length) % stuffCount) back := by
  induction front generalizing stuff_count with
  | nil => rw [List.length_nil, Nat.mul_zero, Nat.add_zero, Nat.mod_eq_of_lt small]; rfl
  | cons byte front ih =>
      cases stuff_count with
      | zero =>
          have turn : (3 + 3 * front.length) % stuffCount =
              (0 + 3 * (byte :: front).length) % stuffCount := by
            rw [List.length_cons, stuffCount]
            omega
          rw [← turn]
          simp only [List.cons_append, emit]
          rw [ih _ (by decide)]
          rfl
      | succ stuff_count =>
          have turn : (stuff_count + 3 * front.length) % stuffCount =
              (stuff_count + 1 + 3 * (byte :: front).length) % stuffCount := by
            rw [List.length_cons, stuffCount]
            omega
          rw [← turn]
          simp only [List.cons_append, emit]
          rw [ih _ (by omega)]

theorem emit_zeros (marker : UInt8) (stuff_count : Nat) :
    emit marker stuff_count (List.replicate stuff_count 0) = List.replicate stuff_count 0 := by
  induction stuff_count with
  | zero => rfl
  | succ stuff_count ih => rw [List.replicate_succ, emit, ih]

theorem emit_padded (marker : UInt8) (key : List UInt8) :
    emit marker 0 (padded key) = emit marker 0 key ++ List.replicate (gap key.length) 0 := by
  have left : (0 + 3 * key.length) % stuffCount = gap key.length := by
    rw [gap, stuffCount]
    omega
  rw [padded, emit_append _ _ _ _ (by decide), left, emit_zeros]

/-! ## The loops -/

namespace CompoundIndex

variable (index : CompoundIndex)

/-- The loop ends in the given state, or with an error because its key is too long. -/
def Yields (result : Except IndexError Stuffing) (final : Stuffing) : Prop :=
  result = .ok final ∨ result = .error .keyTooBig ∧ index.maxKeyLength ≤ final.key_data.length

variable {index}

theorem Yields.bind {result : Except IndexError Stuffing}
    {next : Stuffing → Except IndexError Stuffing} {middle final : Stuffing}
    (first : index.Yields result middle) (second : index.Yields (next middle) final)
    (grows : middle.key_data.length ≤ final.key_data.length) :
    index.Yields (result >>= next) final := by
  rcases first with done | ⟨failed, long⟩
  · rw [done]
    exact second
  · rw [failed]
    exact .inr ⟨rfl, Nat.le_trans long grows⟩

theorem write_yields (state : Stuffing) (byte : UInt8) :
    index.Yields (index.write state byte)
      { state with key_data := state.key_data ++ [byte] } := by
  rw [write]
  split
  · rename_i long
    exact .inr ⟨rfl, by simpa using long⟩
  · exact .inl rfl

theorem stuffZeros_yields (state : Stuffing) (stuff_count : Nat) :
    index.Yields (index.stuffZeros state stuff_count)
      { state with
        key_data := state.key_data ++ List.replicate stuff_count 0
        stuff_count := 0 } := by
  induction stuff_count generalizing state with
  | zero => exact .inl (by simp [stuffZeros])
  | succ stuff_count ih =>
      rw [stuffZeros]
      refine (write_yields state 0).bind ?_ (by simp)
      have rest := ih { state with key_data := state.key_data ++ [0] }
      rw [List.append_assoc, List.singleton_append, ← List.replicate_succ] at rest
      exact rest

theorem stuffBytes_yields (marker : UInt8) (state : Stuffing) (bytes : List UInt8)
    (small : state.stuff_count < stuffCount) :
    index.Yields (index.stuffBytes marker state bytes)
      { state with
        key_data := state.key_data ++ emit marker state.stuff_count bytes
        stuff_count := (state.stuff_count + 3 * bytes.length) % stuffCount } := by
  induction bytes generalizing state with
  | nil =>
      refine .inl ?_
      rw [stuffBytes, List.length_nil, Nat.mul_zero, Nat.add_zero, Nat.mod_eq_of_lt small]
      simp [emit]
  | cons byte rest ih =>
      obtain ⟨data, stuff_count, prior⟩ := state
      cases stuff_count with
      | zero =>
          have turn : (0 + 3 * (byte :: rest).length) % stuffCount =
              (3 + 3 * rest.length) % stuffCount := by
            rw [List.length_cons, stuffCount]
            omega
          have marked := @write_yields index ⟨data, 0, prior⟩ marker
          have written := @write_yields index ⟨data ++ [marker], stuffCount, prior⟩ byte
          have looped := ih ⟨data ++ [marker] ++ [byte], 3, prior⟩ (Nat.lt_succ_self 3)
          rw [stuffBytes, if_pos rfl]
          simp only [turn, emit, pure_bind]
          simp only [List.append_assoc, List.cons_append, List.nil_append] at looped written ⊢
          refine marked.bind (written.bind looped ?_) ?_
          · simp
          · simp
      | succ stuff_count =>
          have turn : (stuff_count + 1 + 3 * (byte :: rest).length) % stuffCount =
              (stuff_count + 3 * rest.length) % stuffCount := by
            rw [List.length_cons, stuffCount]
            omega
          have written := @write_yields index ⟨data, stuff_count + 1, prior⟩ byte
          have looped := ih ⟨data ++ [byte], stuff_count, prior⟩ (Nat.lt_of_succ_lt small)
          rw [stuffBytes, if_neg (Nat.succ_ne_zero _)]
          simp only [turn, emit]
          simp only [List.append_assoc, List.cons_append, List.nil_append] at looped ⊢
          refine Yields.bind (.inl rfl) (written.bind looped ?_) ?_
          · simp
          · simp

theorem stuffSegments_yields (state : Stuffing) (n : Nat) (segments : List SegmentKey)
    (some_segment : segments ≠ []) (small : state.stuff_count < stuffCount) :
    index.Yields (index.stuffSegments state n segments)
      { key_data := state.key_data ++ List.replicate state.stuff_count 0 ++
          stuffed index n (padInit (segments.map SegmentKey.key_data))
        stuff_count := gap ((segments.map SegmentKey.key_data).getLastD []).length
        prior_length := (state.key_data ++ List.replicate state.stuff_count 0 ++
          stuffed index n ((segments.map SegmentKey.key_data).dropLast.map padded)).length } := by
  induction segments generalizing state n with
  | nil => exact absurd rfl some_segment
  | cons segment rest ih =>
      obtain ⟨data, stuff_count, prior⟩ := state
      have filled := @stuffZeros_yields index ⟨data, stuff_count, prior⟩ stuff_count
      change index.Yields _
        { key_data := data ++ List.replicate stuff_count 0 ++ _
          stuff_count := _
          prior_length := (data ++ List.replicate stuff_count 0 ++ _).length }
      change index.Yields _ ⟨data ++ List.replicate stuff_count 0, 0, prior⟩ at filled
      generalize data ++ List.replicate stuff_count (0 : UInt8) = start at filled ⊢
      have looped := @stuffBytes_yields index (UInt8.ofNat (index.idx_count - n))
        ⟨start, 0, start.length⟩ segment.key_data (Nat.zero_lt_succ 3)
      have left : (0 + 3 * segment.key_data.length) % stuffCount =
          gap segment.key_data.length := by
        rw [gap, stuffCount]
        omega
      rw [left] at looped
      rw [stuffSegments]
      cases rest with
      | nil =>
          have done : stuffed index n (padInit [segment.key_data]) =
              emit (UInt8.ofNat (index.idx_count - n)) 0 segment.key_data :=
            List.append_nil _
          simp only [List.map_cons, List.map_nil, done, List.getLastD_cons, List.getLastD_nil,
            List.dropLast_singleton, stuffed, List.append_nil]
          refine filled.bind (looped.bind (.inl rfl) (Nat.le_refl _)) ?_
          simp
      | cons next more =>
          have later := ih
            ⟨start ++ emit (UInt8.ofNat (index.idx_count - n)) 0 segment.key_data,
              gap segment.key_data.length, start.length⟩ (n + 1) (List.cons_ne_nil _ _)
            (Nat.mod_lt _ (by decide))
          have first := emit_padded (UInt8.ofNat (index.idx_count - n)) segment.key_data
          simp only [List.map_cons, List.getLastD_cons, List.dropLast_cons_cons, padInit, stuffed,
            first, List.append_assoc] at later looped ⊢
          refine filled.bind (looped.bind later ?_) ?_
          · simp
          · simp

/-- The bytes that go to the index. -/
def image (index : CompoundIndex) (key : List UInt8) : List UInt8 :=
  if index.descending then key.map complement else key

/-- The filled up segments that the search key of `BTR_make_key` consists of. -/
def searchSegments (index : CompoundIndex) (segments : List SegmentKey) (fuzzy : Bool) :
    List (List UInt8) :=
  let keys := segments.map SegmentKey.key_data
  if fuzzy then
    if segments.all SegmentKey.key_empty then
      []
    else if (segments.getLast?.map SegmentKey.key_empty).getD false then
      keys.dropLast.map padded
    else
      padInit keys
  else if segments.length ≠ index.idx_count then
    keys.map padded
  else
    padInit keys

theorem finish_cases (key : List UInt8) :
    index.finish key = .ok (index.image key) ∧ key.length < index.maxKeyLength ∨
      index.finish key = .error .keyTooBig ∧ index.maxKeyLength ≤ key.length := by
  rw [finish]
  split
  · rename_i long
    exact .inr ⟨rfl, long⟩
  · rename_i fits
    exact .inl ⟨rfl, Nat.lt_of_not_le fits⟩

theorem btrKey_cases {segments : List SegmentKey} (some_segment : segments ≠ []) :
    let key := stuffed index 0 (padInit (segments.map SegmentKey.key_data))
    index.btrKey segments = .ok (index.image key) ∧ key.length < index.maxKeyLength ∨
      index.btrKey segments = .error .keyTooBig ∧ index.maxKeyLength ≤ key.length := by
  have looped := @stuffSegments_yields index ⟨[], 0, 0⟩ 0 segments some_segment (by decide)
  rw [btrKey]
  rcases looped with done | ⟨failed, long⟩
  · rw [done]
    exact finish_cases _
  · rw [failed]
    exact .inr ⟨rfl, long⟩

theorem stuffed_map_padded (n : Nat) (keys : List (List UInt8)) (some_key : keys ≠ []) :
    stuffed index n (keys.map padded) =
      stuffed index n (padInit keys) ++ List.replicate (gap (keys.getLastD []).length) 0 := by
  induction keys using padInit.induct generalizing n with
  | case1 => exact absurd rfl some_key
  | case2 last => simp [padInit, stuffed, emit_padded]
  | case3 key next rest ih =>
      have later := ih (n + 1) (List.cons_ne_nil _ _)
      simp only [List.map_cons, List.getLastD_cons] at later ⊢
      rw [stuffed, later, padInit, stuffed, List.append_assoc]

theorem btrMakeKey_cases {segments : List SegmentKey} (fuzzy : Bool)
    (some_segment : segments ≠ []) :
    index.btrMakeKey segments fuzzy =
        .ok (index.image (stuffed index 0 (index.searchSegments segments fuzzy))) ∨
      index.btrMakeKey segments fuzzy = .error .keyTooBig ∧
        (index.maxKeyLength ≤
            (stuffed index 0 (padInit (segments.map SegmentKey.key_data))).length ∨
          segments.length ≠ index.idx_count ∧ index.maxKeyLength ≤
            (stuffed index 0 ((segments.map SegmentKey.key_data).map padded)).length) := by
  have looped := @stuffSegments_yields index ⟨[], 0, 0⟩ 0 segments some_segment (by decide)
  have some_key : segments.map SegmentKey.key_data ≠ [] := mt List.map_eq_nil_iff.mp some_segment
  simp only [List.replicate_zero, List.nil_append] at looped
  rw [btrMakeKey]
  rcases looped with done | ⟨failed, long⟩
  · rw [done]
    simp only [bind, Except.bind]
    cases fuzzy with
    | false =>
        simp only [true_and, Bool.false_eq_true, false_and, and_false, if_false]
        rw [searchSegments, if_neg Bool.false_ne_true]
        by_cases all_segments : segments.length = index.idx_count
        · rw [if_neg (not_not.mpr all_segments), if_neg (not_not.mpr all_segments)]
          exact (finish_cases _).imp And.left fun ⟨failed, long⟩ => ⟨failed, .inl long⟩
        · rw [if_pos all_segments, if_pos all_segments]
          have filled := @stuffZeros_yields index
            ⟨stuffed index 0 (padInit (segments.map SegmentKey.key_data)),
              gap ((segments.map SegmentKey.key_data).getLastD []).length,
              (stuffed index 0 ((segments.map SegmentKey.key_data).dropLast.map padded)).length⟩
            (gap ((segments.map SegmentKey.key_data).getLastD []).length)
          rw [← stuffed_map_padded _ _ some_key] at filled
          rcases filled with filled | ⟨failed, long⟩
          · rw [filled]
            exact (finish_cases _).imp And.left fun ⟨failed, long⟩ =>
              ⟨failed, .inr ⟨all_segments, long⟩⟩
          · rw [failed]
            exact .inr ⟨rfl, .inr ⟨all_segments, long⟩⟩
    | true =>
        have begins : (stuffed index 0 ((segments.map SegmentKey.key_data).dropLast.map padded)).length ≤
            (stuffed index 0 (padInit (segments.map SegmentKey.key_data))).length := by
          rw [padInit_eq some_key, stuffed_append, List.length_append]
          exact Nat.le_add_right _ _
        simp only [Bool.true_eq_false, false_and, if_false, pure, Except.pure, true_and,
          and_true]
        rw [searchSegments, if_pos rfl]
        split
        · exact (finish_cases _).imp And.left fun ⟨failed, long⟩ =>
            ⟨failed, .inl (Nat.le_trans long (Nat.zero_le _))⟩
        · split
          · rw [padInit_eq some_key, stuffed_append, List.take_left, ← stuffed_append,
              ← padInit_eq some_key]
            exact (finish_cases _).imp And.left fun ⟨failed, long⟩ =>
              ⟨failed, .inl (Nat.le_trans long begins)⟩
          · exact (finish_cases _).imp And.left fun ⟨failed, long⟩ => ⟨failed, .inl long⟩
  · rw [failed]
    exact .inr ⟨rfl, .inl long⟩

end CompoundIndex

end Firebird
