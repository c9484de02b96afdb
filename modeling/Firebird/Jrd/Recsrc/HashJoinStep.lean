import Firebird.Jrd.Recsrc.HashJoin

/-!
# Steps of a hash join

With the table filled, `fetchRecord` turns the iterators of the inner streams like the wheels of an
odometer, the last stream first.
-/

namespace Firebird
namespace HashJoin

open Odometer (fromLast fromLast_succ fromLast_congr)

variable {types : List KeyType} {Record : Type*}

namespace Join

variable (join : Join types Record)

/-- The rows at positions of a stream. -/
def rowsAt (stream : Nat) (positions : List Nat) : List (Row types Record) :=
  positions.filterMap ((join.m_args stream)[·]?)

/-- The rows of a stream with the hash of the leading record. -/
def front (impure : Impure types Record) (stream : Nat) : List (Row types Record) :=
  join.rowsAt stream (impure.irsb_hash_table.positions stream impure.irsb_leader_hash)

/-- The current row of a stream and those to come before it starts again. -/
def wheel (impure : Impure types Record) (stream : Nat) : List (Row types Record) :=
  (impure.fetched stream).toList ++
    join.rowsAt stream (impure.irsb_hash_table.remaining stream impure.irsb_leader_hash)

/-- A table that `open` has filled for the streams of a join. -/
structure Populated (table : HashTable) : Prop where
  sorted : table.Sorted
  streamCount_eq : table.m_streamCount = join.argCount
  valid : ∀ stream < join.argCount, ∀ hash, ∀ position ∈ table.positions stream hash,
    position < (join.m_args stream).length

/-- The state while the collisions of one leading record are delivered. -/
structure Ready (base : HashTable) (impure : Impure types Record) : Prop where
  opened : impure.irsb_open = true
  kept : base.Kept impure.irsb_hash_table
  slot_eq : impure.irsb_hash_table.m_slot =
    impure.irsb_leader_hash % impure.irsb_hash_table.m_tableSize
  present : ∀ stream < join.argCount, base.positions stream impure.irsb_leader_hash ≠ []

variable {join}

/-- Only the iterators and the current rows have changed, and not those of the spared streams. -/
structure Moved (impure moved : Impure types Record) (spared : Nat → Prop) : Prop where
  frame : moved =
    { impure with irsb_hash_table := moved.irsb_hash_table, fetched := moved.fetched }
  kept : impure.irsb_hash_table.Kept moved.irsb_hash_table
  slot_eq : moved.irsb_hash_table.m_slot = impure.irsb_hash_table.m_slot
  fetched_eq : ∀ stream, spared stream → moved.fetched stream = impure.fetched stream
  remaining_eq : ∀ stream, spared stream →
    moved.irsb_hash_table.remaining stream impure.irsb_leader_hash =
      impure.irsb_hash_table.remaining stream impure.irsb_leader_hash
  current : ∀ stream, (impure.fetched stream).isSome → (moved.fetched stream).isSome

variable {base : HashTable} {impure moved : Impure types Record} {spared : Nat → Prop}

theorem Moved.hash_eq (move : Moved impure moved spared) :
    moved.irsb_leader_hash = impure.irsb_leader_hash := by
  rw [move.frame]

theorem Moved.refl (impure : Impure types Record) (spared : Nat → Prop) :
    Moved impure impure spared :=
  ⟨rfl, .refl _, rfl, fun _ _ => rfl, fun _ _ => rfl, fun _ fetched => fetched⟩

theorem Moved.trans {last : Impure types Record} (former : Moved impure moved spared)
    (latter : Moved moved last spared) : Moved impure last spared where
  frame := by
    rw [latter.frame, former.frame]
  kept := former.kept.trans latter.kept
  slot_eq := latter.slot_eq.trans former.slot_eq
  fetched_eq stream spare :=
    (latter.fetched_eq stream spare).trans (former.fetched_eq stream spare)
  remaining_eq stream spare := by
    rw [← former.remaining_eq stream spare, ← former.hash_eq]
    exact latter.remaining_eq stream spare
  current stream fetched := latter.current stream (former.current stream fetched)

theorem Moved.mono {fewer : Nat → Prop} (move : Moved impure moved spared)
    (less : ∀ stream, fewer stream → spared stream) : Moved impure moved fewer where
  frame := move.frame
  kept := move.kept
  slot_eq := move.slot_eq
  fetched_eq stream spare := move.fetched_eq stream (less stream spare)
  remaining_eq stream spare := move.remaining_eq stream (less stream spare)
  current := move.current

theorem Moved.others (move : Moved impure moved spared) {stream : Nat} (spare : spared stream) :
    join.wheel moved stream = join.wheel impure stream := by
  rw [wheel, wheel, move.hash_eq, move.fetched_eq stream spare, move.remaining_eq stream spare]

theorem Moved.front_eq (move : Moved impure moved spared) (stream : Nat) :
    join.front moved stream = join.front impure stream := by
  rw [front, front, move.hash_eq, move.kept.positions_eq]

theorem Moved.ready (move : Moved impure moved spared) (ready : join.Ready base impure) :
    join.Ready base moved where
  opened := by
    rw [move.frame]
    exact ready.opened
  kept := ready.kept.trans move.kept
  slot_eq := by
    rw [move.slot_eq, move.hash_eq, move.kept.tableSize_eq, ready.slot_eq]
  present := by
    rw [move.hash_eq]
    exact ready.present

/-- Moving one iterator, and perhaps one current row, moves one wheel. -/
theorem moved_of_turned {table : HashTable} {stream : Nat} {left : List Nat}
    (turned : impure.irsb_hash_table.Turned table stream impure.irsb_leader_hash left) :
    Moved impure { impure with irsb_hash_table := table } (· ≠ stream) where
  frame := rfl
  kept := turned.toKept
  slot_eq := turned.slot_eq
  fetched_eq _ _ := rfl
  remaining_eq := turned.others
  current _ fetched := fetched

theorem moved_of_fetched {table : HashTable} {stream : Nat} {left : List Nat}
    (turned : impure.irsb_hash_table.Turned table stream impure.irsb_leader_hash left)
    (row : Row types Record) :
    Moved impure
      { impure with
        irsb_hash_table := table
        fetched := Function.update impure.fetched stream (some row) } (· ≠ stream) where
  frame := rfl
  kept := turned.toKept
  slot_eq := turned.slot_eq
  fetched_eq _ differ := Function.update_of_ne differ _ _
  remaining_eq := turned.others
  current other fetched := by
    by_cases here : other = stream
    · rw [here]
      dsimp only
      rw [Function.update_self]
      rfl
    · dsimp only
      rw [Function.update_of_ne here]
      exact fetched

theorem Ready.position_lt (populated : join.Populated base) (ready : join.Ready base impure)
    {stream : Nat} (stream_lt : stream < join.argCount) {position : Nat}
    (member : position ∈ impure.irsb_hash_table.positions stream impure.irsb_leader_hash) :
    position < (join.m_args stream).length := by
  rw [ready.kept.positions_eq] at member
  exact populated.valid stream stream_lt impure.irsb_leader_hash position member

theorem rowsAt_cons {stream position : Nat} {later : List Nat}
    (position_lt : position < (join.m_args stream).length) :
    join.rowsAt stream (position :: later) =
      (join.m_args stream)[position] :: join.rowsAt stream later :=
  List.filterMap_cons_some (List.getElem?_eq_getElem position_lt)

section
variable (populated : join.Populated base) (ready : join.Ready base impure) {stream : Nat}
include populated ready

theorem advance_of_cons {position : Nat} {later : List Nat}
    (left_eq : impure.irsb_hash_table.remaining stream impure.irsb_leader_hash = position :: later)
    (position_lt : position < (join.m_args stream).length) :
    ∃ moved, join.advance impure stream = (true, moved) ∧ Moved impure moved (· ≠ stream) ∧
      (moved.fetched stream).isSome ∧
      join.wheel moved stream = join.rowsAt stream (position :: later) := by
  obtain ⟨table, iterated, turned⟩ := HashTable.iterate_of_cons
    (ready.kept.sorted populated.sorted) ready.slot_eq left_eq
  have at_position := List.getElem?_eq_getElem position_lt
  refine ⟨_, ?_, moved_of_fetched turned (join.m_args stream)[position], ?_, ?_⟩
  · rw [advance, iterated]
    dsimp only
    rw [at_position]
  · dsimp only
    rw [Function.update_self]
    rfl
  · rw [wheel, rowsAt_cons position_lt]
    dsimp only
    rw [turned.left_eq, Function.update_self]
    rfl

theorem advance_of_nil
    (passed : impure.irsb_hash_table.remaining stream impure.irsb_leader_hash = []) :
    ∃ moved, join.advance impure stream = (false, moved) ∧ Moved impure moved (· ≠ stream) := by
  obtain ⟨table, iterated, turned⟩ := HashTable.iterate_of_nil
    (ready.kept.sorted populated.sorted) ready.slot_eq passed
  refine ⟨_, ?_, moved_of_turned turned⟩
  rw [advance, iterated]

end

/-- A stream with rows left turns its own wheel. -/
theorem advance_turns (populated : join.Populated base) (ready : join.Ready base impure)
    {stream : Nat} (stream_lt : stream < join.argCount) {row : Row types Record}
    (row_eq : impure.fetched stream = some row) {position : Nat} {later : List Nat}
    (left_eq : impure.irsb_hash_table.remaining stream impure.irsb_leader_hash = position :: later) :
    ∃ moved, join.advance impure stream = (true, moved) ∧ Moved impure moved (· ≠ stream) ∧
      Odometer.turn (fromLast (join.front impure) (stream + 1))
          (fromLast (join.wheel impure) (stream + 1)) =
        some (fromLast (join.wheel moved) (stream + 1)) := by
  have position_lt : position < (join.m_args stream).length := by
    refine ready.position_lt populated stream_lt (HashTable.mem_positions_of_mem_remaining ?_)
    rw [left_eq]
    exact List.mem_cons_self
  obtain ⟨moved, advanced, move, -, wheel_eq⟩ := advance_of_cons populated ready left_eq position_lt
  refine ⟨moved, advanced, move, ?_⟩
  have others_eq : fromLast (join.wheel moved) stream = fromLast (join.wheel impure) stream :=
    fromLast_congr fun other before => move.others before.ne
  rw [fromLast, fromLast, fromLast, wheel_eq, others_eq, wheel, row_eq, left_eq,
    rowsAt_cons position_lt]
  rfl

/-- After a reset a stream starts again from its front. -/
theorem advance_of_reset (populated : join.Populated base) (ready : join.Ready base impure)
    {stream : Nat} (stream_lt : stream < join.argCount) :
    ∃ moved,
      join.advance
          { impure with
            irsb_hash_table := impure.irsb_hash_table.reset stream impure.irsb_leader_hash }
          stream = (true, moved) ∧
        Moved impure moved (· ≠ stream) ∧ (moved.fetched stream).isSome ∧
        join.wheel moved stream = join.front impure stream := by
  have positions_eq := ready.kept.positions_eq stream impure.irsb_leader_hash
  have present := ready.present stream stream_lt
  rw [← positions_eq] at present
  have turned := HashTable.reset_turned (ready.kept.sorted populated.sorted) ready.slot_eq present
  have reset_moved := moved_of_turned turned
  obtain ⟨position, later, at_front⟩ := List.exists_cons_of_ne_nil present
  have position_lt : position < (join.m_args stream).length := by
    refine ready.position_lt populated stream_lt ?_
    rw [at_front]
    exact List.mem_cons_self
  obtain ⟨moved, advance_eq, move, fetched, wheel_eq⟩ := advance_of_cons populated
    (reset_moved.ready ready) (turned.left_eq.trans at_front) position_lt
  refine ⟨moved, advance_eq, reset_moved.trans move, fetched, ?_⟩
  rw [wheel_eq, front, at_front]

theorem fetchRecord_of_advance {stream : Nat} (passes : Nat)
    (advanced : join.advance impure stream = (true, moved)) :
    join.fetchRecord passes stream impure = some (true, moved) := by
  cases stream with
  | zero => exact congrArg some advanced
  | succ stream => rw [fetchRecord, advanced]

theorem Moved.fromLast_eq (move : Moved impure moved spared) {count : Nat}
    (spare : ∀ stream < count, spared stream) :
    fromLast (join.wheel moved) count = fromLast (join.wheel impure) count :=
  fromLast_congr fun stream before => move.others (spare stream before)

/-- `fetchRecord` turns the wheels of the streams up to its own. -/
theorem fetchRecord_spec (populated : join.Populated base) (ready : join.Ready base impure)
    (passes : Nat) {stream : Nat} (stream_lt : stream < join.argCount)
    (current : ∀ other ≤ stream, (impure.fetched other).isSome) :
    ∃ found moved, join.fetchRecord (passes + 1) stream impure = some (found, moved) ∧
      Moved impure moved (stream < ·) ∧
      Odometer.turn (fromLast (join.front impure) (stream + 1))
          (fromLast (join.wheel impure) (stream + 1)) =
        if found then some (fromLast (join.wheel moved) (stream + 1)) else none := by
  induction stream generalizing impure with
  | zero =>
      obtain ⟨row, row_eq⟩ := Option.isSome_iff_exists.mp (current 0 le_rfl)
      cases left_eq : impure.irsb_hash_table.remaining 0 impure.irsb_leader_hash with
      | nil =>
          obtain ⟨moved, advance_eq, move⟩ := advance_of_nil populated ready left_eq
          refine ⟨false, moved, congrArg some advance_eq,
            move.mono fun other behind => behind.ne', ?_⟩
          have wheel_eq : join.wheel impure 0 = [row] := by
            rw [wheel, row_eq, left_eq]
            rfl
          rw [fromLast_succ, fromLast_succ, wheel_eq]
          rfl
      | cons position later =>
          obtain ⟨moved, advanced, move, turn_eq⟩ :=
            advance_turns populated ready stream_lt row_eq left_eq
          exact ⟨true, moved, fetchRecord_of_advance _ advanced,
            move.mono fun other behind => behind.ne', turn_eq⟩
  | succ stream ih =>
      obtain ⟨row, row_eq⟩ := Option.isSome_iff_exists.mp (current (stream + 1) le_rfl)
      cases left_eq : impure.irsb_hash_table.remaining (stream + 1) impure.irsb_leader_hash with
      | cons position later =>
          obtain ⟨moved, advanced, move, turn_eq⟩ :=
            advance_turns populated ready stream_lt row_eq left_eq
          exact ⟨true, moved, fetchRecord_of_advance _ advanced,
            move.mono fun other behind => behind.ne', turn_eq⟩
      | nil =>
          obtain ⟨passed, advance_eq, pass⟩ := advance_of_nil populated ready left_eq
          obtain ⟨found, carried, former_eq, carry, former_turn⟩ := ih (pass.ready ready)
            (Nat.lt_of_succ_lt stream_lt)
            fun other before => pass.current other (current other (before.trans (Nat.le_succ _)))
          have moves : Moved impure carried (stream + 1 < ·) :=
            (pass.mono fun other behind => behind.ne').trans
            (carry.mono fun other behind => Nat.lt_of_succ_lt behind)
          have fronts_eq : fromLast (join.front passed) (stream + 1) =
              fromLast (join.front impure) (stream + 1) :=
            fromLast_congr fun other _ => pass.front_eq other
          have wheels_eq : fromLast (join.wheel passed) (stream + 1) =
              fromLast (join.wheel impure) (stream + 1) :=
            pass.fromLast_eq fun other before => before.ne
          rw [fronts_eq, wheels_eq] at former_turn
          have wheel_eq : join.wheel impure (stream + 1) = [row] := by
            rw [wheel, row_eq, left_eq]
            rfl
          rw [fromLast_succ (join.front impure) (stream + 1), fromLast_succ _ (stream + 1), wheel_eq,
            Odometer.turn_last, former_turn]
          rw [fetchRecord, advance_eq]
          dsimp only
          rw [Join.carry, former_eq]
          cases found with
          | false => exact ⟨false, carried, rfl, moves, rfl⟩
          | true =>
              obtain ⟨moved, advanced, move, fetched, at_front⟩ :=
                advance_of_reset populated (moves.ready ready) stream_lt
              dsimp only
              rw [advanced]
              refine ⟨true, moved, rfl, moves.trans (move.mono fun other behind => behind.ne'), ?_⟩
              rw [if_pos rfl, if_pos rfl, fromLast_succ (join.wheel moved), at_front, moves.front_eq,
                move.fromLast_eq fun other before => before.ne]
              rfl

/-- The loop over the inner streams brings each of them to its front. -/
theorem fetchFirst_spec (populated : join.Populated base) (passes count : Nat) {stream : Nat}
    (ready : join.Ready base impure) (count_eq : stream + count = join.argCount)
    (before : ∀ other < stream,
      (impure.fetched other).isSome ∧ join.wheel impure other = join.front impure other)
    (from_stream : ∀ other, stream ≤ other → other < join.argCount →
      impure.irsb_hash_table.remaining other impure.irsb_leader_hash =
        impure.irsb_hash_table.positions other impure.irsb_leader_hash) :
    ∃ moved, join.fetchFirst passes count stream impure = some (true, moved) ∧
      Moved impure moved (fun _ => False) ∧
      ∀ other < join.argCount,
        (moved.fetched other).isSome ∧ join.wheel moved other = join.front moved other := by
  induction count generalizing stream impure with
  | zero =>
      rw [Nat.add_zero] at count_eq
      rw [← count_eq]
      exact ⟨impure, rfl, Moved.refl impure _, before⟩
  | succ count ih =>
      have stream_lt : stream < join.argCount := by omega
      have present := ready.present stream stream_lt
      have positions_eq := ready.kept.positions_eq stream impure.irsb_leader_hash
      rw [← positions_eq] at present
      obtain ⟨position, later, at_front⟩ := List.exists_cons_of_ne_nil present
      have position_lt : position < (join.m_args stream).length := by
        refine ready.position_lt populated stream_lt ?_
        rw [at_front]
        exact List.mem_cons_self
      obtain ⟨fetched, advanced, fetch, some_row, wheel_eq⟩ := advance_of_cons populated ready
        ((from_stream stream le_rfl stream_lt).trans at_front) position_lt
      have here : join.wheel fetched stream = join.front fetched stream := by
        rw [wheel_eq, fetch.front_eq, front, at_front]
      obtain ⟨moved, first_eq, move, all_first⟩ := @ih fetched (stream + 1) (fetch.ready ready)
        (by omega)
        (fun other other_lt => by
          rcases Nat.lt_succ_iff_lt_or_eq.mp other_lt with former | rfl
          · rw [fetch.others former.ne, fetch.front_eq]
            exact ⟨fetch.current other (before other former).1, (before other former).2⟩
          · exact ⟨some_row, here⟩)
        (fun other behind other_lt => by
          have differ : other ≠ stream := (Nat.lt_of_succ_le behind).ne'
          rw [fetch.hash_eq, fetch.kept.positions_eq, fetch.remaining_eq other differ]
          exact from_stream other (Nat.le_of_succ_le behind) other_lt)
      refine ⟨moved, ?_, (fetch.mono fun _ => False.elim).trans move, all_first⟩
      rw [fetchFirst, fetchRecord_of_advance passes advanced]
      exact first_eq

end Join
end HashJoin
end Firebird
