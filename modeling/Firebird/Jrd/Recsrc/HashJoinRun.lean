import Firebird.Jrd.Recsrc.HashJoinStep

/-!
# Runs of a hash join

The calls of `getRecord` deliver, for each record of the leading stream, all combinations of the
records of the inner streams that are filed under its hash, and then there is no record more.
-/

namespace Firebird
namespace HashJoin

open Odometer (fromLast fromLast_succ fromLast_congr map_fromLast mem_fromLast
  exists_of_mem_fromLast forall₂_fromLast)

variable {types : List KeyType} {Record : Type*}

/-- A row of the leading stream with one row of each inner stream, from the last to the first. -/
abbrev Combination (types : List KeyType) (Record : Type*) : Type _ :=
  Row types Record × List (Row types Record)

namespace Join

/-- A call with this result, and the calls after it until the end, deliver these combinations. -/
inductive Delivers (join : Join types Record) (hash : List UInt8 → Nat) (passes : Nat) :
    Option (Bool × Impure types Record) → List (Combination types Record) → Prop
  | finished (impure : Impure types Record) : Delivers join hash passes (some (false, impure)) []
  | record {impure : Impure types Record} {leader : Row types Record}
      {inner : List (Row types Record)} {later : List (Combination types Record)}
      (leader_eq : impure.leaderRow = some leader)
      (inner_eq : fromLast impure.fetched join.argCount = inner.map some)
      (next : Delivers join hash passes (join.getRecord hash passes impure) later) :
      Delivers join hash passes (some (true, impure)) ((leader, inner) :: later)

/-- The combinations of leading rows with the rows filed under their hashes. -/
def deliveries (join : Join types Record) (hash : List UInt8 → Nat) (base : HashTable) :
    List (Row types Record) → List UInt8 → List (Combination types Record)
  | [], _ => []
  | row :: leader, keyBuffer =>
      let keyBuffer := fillBuffer types row.keys keyBuffer
      (fromLast (fun stream => join.rowsAt stream (base.positions stream (hash keyBuffer)))
          join.argCount).sections.map (row, ·) ++
        deliveries join hash base leader keyBuffer

variable {join : Join types Record} {hash : List UInt8 → Nat} {base : HashTable}
  {impure : Impure types Record} {passes : Nat}

theorem shown_wheels {count : Nat} (current : ∀ other < count, (impure.fetched other).isSome) :
    fromLast impure.fetched count =
      (Odometer.shown (fromLast (join.wheel impure) count)).map some := by
  induction count with
  | zero => rfl
  | succ count ih =>
      obtain ⟨row, row_eq⟩ := Option.isSome_iff_exists.mp (current count (Nat.lt_succ_self count))
      have wheel_eq : join.wheel impure count = row :: join.rowsAt count
          (impure.irsb_hash_table.remaining count impure.irsb_leader_hash) := by
        rw [wheel, row_eq]
        rfl
      rw [fromLast_succ, fromLast_succ, wheel_eq, Odometer.shown_cons, List.map_cons, row_eq,
        ih fun other before => current other (Nat.lt_succ_of_lt before)]

theorem front_ne_nil (populated : join.Populated base) (ready : join.Ready base impure)
    {stream : Nat} (stream_lt : stream < join.argCount) : join.front impure stream ≠ [] := by
  have present := ready.present stream stream_lt
  obtain ⟨position, later, positions_eq⟩ := List.exists_cons_of_ne_nil present
  have position_lt := populated.valid stream stream_lt impure.irsb_leader_hash position (by
    rw [positions_eq]
    exact List.mem_cons_self)
  rw [front, ready.kept.positions_eq, positions_eq, rowsAt_cons position_lt]
  exact List.cons_ne_nil _ _

theorem turning (populated : join.Populated base) (ready : join.Ready base impure)
    (current : ∀ other < join.argCount, (impure.fetched other).isSome) {count : Nat}
    (count_le : count ≤ join.argCount) :
    Odometer.Turning (fromLast (join.front impure) count) (fromLast (join.wheel impure) count) := by
  induction count with
  | zero => exact .nil
  | succ count ih =>
      refine .cons ⟨front_ne_nil populated ready count_le, ?_⟩ (ih (Nat.le_of_succ_le count_le))
      obtain ⟨row, row_eq⟩ := Option.isSome_iff_exists.mp (current count count_le)
      rw [wheel, row_eq]
      exact List.cons_ne_nil _ _

theorem getRecord_of_fetch (hash : List UInt8 → Nat) (opened : impure.irsb_open = true)
    (mustread_eq : impure.irsb_mustread = false) {found : Bool} {moved : Impure types Record}
    (fetch_eq : join.fetchCollisions passes impure = some (found, moved)) :
    join.getRecord hash passes impure =
      if found then some (true, moved)
      else join.fetchLeader hash passes moved.leader { moved with irsb_mustread := true } := by
  rw [getRecord, if_pos opened, mustread_eq, if_neg Bool.false_ne_true, fetch_eq]
  cases found <;> rfl

/-- From a delivered combination on, the choices ahead are delivered, and then the rest. -/
theorem delivers_ahead (populated : join.Populated base) (ready : join.Ready base impure)
    (current : ∀ other < join.argCount, (impure.fetched other).isSome)
    (mustread_eq : impure.irsb_mustread = false) (first_eq : impure.irsb_first = false)
    {row : Row types Record} (row_eq : impure.leaderRow = some row)
    {rest : List (Combination types Record)}
    (rest_delivered : ∀ later : Impure types Record, later.irsb_open = true →
      base.Kept later.irsb_hash_table → later.irsb_leader_buffer = impure.irsb_leader_buffer →
      join.Delivers hash (passes + 1) (join.fetchLeader hash (passes + 1) impure.leader later) rest) :
    join.Delivers hash (passes + 1) (some (true, impure))
      ((Odometer.ahead (fromLast (join.front impure) join.argCount)
        (fromLast (join.wheel impure) join.argCount)).map (row, ·) ++ rest) := by
  generalize ahead_eq : Odometer.ahead (fromLast (join.front impure) join.argCount)
    (fromLast (join.wheel impure) join.argCount) = choices
  induction choices generalizing impure with
  | nil =>
      obtain ⟨others, others_eq⟩ :=
        Odometer.ahead_eq_cons (turning populated ready current le_rfl)
      exact absurd (others_eq.symm.trans ahead_eq) (List.cons_ne_nil _ _)
  | cons choice choices ih =>
      have wheels_turning := turning populated ready current le_rfl
      have last_lt : join.argCount - 1 < join.argCount := Nat.sub_lt join.argCount_pos Nat.one_pos
      obtain ⟨found, moved, fetch_eq, move, turn_eq⟩ := fetchRecord_spec populated ready passes
        last_lt fun other before => current other (before.trans_lt last_lt)
      rw [Nat.sub_add_cancel join.argCount_pos] at turn_eq
      have fetch_eq : join.fetchCollisions (passes + 1) impure = some (found, moved) := by
        rw [fetchCollisions, first_eq, if_neg Bool.false_ne_true, fetch_eq]
      have get_eq := getRecord_of_fetch hash ready.opened mustread_eq fetch_eq
      have shown_eq := @shown_wheels _ _ join _ _ current
      cases found with
      | false =>
          have ahead_last := Odometer.ahead_of_turn_none wheels_turning turn_eq
          obtain ⟨rfl, rfl⟩ := List.cons.inj (ahead_last.symm.trans ahead_eq)
          refine .record row_eq shown_eq ?_
          rw [get_eq]
          have leader_eq : moved.leader = impure.leader := by
            rw [move.frame]
          rw [if_neg Bool.false_ne_true, leader_eq]
          refine rest_delivered _ (move.ready ready).opened (move.ready ready).kept ?_
          rw [move.frame]
      | true =>
          obtain ⟨-, ahead_next⟩ := Odometer.ahead_of_turn_some wheels_turning turn_eq
          obtain ⟨rfl, choices_eq⟩ := List.cons.inj (ahead_next.symm.trans ahead_eq)
          refine .record row_eq shown_eq ?_
          rw [get_eq, if_pos rfl]
          have fronts_eq : fromLast (join.front moved) join.argCount =
              fromLast (join.front impure) join.argCount :=
            fromLast_congr fun stream _ => move.front_eq stream
          have frame := move.frame
          refine ih (move.ready ready) (fun other other_lt => move.current other (current other other_lt))
            ?_ ?_ ?_ ?_ (fronts_eq ▸ choices_eq)
          · rw [frame]
            exact mustread_eq
          · rw [frame]
            exact first_eq
          · rw [frame]
            exact row_eq
          · rw [frame]
            exact rest_delivered

/-- With all iterators at their fronts, all choices are delivered, and then the rest. -/
theorem first_delivered (populated : join.Populated base) (ready : join.Ready base impure)
    (mustread_eq : impure.irsb_mustread = false) (first_eq : impure.irsb_first = true)
    {row : Row types Record} (row_eq : impure.leaderRow = some row)
    {leader : List (Row types Record)} (leader_eq : impure.leader = leader)
    (fronts : ∀ stream < join.argCount,
      impure.irsb_hash_table.remaining stream impure.irsb_leader_hash =
        impure.irsb_hash_table.positions stream impure.irsb_leader_hash)
    {rest : List (Combination types Record)}
    (rest_delivered : ∀ later : Impure types Record, later.irsb_open = true →
      base.Kept later.irsb_hash_table → later.irsb_leader_buffer = impure.irsb_leader_buffer →
      join.Delivers hash (passes + 1) (join.fetchLeader hash (passes + 1) leader later) rest) :
    join.Delivers hash (passes + 1)
      (match join.fetchCollisions (passes + 1) impure with
        | none => none
        | some (true, impure) => some (true, impure)
        | some (false, impure) =>
            join.fetchLeader hash (passes + 1) leader { impure with irsb_mustread := true })
      ((fromLast (fun stream =>
        join.rowsAt stream (base.positions stream impure.irsb_leader_hash))
          join.argCount).sections.map (row, ·) ++ rest) := by
  obtain ⟨moved, fetch_eq, move, all_first⟩ := fetchFirst_spec populated (passes + 1) join.argCount
    ready (Nat.zero_add _) (fun other before => absurd before (Nat.not_lt_zero _))
    fun stream _ stream_lt => fronts stream stream_lt
  have frame := move.frame
  have ready_moved := move.ready ready
  let first : Impure types Record := { moved with irsb_first := false }
  have ready_first : join.Ready base first :=
    ⟨ready_moved.opened, ready_moved.kept, ready_moved.slot_eq, ready_moved.present⟩
  have wheels_eq : fromLast (join.wheel first) join.argCount =
      fromLast (join.front first) join.argCount :=
    fromLast_congr fun stream stream_lt => (all_first stream stream_lt).2
  have fronts_eq : fromLast (join.front first) join.argCount =
      fromLast (fun stream => join.rowsAt stream (base.positions stream impure.irsb_leader_hash))
        join.argCount :=
    fromLast_congr fun stream _ => by
      rw [← move.hash_eq, ← ready_moved.kept.positions_eq]
      rfl
  have nonempty : ∀ rows ∈ fromLast (join.front first) join.argCount, rows ≠ [] := by
    intro rows member
    obtain ⟨stream, stream_lt, rfl⟩ := exists_of_mem_fromLast member
    exact front_ne_nil populated ready_first stream_lt
  have delivered : join.Delivers hash (passes + 1) (some (true, first))
      ((Odometer.ahead (fromLast (join.front first) join.argCount)
        (fromLast (join.wheel first) join.argCount)).map (row, ·) ++ rest) := by
    refine delivers_ahead populated ready_first
      (fun other other_lt => (all_first other other_lt).1) ?_ rfl ?_ ?_
    · change moved.irsb_mustread = false
      rw [frame]
      exact mustread_eq
    · change moved.leaderRow = some row
      rw [frame]
      exact row_eq
    · change ∀ later : Impure types Record, later.irsb_open = true →
        base.Kept later.irsb_hash_table → later.irsb_leader_buffer = moved.irsb_leader_buffer →
        join.Delivers hash (passes + 1)
          (join.fetchLeader hash (passes + 1) moved.leader later) rest
      rw [frame]
      dsimp only
      rw [leader_eq]
      exact rest_delivered
  rw [wheels_eq, Odometer.ahead_self nonempty, fronts_eq] at delivered
  rw [fetchCollisions, first_eq, if_pos rfl, fetch_eq]
  exact delivered

/-- The records of the leading stream, with the deliveries for each of them. -/
theorem fetchLeader_delivers (populated : join.Populated base) (opened : impure.irsb_open = true)
    (kept : base.Kept impure.irsb_hash_table) (leader : List (Row types Record)) :
    join.Delivers hash (passes + 1) (join.fetchLeader hash (passes + 1) leader impure)
      (join.deliveries hash base leader impure.irsb_leader_buffer) := by
  induction leader generalizing impure with
  | nil => exact .finished _
  | cons row leader ih =>
      rw [fetchLeader, deliveries]
      generalize fillBuffer types row.keys impure.irsb_leader_buffer = keyBuffer
      dsimp only
      have sorted := kept.sorted populated.sorted
      have streamCount_eq := kept.streamCount_eq.trans populated.streamCount_eq
      by_cases present : ∀ stream < join.argCount, base.positions stream (hash keyBuffer) ≠ []
      · have all_present : ∀ stream, 0 ≤ stream → stream < 0 + join.argCount →
            impure.irsb_hash_table.positions stream (hash keyBuffer) ≠ [] := by
          intro stream _ stream_lt
          rw [kept.positions_eq]
          exact present stream (by omega)
        obtain ⟨table, setup_eq, located⟩ :=
          HashTable.setupFrom_of_ne_nil sorted join.argCount 0 all_present
        rw [HashTable.setup, streamCount_eq, setup_eq]
        dsimp only
        let started : Impure types Record :=
          { impure with
            irsb_mustread := false
            irsb_first := true
            irsb_hash_table := table
            irsb_leader_buffer := keyBuffer
            irsb_leader_hash := hash keyBuffer
            leader := leader
            leaderRow := some row }
        have ready : join.Ready base started :=
          ⟨opened, kept.trans located.toKept, located.slot_eq, present⟩
        refine first_delivered populated ready rfl rfl rfl rfl
          (fun stream stream_lt => located.fronts stream (Nat.zero_le _) (by omega)) ?_
        intro later later_opened later_kept buffer_eq
        have delivered := ih later_opened later_kept
        rw [buffer_eq] at delivered
        exact delivered
      · push Not at present
        obtain ⟨missing, missing_lt, absent⟩ := present
        obtain ⟨table, setup_eq, table_kept⟩ := HashTable.setupFrom_of_nil sorted join.argCount 0
          (Nat.zero_le missing) (by omega) ((kept.positions_eq missing (hash keyBuffer)).trans absent)
        rw [HashTable.setup, streamCount_eq, setup_eq]
        dsimp only
        have no_choice : (fromLast (fun stream =>
            join.rowsAt stream (base.positions stream (hash keyBuffer))) join.argCount).sections =
              [] := by
          refine Odometer.sections_eq_nil (mem_fromLast missing_lt ?_)
          rw [absent]
          rfl
        rw [no_choice, List.map_nil, List.nil_append]
        exact ih opened (kept.trans table_kept)

end Join
end HashJoin
end Firebird
