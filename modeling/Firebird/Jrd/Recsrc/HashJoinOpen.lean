import Firebird.Jrd.Recsrc.HashJoinRun

/-!
# The filled tables of a hash join

After `open` the table files each position of an inner stream under the hash of what the key buffer
held after its keys.
-/

namespace Firebird
namespace HashJoin

open Odometer (fromLast fromLast_succ fromLast_congr map_fromLast mem_fromLast
  exists_of_mem_fromLast forall₂_fromLast)

variable {types : List KeyType} {Record : Type*}

/-- Each row of a stream with what the key buffer holds after its keys. -/
def imaged : List (Row types Record) → List UInt8 → List (Row types Record × List UInt8)
  | [], _ => []
  | row :: rows, keyBuffer =>
      let keyBuffer := fillBuffer types row.keys keyBuffer
      (row, keyBuffer) :: imaged rows keyBuffer

/-- Each row of a stream with its hash. -/
def hashed (hash : List UInt8 → Nat) (rows : List (Row types Record)) (keyBuffer : List UInt8) :
    List (Row types Record × Nat) :=
  (imaged rows keyBuffer).map (Prod.map id hash)

theorem map_fst_imaged (rows : List (Row types Record)) (keyBuffer : List UInt8) :
    (imaged rows keyBuffer).map Prod.fst = rows := by
  induction rows generalizing keyBuffer with
  | nil => rfl
  | cons row rows ih => exact congrArg (row :: ·) (ih _)

theorem map_fst_hashed (hash : List UInt8 → Nat) (rows : List (Row types Record))
    (keyBuffer : List UInt8) : (hashed hash rows keyBuffer).map Prod.fst = rows := by
  rw [hashed, List.map_map]
  exact map_fst_imaged rows keyBuffer

theorem exists_of_mem_imaged {rows : List (Row types Record)} {keyBuffer : List UInt8}
    {keyed : Row types Record × List UInt8} (member : keyed ∈ imaged rows keyBuffer) :
    keyed.1 ∈ rows ∧ ∃ before, keyed.2 = fillBuffer types keyed.1.keys before := by
  induction rows generalizing keyBuffer with
  | nil => cases member
  | cons row rows ih =>
      rcases List.mem_cons.mp member with rfl | later
      · exact ⟨List.mem_cons_self, keyBuffer, rfl⟩
      · obtain ⟨row_mem, filled⟩ := ih later
        exact ⟨List.mem_cons_of_mem _ row_mem, filled⟩

theorem exists_mem_imaged {rows : List (Row types Record)} (keyBuffer : List UInt8)
    {row : Row types Record} (member : row ∈ rows) :
    ∃ image, (row, image) ∈ imaged rows keyBuffer := by
  rw [← map_fst_imaged rows keyBuffer] at member
  obtain ⟨keyed, keyed_mem, rfl⟩ := List.mem_map.mp member
  exact ⟨keyed.2, keyed_mem⟩

/-- The positions of a hash, counted from `counter` on. -/
def filedAt (sought : Nat) : Nat → List (Row types Record × Nat) → List Nat
  | _, [] => []
  | counter, keyed :: later =>
      if keyed.2 = sought then counter :: filedAt sought (counter + 1) later
      else filedAt sought (counter + 1) later

namespace Join

variable (join : Join types Record) (hash : List UInt8 → Nat)

theorem tableSize_populate (stream : Nat) (rows : List (Row types Record)) (counter : Nat)
    (keyBuffer : List UInt8) (table : HashTable) :
    (populate hash stream rows counter keyBuffer table).m_tableSize = table.m_tableSize ∧
      (populate hash stream rows counter keyBuffer table).m_streamCount = table.m_streamCount := by
  induction rows generalizing counter keyBuffer table with
  | nil => exact ⟨rfl, rfl⟩
  | cons row rows ih =>
      obtain ⟨size_eq, count_eq⟩ := ih ((counter + 1) % 2 ^ 32) (fillBuffer types row.keys keyBuffer)
        (table.put stream (hash (fillBuffer types row.keys keyBuffer)) counter)
      exact ⟨size_eq, count_eq⟩

theorem positions_populate {table : HashTable} (slots : 0 < table.m_tableSize) (stream : Nat)
    {rows : List (Row types Record)} {counter : Nat} (small : counter + rows.length < 2 ^ 32)
    (keyBuffer : List UInt8) (other sought : Nat) :
    (populate hash stream rows counter keyBuffer table).positions other sought =
      table.positions other sought ++
        if other = stream then filedAt sought counter (hashed hash rows keyBuffer) else [] := by
  induction rows generalizing counter keyBuffer table with
  | nil =>
      rw [populate]
      split
      · exact (List.append_nil _).symm
      · exact (List.append_nil _).symm
  | cons row rows ih =>
      rw [List.length_cons] at small
      have counter_mod : (counter + 1) % 2 ^ 32 = counter + 1 := Nat.mod_eq_of_lt (by omega)
      have slots_put : 0 < (table.put stream (hash (fillBuffer types row.keys keyBuffer))
        counter).m_tableSize := slots
      rw [populate, counter_mod, ih slots_put (by omega), HashTable.positions_put slots,
        List.append_assoc]
      congr 1
      by_cases here : other = stream
      · rw [if_pos here, if_pos here]
        change _ = filedAt sought counter ((row, hash (fillBuffer types row.keys keyBuffer)) ::
          hashed hash rows (fillBuffer types row.keys keyBuffer))
        rw [filedAt]
        by_cases same : hash (fillBuffer types row.keys keyBuffer) = sought
        · rw [if_pos ⟨here, same⟩, if_pos same]
          rfl
        · rw [if_neg fun both => same both.2, if_neg same, List.nil_append]
      · rw [if_neg fun both => here both.1, if_neg here, if_neg here, List.nil_append]

theorem within_populate {table : HashTable} (slots : 0 < table.m_tableSize) {bound : Nat → Nat}
    (within : table.Within bound) (stream : Nat) (rows : List (Row types Record)) (counter : Nat)
    (keyBuffer : List UInt8) :
    (populate hash stream rows counter keyBuffer table).Within
      (Function.update bound stream (bound stream + rows.length)) := by
  induction rows generalizing counter keyBuffer table bound with
  | nil =>
      rw [List.length_nil, Nat.add_zero, Function.update_eq_self]
      exact within
  | cons row rows ih =>
      have slots_put : 0 < (table.put stream (hash (fillBuffer types row.keys keyBuffer))
        counter).m_tableSize := slots
      have later := ih slots_put
        (HashTable.within_put slots within stream (hash (fillBuffer types row.keys keyBuffer)) counter)
        ((counter + 1) % 2 ^ 32) (fillBuffer types row.keys keyBuffer)
      rw [Function.update_self, Function.update_idem] at later
      rw [List.length_cons, Nat.add_comm rows.length, ← Nat.add_assoc]
      exact later

variable (garbage : Nat → List UInt8)

/-- What the loop over the streams before `count` has filed. -/
structure Filed (count : Nat) (table : HashTable) : Prop where
  slots : 0 < table.m_tableSize
  streamCount_eq : table.m_streamCount = join.argCount
  positions_eq : ∀ stream sought, table.positions stream sought =
    if stream < count then filedAt sought 0 (hashed hash (join.m_args stream) (garbage stream)) else []
  within : table.Within fun stream => if stream < count then (join.m_args stream).length else 0

variable {join}

theorem filed_populateAll (small : ∀ stream < join.argCount, (join.m_args stream).length < 2 ^ 32)
    {count : Nat} (count_le : count ≤ join.argCount) :
    join.Filed hash garbage count
      (populateAll join hash garbage count (HashTable.create join.argCount)) := by
  induction count with
  | zero =>
      have slots : 0 < hashSize := by decide
      exact ⟨slots, rfl, fun _ _ => rfl, fun _ _ _ => Nat.zero_le _⟩
  | succ count ih =>
      have former := ih (Nat.le_of_succ_le count_le)
      have rows_small := small count count_le
      obtain ⟨size_eq, count_eq⟩ := tableSize_populate hash count (join.m_args count) 0
        (garbage count) (populateAll join hash garbage count (HashTable.create join.argCount))
      refine ⟨size_eq ▸ former.slots, count_eq.trans former.streamCount_eq, ?_, ?_⟩
      · intro stream sought
        rw [populateAll, positions_populate hash former.slots count (by omega), former.positions_eq]
        rcases Nat.lt_trichotomy stream count with before | rfl | behind
        · rw [if_pos before, if_neg before.ne, if_pos (Nat.lt_succ_of_lt before), List.append_nil]
        · rw [if_neg (Nat.lt_irrefl _), if_pos rfl, if_pos (Nat.lt_succ_self _), List.nil_append]
        · rw [if_neg (by omega), if_neg behind.ne', if_neg (by omega), List.append_nil]
      · have within := within_populate hash former.slots former.within count (join.m_args count) 0
          (garbage count)
        intro stream slot slot_lt
        refine (within stream slot slot_lt).trans ?_
        dsimp only
        rcases Nat.lt_trichotomy stream count with before | rfl | behind
        · rw [Function.update_of_ne before.ne, if_pos before, if_pos (Nat.lt_succ_of_lt before)]
        · rw [Function.update_self, if_neg (Nat.lt_irrefl _), if_pos (Nat.lt_succ_self _),
            Nat.zero_add]
        · rw [Function.update_of_ne behind.ne', if_neg (by omega)]
          exact Nat.zero_le _

/-- The table that `open` leaves. -/
def filledTable (join : Join types Record) (hash : List UInt8 → Nat)
    (garbage : Nat → List UInt8) : HashTable :=
  (populateAll join hash garbage join.argCount (HashTable.create join.argCount)).sort

theorem lt_of_mem_filedAt {sought counter position : Nat} {keyed : List (Row types Record × Nat)}
    (member : position ∈ filedAt sought counter keyed) : position < counter + keyed.length := by
  induction keyed generalizing counter with
  | nil => cases member
  | cons row keyed ih =>
      rw [filedAt] at member
      rw [List.length_cons]
      split at member
      · rcases List.mem_cons.mp member with rfl | later
        · omega
        · have := ih later
          omega
      · have := ih member
        omega

theorem rowsAt_filedAt {stream : Nat} (sought : Nat) {counter : Nat}
    {keyed : List (Row types Record × Nat)}
    (behind : (join.m_args stream).drop counter = keyed.map Prod.fst) :
    join.rowsAt stream (filedAt sought counter keyed) =
      (keyed.filter (·.2 = sought)).map Prod.fst := by
  induction keyed generalizing counter with
  | nil => rfl
  | cons row keyed ih =>
      have counter_lt : counter < (join.m_args stream).length := by
        by_contra past
        rw [List.drop_of_length_le (Nat.not_lt.mp past)] at behind
        exact List.cons_ne_nil _ _ behind.symm
      rw [List.drop_eq_getElem_cons counter_lt, List.map_cons] at behind
      obtain ⟨row_eq, later⟩ := List.cons.inj behind
      rw [filedAt]
      by_cases same : row.2 = sought
      · rw [if_pos same, rowsAt_cons counter_lt, row_eq, ih later, List.filter_cons,
          if_pos (decide_eq_true same), List.map_cons]
      · rw [if_neg same, ih later, List.filter_cons, if_neg (decide_eq_true_iff.not.mpr same)]

section
variable (small : ∀ stream < join.argCount, (join.m_args stream).length < 2 ^ 32)
include small

theorem positions_filledTable {stream : Nat} (stream_lt : stream < join.argCount) (sought : Nat) :
    ((join.filledTable hash garbage).positions stream sought).Perm
      (filedAt sought 0 (hashed hash (join.m_args stream) (garbage stream))) := by
  have filed := (filed_populateAll hash garbage small le_rfl).positions_eq stream sought
  rw [if_pos stream_lt] at filed
  rw [← filed]
  exact HashTable.positions_sort _ stream sought

theorem populated_filledTable : join.Populated (join.filledTable hash garbage) where
  sorted := by
    have filed := filed_populateAll hash garbage small le_rfl
    refine HashTable.sorted_sort filed.slots filed.within fun stream => ?_
    split
    · rename_i stream_lt
      exact Nat.le_of_lt_succ (small stream stream_lt)
    · exact Nat.zero_le _
  streamCount_eq := (filed_populateAll hash garbage small le_rfl).streamCount_eq
  valid stream stream_lt sought position member := by
    have filed := (positions_filledTable hash garbage small stream_lt sought).mem_iff.mp member
    have position_lt := lt_of_mem_filedAt filed
    have length_eq := congrArg List.length
      (map_fst_hashed hash (join.m_args stream) (garbage stream))
    rw [List.length_map] at length_eq
    omega

theorem rowsAt_filledTable {stream : Nat} (stream_lt : stream < join.argCount) (sought : Nat) :
    (join.rowsAt stream ((join.filledTable hash garbage).positions stream sought)).Perm
      (((hashed hash (join.m_args stream) (garbage stream)).filter (·.2 = sought)).map
        Prod.fst) := by
  rw [← @rowsAt_filedAt _ _ join stream sought 0 _
    (map_fst_hashed hash (join.m_args stream) (garbage stream)).symm]
  exact (positions_filledTable hash garbage small stream_lt sought).filterMap _

end

end Join
end HashJoin
end Firebird
