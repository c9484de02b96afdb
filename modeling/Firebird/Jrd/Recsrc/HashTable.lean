import Mathlib
import Firebird.Library.LowerBound

/-!
# Hash tables of a hash join

`HashTable` of `HashJoin` keeps, for each inner stream and each slot, the list of the positions whose
hash falls into the slot.  Each list carries the iterator with which the join walks over the
positions of one hash.
-/

namespace Firebird
namespace HashJoin

/-- The hash and the position of a cached record. -/
structure Entry where
  hash : Nat
  position : Nat
  deriving DecidableEq, Repr

/-- `CollisionList`. -/
structure CollisionList where
  m_collisions : List Entry
  m_iterator : Nat

namespace CollisionList

/-- `INVALID_ITERATOR`. -/
def invalidIterator : Nat := 2 ^ 32 - 1

/-- A new list. -/
def empty : CollisionList where
  m_collisions := []
  m_iterator := invalidIterator

def add (list : CollisionList) (hash position : Nat) : CollisionList :=
  { list with m_collisions := list.m_collisions ++ [⟨hash, position⟩] }

def sort (list : CollisionList) : CollisionList :=
  { list with
    m_collisions := list.m_collisions.mergeSort fun first second => first.hash ≤ second.hash }

/-- Where `SortedArray::find` leaves its position. -/
def find (list : CollisionList) (hash : Nat) : Nat :=
  LowerBound.search (fun entry : Entry => decide (entry.hash < hash)) list.m_collisions 0
    list.m_collisions.length

def locate (list : CollisionList) (hash : Nat) : Bool × CollisionList :=
  match list.m_collisions[list.find hash]? with
  | some entry =>
      if hash < entry.hash then (false, { list with m_iterator := invalidIterator })
      else (true, { list with m_iterator := list.find hash })
  | none => (false, { list with m_iterator := invalidIterator })

def iterate (list : CollisionList) (hash : Nat) : Option Nat × CollisionList :=
  match list.m_collisions[list.m_iterator]? with
  | none => (none, list)
  | some collision =>
      if hash ≠ collision.hash then (none, { list with m_iterator := invalidIterator })
      else (some collision.position, { list with m_iterator := list.m_iterator + 1 })

/-- The positions of a hash. -/
def positions (list : CollisionList) (hash : Nat) : List Nat :=
  (list.m_collisions.filter (·.hash = hash)).map (·.position)

/-- The positions that the iterator has not passed. -/
def remaining (list : CollisionList) (hash : Nat) : List Nat :=
  ((list.m_collisions.drop list.m_iterator).takeWhile (·.hash = hash)).map (·.position)

/-- The entries are sorted by hash, and the iterator can stand at each of them. -/
structure Sorted (list : CollisionList) : Prop where
  ordered : list.m_collisions.Pairwise fun first second => first.hash ≤ second.hash
  countable : list.m_collisions.length ≤ invalidIterator

/-- The same list with the iterator at the positions `left`. -/
structure Standing (list moved : CollisionList) (hash : Nat) (left : List Nat) : Prop where
  same : moved.m_collisions = list.m_collisions
  left_eq : moved.remaining hash = left

/-- Entries sorted by hash fall into those before a hash, those with it and those behind it. -/
theorem entries_split {entries : List Entry} (hash : Nat)
    (ordered : entries.Pairwise fun first second => first.hash ≤ second.hash) :
    entries = entries.filter (fun entry => decide (entry.hash < hash)) ++
      (entries.filter (·.hash = hash) ++ entries.filter (fun entry => decide (hash < entry.hash))) := by
  induction entries with
  | nil => rfl
  | cons entry entries ih =>
      obtain ⟨first_le, ordered⟩ := List.pairwise_cons.mp ordered
      have later := ih ordered
      rcases Nat.lt_trichotomy entry.hash hash with before | rfl | behind
      · simp only [List.filter_cons, before, decide_true, if_true, before.ne, decide_false,
          before.not_gt, Bool.false_eq_true, if_false, List.cons_append]
        rw [← later]
      · have none_before : entries.filter (fun other => decide (other.hash < entry.hash)) = [] :=
          List.filter_eq_nil_iff.mpr fun other member less =>
            absurd (of_decide_eq_true less) (Nat.not_lt.mpr (first_le other member))
        rw [none_before, List.nil_append] at later
        simp only [List.filter_cons, lt_self_iff_false, decide_false, Bool.false_eq_true, if_false,
          decide_true, if_true, none_before, List.nil_append, List.cons_append]
        rw [← later]
      · have none_before : entries.filter (fun other => decide (other.hash < hash)) = [] :=
          List.filter_eq_nil_iff.mpr fun other member less =>
            absurd ((of_decide_eq_true less).trans behind) (Nat.not_lt.mpr (first_le other member))
        have none_same : entries.filter (·.hash = hash) = [] :=
          List.filter_eq_nil_iff.mpr fun other member same =>
            absurd (of_decide_eq_true same ▸ behind) (Nat.not_lt.mpr (first_le other member))
        rw [none_before, none_same, List.nil_append, List.nil_append] at later
        simp only [List.filter_cons, behind, behind.not_gt, behind.ne', decide_false, decide_true,
          Bool.false_eq_true, if_false, if_true, none_before, none_same, List.nil_append]
        rw [← later]

section
variable {list : CollisionList} (sorted : list.Sorted) (hash : Nat)
include sorted

theorem find_eq :
    list.find hash =
      (list.m_collisions.filter fun entry => decide (entry.hash < hash)).length := by
  have split := entries_split hash sorted.ordered
  rw [find]
  conv_lhs => rw [split]
  refine LowerBound.search_eq (fun entry member => (List.mem_filter.mp member).2)
    (fun entry member => ?_) (Nat.zero_le _) ?_
  · rcases List.mem_append.mp member with same | behind
    · exact decide_eq_false (Nat.not_lt.mpr (of_decide_eq_true (List.mem_filter.mp same).2).ge)
    · exact decide_eq_false (of_decide_eq_true (List.mem_filter.mp behind).2).not_gt
  · rw [List.length_append]
    exact Nat.le_add_right _ _

theorem drop_find :
    list.m_collisions.drop (list.find hash) =
      list.m_collisions.filter (·.hash = hash) ++
        list.m_collisions.filter fun entry => decide (hash < entry.hash) := by
  rw [find_eq sorted]
  exact (congrArg (List.drop _) (entries_split hash sorted.ordered)).trans List.drop_left

/-- An invalid iterator has passed everything. -/
theorem remaining_invalid :
    ({ list with m_iterator := invalidIterator } : CollisionList).remaining hash = [] := by
  rw [remaining, List.drop_of_length_le sorted.countable]
  rfl

theorem locate_of_nil (absent : list.positions hash = []) :
    ∃ moved, list.locate hash = (false, moved) ∧ moved.m_collisions = list.m_collisions := by
  have none_same : list.m_collisions.filter (·.hash = hash) = [] := List.map_eq_nil_iff.mp absent
  have behind := drop_find sorted hash
  rw [none_same, List.nil_append] at behind
  rw [locate]
  cases at_find : list.m_collisions[list.find hash]? with
  | none => exact ⟨_, rfl, rfl⟩
  | some entry =>
      rw [← List.head?_drop, behind] at at_find
      have after := (List.mem_filter.mp (List.mem_of_head? at_find)).2
      exact ⟨_, if_pos (of_decide_eq_true after), rfl⟩

theorem locate_of_ne_nil (present : list.positions hash ≠ []) :
    ∃ moved, list.locate hash = (true, moved) ∧
      list.Standing moved hash (list.positions hash) := by
  have same_ne : list.m_collisions.filter (·.hash = hash) ≠ [] :=
    fun none_same => present (List.map_eq_nil_iff.mpr none_same)
  obtain ⟨entry, others, same_eq⟩ := List.exists_cons_of_ne_nil same_ne
  have behind := drop_find sorted hash
  have entry_hash : entry.hash = hash := by
    have member : entry ∈ list.m_collisions.filter (·.hash = hash) := by
      rw [same_eq]
      exact List.mem_cons_self
    exact of_decide_eq_true (List.mem_filter.mp member).2
  have at_find : list.m_collisions[list.find hash]? = some entry := by
    rw [← List.head?_drop, behind, same_eq]
    rfl
  refine ⟨{ list with m_iterator := list.find hash }, ?_, rfl, ?_⟩
  · rw [locate, at_find]
    exact if_neg (Nat.not_lt.mpr entry_hash.le)
  · rw [remaining, positions]
    dsimp only
    rw [behind, List.takeWhile_append_of_pos fun entry member => (List.mem_filter.mp member).2,
      List.takeWhile_eq_nil_iff.mpr, List.append_nil]
    intro nonempty same
    have after := (List.mem_filter.mp (List.getElem_mem nonempty)).2
    exact (of_decide_eq_true after).ne' (of_decide_eq_true same)

theorem iterate_of_nil (passed : list.remaining hash = []) :
    ∃ moved, list.iterate hash = (none, moved) ∧ list.Standing moved hash [] := by
  rw [iterate]
  cases at_iterator : list.m_collisions[list.m_iterator]? with
  | none => exact ⟨list, rfl, rfl, passed⟩
  | some collision =>
      refine ⟨{ list with m_iterator := invalidIterator }, if_pos fun same => ?_, rfl,
        remaining_invalid sorted hash⟩
      rw [← List.head?_drop] at at_iterator
      obtain ⟨others, drop_eq⟩ := List.head?_eq_some_iff.mp at_iterator
      rw [remaining, drop_eq, List.takeWhile_cons, if_pos (decide_eq_true same.symm)] at passed
      exact List.cons_ne_nil _ _ passed

end

theorem iterate_of_cons {list : CollisionList} {hash position : Nat} {later : List Nat}
    (left_eq : list.remaining hash = position :: later) :
    ∃ moved, list.iterate hash = (some position, moved) ∧ list.Standing moved hash later := by
  rw [iterate]
  cases at_iterator : list.m_collisions[list.m_iterator]? with
  | none =>
      rw [remaining, List.drop_of_length_le (List.getElem?_eq_none_iff.mp at_iterator)] at left_eq
      exact absurd left_eq.symm (List.cons_ne_nil _ _)
  | some collision =>
      rw [← List.head?_drop] at at_iterator
      obtain ⟨others, drop_eq⟩ := List.head?_eq_some_iff.mp at_iterator
      rw [remaining, drop_eq] at left_eq
      by_cases same : collision.hash = hash
      · rw [List.takeWhile_cons, if_pos (decide_eq_true same), List.map_cons] at left_eq
        obtain ⟨rfl, rfl⟩ := List.cons.inj left_eq
        refine ⟨{ list with m_iterator := list.m_iterator + 1 }, if_neg (not_not.mpr same.symm), rfl,
          ?_⟩
        rw [remaining]
        dsimp only
        rw [← List.tail_drop, drop_eq]
        rfl
      · rw [List.takeWhile_cons, if_neg (decide_eq_true_iff.not.mpr same)] at left_eq
        exact absurd left_eq.symm (List.cons_ne_nil _ _)

end CollisionList

/-- `HashTable`; the array of collision lists is a function of the index. -/
structure HashTable where
  m_streamCount : Nat
  m_tableSize : Nat
  m_collisions : Nat → Option CollisionList
  m_slot : Nat

/-- `HASH_SIZE`. -/
def hashSize : Nat := 1009

namespace HashTable

/-- The constructor. -/
def create (streamCount : Nat) : HashTable where
  m_streamCount := streamCount
  m_tableSize := hashSize
  m_collisions _ := none
  m_slot := 0

/-- Where the collision list of a stream and a slot stands. -/
def index (table : HashTable) (stream slot : Nat) : Nat := stream * table.m_tableSize + slot

/-- Put a collision list into the array. -/
def replace (table : HashTable) (at_index : Nat) (list : CollisionList) : HashTable :=
  { table with m_collisions := Function.update table.m_collisions at_index (some list) }

def put (table : HashTable) (stream hash position : Nat) : HashTable :=
  let at_index := table.index stream (hash % table.m_tableSize)
  table.replace at_index
    (((table.m_collisions at_index).getD .empty).add hash position)

def sort (table : HashTable) : HashTable :=
  { table with m_collisions := fun at_index => (table.m_collisions at_index).map .sort }

/-- The loop of `setup` over the streams from `stream` on. -/
def setupFrom (hash : Nat) : Nat → Nat → HashTable → Bool × HashTable
  | 0, _, table => (true, { table with m_slot := hash % table.m_tableSize })
  | count + 1, stream, table =>
      let at_index := table.index stream (hash % table.m_tableSize)
      match table.m_collisions at_index with
      | none => (false, table)
      | some collisions =>
          match collisions.locate hash with
          | (true, located) => setupFrom hash count (stream + 1) (table.replace at_index located)
          | (false, located) => (false, table.replace at_index located)

def setup (table : HashTable) (hash : Nat) : Bool × HashTable :=
  setupFrom hash table.m_streamCount 0 table

def reset (table : HashTable) (stream hash : Nat) : HashTable :=
  let at_index := table.index stream table.m_slot
  match table.m_collisions at_index with
  | none => table
  | some collisions => table.replace at_index (collisions.locate hash).2

def iterate (table : HashTable) (stream hash : Nat) : Option Nat × HashTable :=
  let at_index := table.index stream table.m_slot
  match table.m_collisions at_index with
  | none => (none, table)
  | some collisions =>
      let (position, iterated) := collisions.iterate hash
      (position, table.replace at_index iterated)

/-- The positions of a stream with a hash. -/
def positions (table : HashTable) (stream hash : Nat) : List Nat :=
  ((table.m_collisions (table.index stream (hash % table.m_tableSize))).elim [] (·.positions hash))

/-- The positions of a stream with a hash that its iterator has not passed. -/
def remaining (table : HashTable) (stream hash : Nat) : List Nat :=
  ((table.m_collisions (table.index stream (hash % table.m_tableSize))).elim [] (·.remaining hash))

/-- There are slots, and each list is sorted. -/
structure Sorted (table : HashTable) : Prop where
  slots : 0 < table.m_tableSize
  lists : ∀ at_index list, table.m_collisions at_index = some list → list.Sorted

/-- The same entries; iterators may have moved. -/
structure Kept (table moved : HashTable) : Prop where
  streamCount_eq : moved.m_streamCount = table.m_streamCount
  tableSize_eq : moved.m_tableSize = table.m_tableSize
  entries : ∀ at_index, (moved.m_collisions at_index).map (·.m_collisions) =
    (table.m_collisions at_index).map (·.m_collisions)

/-- The iterator of one stream has come to the positions `left`. -/
structure Turned (table moved : HashTable) (stream hash : Nat) (left : List Nat) : Prop
    extends Kept table moved where
  slot_eq : moved.m_slot = table.m_slot
  left_eq : moved.remaining stream hash = left
  others : ∀ other, other ≠ stream → moved.remaining other hash = table.remaining other hash

@[refl]
theorem Kept.refl (table : HashTable) : table.Kept table := ⟨rfl, rfl, fun _ => rfl⟩

theorem Kept.trans {first second third : HashTable} (former : first.Kept second)
    (latter : second.Kept third) : first.Kept third :=
  ⟨latter.streamCount_eq.trans former.streamCount_eq, latter.tableSize_eq.trans former.tableSize_eq,
    fun at_index => (latter.entries at_index).trans (former.entries at_index)⟩

theorem Kept.positions_eq {table moved : HashTable} (kept : table.Kept moved) (stream hash : Nat) :
    moved.positions stream hash = table.positions stream hash := by
  have same := kept.entries (table.index stream (hash % table.m_tableSize))
  rw [positions, positions, index, kept.tableSize_eq, ← index]
  cases now : moved.m_collisions (table.index stream (hash % table.m_tableSize)) <;>
    cases before : table.m_collisions (table.index stream (hash % table.m_tableSize)) <;>
    rw [now, before] at same
  case none.some => exact absurd same.symm (Option.some_ne_none _)
  case some.none => exact absurd same (Option.some_ne_none _)
  case some.some left right =>
    exact congrArg (fun entries => (entries.filter (·.hash = hash)).map (·.position))
      (Option.some.inj same)

theorem Kept.sorted {table moved : HashTable} (kept : table.Kept moved) (sorted : table.Sorted) :
    moved.Sorted where
  slots := by
    rw [kept.tableSize_eq]
    exact sorted.slots
  lists at_index list present := by
    have same := kept.entries at_index
    rw [present] at same
    obtain ⟨before, before_present, entries_eq⟩ := Option.map_eq_some_iff.mp same.symm
    obtain ⟨ordered, countable⟩ := sorted.lists at_index before before_present
    rw [entries_eq] at ordered countable
    exact ⟨ordered, countable⟩

theorem kept_replace {table : HashTable} {at_index : Nat} {list moved : CollisionList}
    (present : table.m_collisions at_index = some list)
    (same : moved.m_collisions = list.m_collisions) : table.Kept (table.replace at_index moved) := by
  refine ⟨rfl, rfl, fun other => ?_⟩
  rw [replace]
  dsimp only
  by_cases here : other = at_index
  · rw [here, Function.update_self, present]
    exact congrArg some same
  · rw [Function.update_of_ne here]

theorem turned_replace {table : HashTable} {stream hash : Nat} {list moved : CollisionList}
    {left : List Nat} (slots : 0 < table.m_tableSize)
    (present : table.m_collisions (table.index stream (hash % table.m_tableSize)) = some list)
    (standing : list.Standing moved hash left) :
    table.Turned (table.replace (table.index stream (hash % table.m_tableSize)) moved) stream hash
      left where
  toKept := kept_replace present standing.same
  slot_eq := rfl
  left_eq := by
    have here := Function.update_self (table.index stream (hash % table.m_tableSize)) (some moved)
      table.m_collisions
    exact (congrArg (fun found : Option CollisionList => found.elim [] (·.remaining hash)) here).trans
      standing.left_eq
  others other differ := by
    have apart : table.index other (hash % table.m_tableSize) ≠
        table.index stream (hash % table.m_tableSize) := fun same =>
      differ (Nat.eq_of_mul_eq_mul_right slots (Nat.add_right_cancel same))
    have there := Function.update_of_ne apart (some moved) table.m_collisions
    exact congrArg (fun found : Option CollisionList => found.elim [] (·.remaining hash)) there

/-! ## Filling the table -/

theorem index_eq_iff {table : HashTable} {stream other slot place : Nat}
    (slot_lt : slot < table.m_tableSize) (place_lt : place < table.m_tableSize) :
    table.index other place = table.index stream slot ↔ other = stream ∧ place = slot := by
  refine ⟨fun same => ?_, fun ⟨same_stream, same_slot⟩ => same_stream ▸ same_slot ▸ rfl⟩
  have quotient : ∀ stream slot : Nat, slot < table.m_tableSize →
      table.index stream slot / table.m_tableSize = stream := by
    intro stream slot slot_lt
    rw [index, Nat.mul_comm, Nat.mul_add_div (Nat.zero_lt_of_lt slot_lt), Nat.div_eq_of_lt slot_lt,
      Nat.add_zero]
  have same_stream : other = stream := by
    rw [← quotient other place place_lt, same, quotient stream slot slot_lt]
  rw [same_stream] at same
  exact ⟨same_stream, Nat.add_left_cancel same⟩

/-- The entries at an index. -/
def entriesAt (table : HashTable) (at_index : Nat) : List Entry :=
  (table.m_collisions at_index).elim [] (·.m_collisions)

theorem positions_eq (table : HashTable) (stream hash : Nat) :
    table.positions stream hash =
      ((table.entriesAt (table.index stream (hash % table.m_tableSize))).filter
        (·.hash = hash)).map (·.position) := by
  rw [positions, entriesAt]
  cases table.m_collisions (table.index stream (hash % table.m_tableSize)) <;> rfl

theorem entriesAt_put (table : HashTable) (stream hash position at_index : Nat) :
    (table.put stream hash position).entriesAt at_index =
      table.entriesAt at_index ++
        if at_index = table.index stream (hash % table.m_tableSize) then [⟨hash, position⟩]
        else [] := by
  rw [put, replace, entriesAt, entriesAt]
  dsimp only
  by_cases here : at_index = table.index stream (hash % table.m_tableSize)
  · rw [if_pos here, here, Function.update_self]
    cases table.m_collisions (table.index stream (hash % table.m_tableSize)) <;> rfl
  · rw [if_neg here, Function.update_of_ne here, List.append_nil]

theorem positions_put {table : HashTable} (slots : 0 < table.m_tableSize)
    (stream hash position other sought : Nat) :
    (table.put stream hash position).positions other sought =
      table.positions other sought ++
        if other = stream ∧ hash = sought then [position] else [] := by
  have index_iff := @index_eq_iff table stream other _ _ (Nat.mod_lt hash slots)
    (Nat.mod_lt sought slots)
  rw [positions_eq, positions_eq]
  change (((table.put stream hash position).entriesAt
    (table.index other (sought % table.m_tableSize))).filter _).map _ = _
  rw [entriesAt_put, List.filter_append, List.map_append]
  congr 1
  by_cases same : other = stream ∧ hash = sought
  · obtain ⟨rfl, rfl⟩ := same
    simp
  · rw [if_neg same]
    split
    · rename_i at_index
      have differ : hash ≠ sought := fun same_hash => same ⟨(index_iff.mp at_index).1, same_hash⟩
      simp [differ]
    · rfl

/-- Each list of a stream holds at most so many entries. -/
def Within (table : HashTable) (bound : Nat → Nat) : Prop :=
  ∀ stream, ∀ slot < table.m_tableSize,
    (table.entriesAt (table.index stream slot)).length ≤ bound stream

theorem within_put {table : HashTable} (slots : 0 < table.m_tableSize) {bound : Nat → Nat}
    (within : table.Within bound) (stream hash position : Nat) :
    (table.put stream hash position).Within
      (Function.update bound stream (bound stream + 1)) := by
  intro other slot slot_lt
  have before := within other slot slot_lt
  have index_iff := @index_eq_iff table stream other _ _ (Nat.mod_lt hash slots) slot_lt
  change ((table.put stream hash position).entriesAt (table.index other slot)).length ≤ _
  rw [entriesAt_put, List.length_append]
  by_cases same : other = stream
  · rw [same, Function.update_self]
    rw [same] at before
    split <;> simp only [List.length_cons, List.length_nil] <;> omega
  · rw [Function.update_of_ne same, if_neg fun at_index => same (index_iff.mp at_index).1]
    exact before

theorem entriesAt_sort (table : HashTable) (at_index : Nat) :
    (table.sort.entriesAt at_index).Perm (table.entriesAt at_index) := by
  rw [sort, entriesAt, entriesAt]
  dsimp only
  cases table.m_collisions at_index with
  | none => exact .refl _
  | some list => exact List.mergeSort_perm _ _

theorem positions_sort (table : HashTable) (stream hash : Nat) :
    (table.sort.positions stream hash).Perm (table.positions stream hash) := by
  rw [positions_eq, positions_eq]
  exact ((table.entriesAt_sort _).filter _).map _

theorem sorted_sort {table : HashTable} (slots : 0 < table.m_tableSize) {bound : Nat → Nat}
    (within : table.Within bound) (bounded : ∀ stream, bound stream ≤ CollisionList.invalidIterator) :
    table.sort.Sorted where
  slots := slots
  lists at_index list present := by
    obtain ⟨before, before_present, rfl⟩ := Option.map_eq_some_iff.mp present
    refine ⟨?_, ?_⟩
    · refine (List.pairwise_mergeSort (fun first second third former latter => ?_)
        (fun first second => ?_) before.m_collisions).imp fun less => of_decide_eq_true less
      · exact decide_eq_true ((of_decide_eq_true former).trans (of_decide_eq_true latter))
      · simpa using Nat.le_total first.hash second.hash
    · have here := within (at_index / table.m_tableSize) (at_index % table.m_tableSize)
        (Nat.mod_lt _ slots)
      rw [index, Nat.div_add_mod', entriesAt, before_present] at here
      rw [CollisionList.sort]
      dsimp only
      rw [List.length_mergeSort]
      exact here.trans (bounded _)

/-- A stream with a position of a hash has a collision list for it. -/
theorem list_of_ne_nil {table : HashTable} {stream hash : Nat}
    (present : table.positions stream hash ≠ []) :
    ∃ list, table.m_collisions (table.index stream (hash % table.m_tableSize)) = some list ∧
      list.positions hash = table.positions stream hash := by
  cases at_index : table.m_collisions (table.index stream (hash % table.m_tableSize)) with
  | none =>
      rw [positions, at_index] at present
      exact absurd rfl present
  | some list =>
      refine ⟨list, rfl, ?_⟩
      rw [positions, at_index]
      rfl

theorem mem_positions_of_mem_remaining {table : HashTable} {stream hash position : Nat}
    (member : position ∈ table.remaining stream hash) : position ∈ table.positions stream hash := by
  rw [remaining] at member
  rw [positions]
  cases at_index : table.m_collisions (table.index stream (hash % table.m_tableSize)) with
  | none =>
      rw [at_index] at member
      exact member
  | some list =>
      rw [at_index] at member
      obtain ⟨entry, passed, rfl⟩ := List.mem_map.mp member
      have same_hash := List.mem_takeWhile_imp passed
      exact List.mem_map_of_mem (List.mem_filter.mpr
        ⟨List.mem_of_mem_drop ((List.takeWhile_sublist _).subset passed), same_hash⟩)

/-! ## Iteration over one hash -/

section
variable {table : HashTable} {stream hash : Nat} (sorted : table.Sorted)
  (slot_eq : table.m_slot = hash % table.m_tableSize)
include sorted slot_eq

theorem iterate_of_cons {position : Nat} {later : List Nat}
    (left_eq : table.remaining stream hash = position :: later) :
    ∃ moved, table.iterate stream hash = (some position, moved) ∧
      table.Turned moved stream hash later := by
  rw [remaining] at left_eq
  rw [iterate, slot_eq]
  dsimp only
  cases at_index : table.m_collisions (table.index stream (hash % table.m_tableSize)) with
  | none =>
      rw [at_index] at left_eq
      exact absurd left_eq.symm (List.cons_ne_nil _ _)
  | some list =>
      rw [at_index] at left_eq
      obtain ⟨moved, iterated, standing⟩ := CollisionList.iterate_of_cons left_eq
      refine ⟨_, ?_, turned_replace sorted.slots at_index standing⟩
      dsimp only
      rw [iterated]

theorem iterate_of_nil (passed : table.remaining stream hash = []) :
    ∃ moved, table.iterate stream hash = (none, moved) ∧ table.Turned moved stream hash [] := by
  have passed_here := passed
  rw [remaining] at passed
  rw [iterate, slot_eq]
  dsimp only
  cases at_index : table.m_collisions (table.index stream (hash % table.m_tableSize)) with
  | none => exact ⟨table, rfl, Kept.refl table, rfl, passed_here, fun _ _ => rfl⟩
  | some list =>
      rw [at_index] at passed
      obtain ⟨moved, iterated, standing⟩ :=
        CollisionList.iterate_of_nil (sorted.lists _ list at_index) hash passed
      refine ⟨_, ?_, turned_replace sorted.slots at_index standing⟩
      dsimp only
      rw [iterated]

theorem reset_turned (present : table.positions stream hash ≠ []) :
    table.Turned (table.reset stream hash) stream hash (table.positions stream hash) := by
  obtain ⟨list, at_index, positions_eq⟩ := list_of_ne_nil present
  rw [← positions_eq] at present ⊢
  obtain ⟨moved, located, standing⟩ :=
    CollisionList.locate_of_ne_nil (sorted.lists _ list at_index) hash present
  have reset_eq : table.reset stream hash =
      table.replace (table.index stream (hash % table.m_tableSize)) moved := by
    rw [reset, slot_eq, at_index]
    exact congrArg (table.replace _ ·.2) located
  rw [reset_eq]
  exact turned_replace sorted.slots at_index standing

end

/-! ## The start of an iteration -/

/-- Where `setup` leaves the iterators of the streams from `stream` on. -/
structure Located (table moved : HashTable) (stream count hash : Nat) : Prop
    extends Kept table moved where
  slot_eq : moved.m_slot = hash % moved.m_tableSize
  fronts : ∀ other, stream ≤ other → other < stream + count →
    moved.remaining other hash = moved.positions other hash
  others : ∀ other < stream, moved.remaining other hash = table.remaining other hash

theorem setupFrom_of_ne_nil {table : HashTable} (sorted : table.Sorted) {hash : Nat}
    (count stream : Nat)
    (present : ∀ other, stream ≤ other → other < stream + count → table.positions other hash ≠ []) :
    ∃ moved, setupFrom hash count stream table = (true, moved) ∧
      table.Located moved stream count hash := by
  induction count generalizing stream table with
  | zero =>
      refine ⟨_, rfl, ⟨rfl, rfl, fun _ => rfl⟩, rfl, fun other from_stream to_stream => ?_,
        fun _ _ => rfl⟩
      omega
  | succ count ih =>
      have present_here := present stream le_rfl (by omega)
      obtain ⟨list, at_index, positions_eq⟩ := list_of_ne_nil present_here
      rw [← positions_eq] at present_here
      obtain ⟨located, located_eq, standing⟩ :=
        CollisionList.locate_of_ne_nil (sorted.lists _ list at_index) hash present_here
      have turned := turned_replace sorted.slots at_index standing
      obtain ⟨moved, setup_eq, later⟩ := ih (turned.toKept.sorted sorted) (stream + 1)
        fun other from_stream to_stream => by
          rw [turned.positions_eq]
          exact present other (by omega) (by omega)
      have kept := turned.toKept.trans later.toKept
      refine ⟨moved, ?_, kept, later.slot_eq, fun other from_stream to_stream => ?_,
        fun other before => ?_⟩
      · rw [setupFrom, at_index]
        dsimp only
        rw [located_eq]
        exact setup_eq
      · rcases Nat.eq_or_lt_of_le from_stream with rfl | behind
        · rw [later.others stream (Nat.lt_succ_self stream), turned.left_eq, positions_eq,
            kept.positions_eq]
        · exact later.fronts other behind (by omega)
      · rw [later.others other (by omega), turned.others other before.ne]

theorem setupFrom_of_nil {table : HashTable} (sorted : table.Sorted) {hash : Nat}
    (count stream : Nat) {missing : Nat} (from_stream : stream ≤ missing)
    (to_stream : missing < stream + count) (absent : table.positions missing hash = []) :
    ∃ moved, setupFrom hash count stream table = (false, moved) ∧ table.Kept moved := by
  induction count generalizing stream table with
  | zero => omega
  | succ count ih =>
      rw [setupFrom]
      cases at_index : table.m_collisions (table.index stream (hash % table.m_tableSize)) with
      | none => exact ⟨table, rfl, Kept.refl table⟩
      | some list =>
          have list_sorted := sorted.lists _ list at_index
          dsimp only
          by_cases present : list.positions hash = []
          · obtain ⟨located, located_eq, same⟩ :=
              CollisionList.locate_of_nil list_sorted hash present
            rw [located_eq]
            exact ⟨_, rfl, kept_replace at_index same⟩
          · obtain ⟨located, located_eq, standing⟩ :=
              CollisionList.locate_of_ne_nil list_sorted hash present
            have turned := turned_replace sorted.slots at_index standing
            have behind : stream ≠ missing := by
              rintro rfl
              rw [positions, at_index] at absent
              exact present absent
            obtain ⟨moved, setup_eq, kept⟩ := ih (turned.toKept.sorted sorted) (stream + 1)
              (by omega) (by omega) ((turned.positions_eq _ _).trans absent)
            rw [located_eq]
            exact ⟨moved, setup_eq, turned.toKept.trans kept⟩

end HashTable
end HashJoin
end Firebird
