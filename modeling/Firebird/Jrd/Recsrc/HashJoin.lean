import Firebird.Library.Odometer
import Firebird.Jrd.Recsrc.HashTable
import Firebird.Jrd.Recsrc.JoinKeys

/-!
# Hash joins

`HashJoin` reads its inner streams into buffers, files the position of each record under the hash of
its keys, and then delivers, for each record of the leading stream, the combinations of the records
that are filed under the hash of its keys.
-/

namespace Firebird
namespace HashJoin

/-- A record of a stream and the values that `EVL_expr` gives for its keys. -/
structure Row (types : List KeyType) (Record : Type*) where
  record : Record
  keys : Keys types

/-- What the sources of a join deliver. -/
structure Join (types : List KeyType) (Record : Type*) where
  m_leader : List (Row types Record)
  /-- `m_args.getCount()`. -/
  argCount : Nat
  m_args : Nat → List (Row types Record)
  argCount_pos : 0 < argCount

/-- `HashJoin::Impure`, with the place in the leading stream and the current record of each
stream. -/
structure Impure (types : List KeyType) (Record : Type*) where
  irsb_open : Bool
  irsb_mustread : Bool
  irsb_first : Bool
  irsb_hash_table : HashTable
  irsb_leader_buffer : List UInt8
  irsb_leader_hash : Nat
  /-- The records that the leading stream has not delivered. -/
  leader : List (Row types Record)
  leaderRow : Option (Row types Record)
  fetched : Nat → Option (Row types Record)

variable {types : List KeyType} {Record : Type*}

namespace Join

variable (join : Join types Record) (hash : List UInt8 → Nat)

/-! ## Opening -/

/-- The loop of `open` over the records of one inner stream, from the value of `counter` on. -/
def populate (stream : Nat) : List (Row types Record) → Nat → List UInt8 → HashTable → HashTable
  | [], _, _, table => table
  | row :: rows, counter, keyBuffer, table =>
      let keyBuffer := fillBuffer types row.keys keyBuffer
      populate stream rows ((counter + 1) % 2 ^ 32) keyBuffer
        (table.put stream (hash keyBuffer) counter)

/-- The loop of `open` over the inner streams, each with what the key buffer holds at first. -/
def populateAll (garbage : Nat → List UInt8) : Nat → HashTable → HashTable
  | 0, table => table
  | count + 1, table =>
      populate hash count (join.m_args count) 0 (garbage count)
        (populateAll garbage count table)

/-- `open`; the buffers are allocated without being cleared. -/
def opened (leaderGarbage : List UInt8) (garbage : Nat → List UInt8) : Impure types Record where
  irsb_open := true
  irsb_mustread := true
  irsb_first := false
  irsb_hash_table :=
    (populateAll join hash garbage join.argCount (HashTable.create join.argCount)).sort
  irsb_leader_buffer := leaderGarbage
  irsb_leader_hash := 0
  leader := join.m_leader
  leaderRow := none
  fetched _ := none

/-! ## Fetching -/

/-- The next position of a stream, looked up in its buffer. -/
def advance (impure : Impure types Record) (stream : Nat) : Bool × Impure types Record :=
  match impure.irsb_hash_table.iterate stream impure.irsb_leader_hash with
  | (none, table) => (false, { impure with irsb_hash_table := table })
  | (some position, table) =>
      match (join.m_args stream)[position]? with
      | none => (false, { impure with irsb_hash_table := table })
      | some row =>
          (true,
            { impure with
              irsb_hash_table := table
              fetched := Function.update impure.fetched stream (some row) })

/-- The second loop of `fetchRecord`, with a bound on its passes. -/
def carry (fetchFormer : Impure types Record → Option (Bool × Impure types Record)) (stream : Nat) :
    Nat → Impure types Record → Option (Bool × Impure types Record)
  | 0, _ => none
  | passes + 1, impure =>
      match fetchFormer impure with
      | none => none
      | some (false, impure) => some (false, impure)
      | some (true, impure) =>
          let table := impure.irsb_hash_table.reset stream impure.irsb_leader_hash
          match join.advance { impure with irsb_hash_table := table } stream with
          | (true, impure) => some (true, impure)
          | (false, impure) => carry fetchFormer stream passes impure

def fetchRecord (passes : Nat) : Nat → Impure types Record → Option (Bool × Impure types Record)
  | 0, impure => some (join.advance impure 0)
  | stream + 1, impure =>
      match join.advance impure (stream + 1) with
      | (true, impure) => some (true, impure)
      | (false, impure) => join.carry (fetchRecord passes stream) (stream + 1) passes impure

/-- The loop of `getRecord` that fetches the first record of each inner stream. -/
def fetchFirst (passes : Nat) :
    Nat → Nat → Impure types Record → Option (Bool × Impure types Record)
  | 0, _, impure => some (true, impure)
  | count + 1, stream, impure =>
      match join.fetchRecord passes stream impure with
      | none => none
      | some (false, impure) => some (false, impure)
      | some (true, impure) => fetchFirst passes count (stream + 1) impure

/-- The second half of the loop of `getRecord`. -/
def fetchCollisions (passes : Nat) (impure : Impure types Record) :
    Option (Bool × Impure types Record) :=
  if impure.irsb_first then
    match join.fetchFirst passes join.argCount 0 impure with
    | some (true, impure) => some (true, { impure with irsb_first := false })
    | result => result
  else join.fetchRecord passes (join.argCount - 1) impure

/-- The loop of `getRecord` with `irsb_mustread` set, over the records of the leading stream. -/
def fetchLeader (passes : Nat) :
    List (Row types Record) → Impure types Record → Option (Bool × Impure types Record)
  | [], impure => some (false, { impure with leader := [] })
  | row :: leader, impure =>
      let keyBuffer := fillBuffer types row.keys impure.irsb_leader_buffer
      let impure :=
        { impure with
          leader := leader
          leaderRow := some row
          irsb_leader_buffer := keyBuffer
          irsb_leader_hash := hash keyBuffer }
      match impure.irsb_hash_table.setup impure.irsb_leader_hash with
      | (false, table) => fetchLeader passes leader { impure with irsb_hash_table := table }
      | (true, table) =>
          match join.fetchCollisions passes
            { impure with irsb_hash_table := table, irsb_mustread := false, irsb_first := true } with
          | none => none
          | some (true, impure) => some (true, impure)
          | some (false, impure) =>
              fetchLeader passes leader { impure with irsb_mustread := true }

def getRecord (passes : Nat) (impure : Impure types Record) :
    Option (Bool × Impure types Record) :=
  if impure.irsb_open then
    if impure.irsb_mustread then join.fetchLeader hash passes impure.leader impure
    else
      match join.fetchCollisions passes impure with
      | none => none
      | some (true, impure) => some (true, impure)
      | some (false, impure) =>
          join.fetchLeader hash passes impure.leader { impure with irsb_mustread := true }
  else some (false, impure)

end Join
end HashJoin
end Firebird
