import Mathlib
import Firebird.Jrd.Tra.TipFaithful

/-!
# Starting and ending transactions

`transaction_start` of `jrd/tra.cpp`, with the header page, the inventory pages, the lock data of
the transactions and what each process keeps in memory.  A start runs in many actions: the number
is allocated and the lock taken with provisional data, the inventory is copied, the oldest active
transaction is looked for, its lock data and the minimum over all locks are read, the lock data are
rewritten, and last the oldest interesting transaction is looked for.  Actions of different
transactions interleave freely.
-/

namespace Firebird
namespace Start

open TransactionState

/-- `TRA_ACTIVE_CLEANUP`. -/
def TRA_ACTIVE_CLEANUP : Nat := 100

/-- What a process keeps in its `Database` block. -/
structure Process (tipBytes : Nat) where
  dbb_oldest_transaction : Nat
  dbb_oldest_active : Nat
  dbb_oldest_snapshot : Nat
  dbb_pc_transactions : Option (List Nat)
  cache : TipCache tipBytes

/-- How far `transaction_start` has got. -/
inductive Progress where
  /-- `TRA_get_inventory` is filling the bit vector. -/
  | copying
  /-- The loop that looks for the oldest active transaction is at this number. -/
  | scanning (active : Nat) (cleanup : Bool)
  /-- `LCK_query_data` is about to be called. -/
  | querying
  /-- The oldest active transaction is known, the lock still holds provisional data. -/
  | captured
  /-- The lock data are rewritten. -/
  | published
  | running
  deriving DecidableEq, Repr

/-- The fields of `jrd_tra` and the local variables of its start. -/
structure Transaction where
  process : Nat
  /-- `TRA_read_committed`. -/
  readCommitted : Bool
  tra_oldest : Nat
  tra_oldest_active : Nat
  /-- The bit vector of a snapshot, as far as it is copied. -/
  tra_transactions : List UInt8
  oldest_active : Nat
  /-- The oldest snapshot on the header page. -/
  oldest_snapshot : Nat
  progress : Progress
  deriving DecidableEq, Repr

/-- The state of a transaction in the bit vector. -/
def Transaction.seen (transaction : Transaction) (number : Nat) : TransactionState :=
  traState transaction.tra_transactions transaction.tra_oldest number

/-- The shared pages and locks, and the processes. -/
structure World (tipBytes : Nat) where
  inventory : Inventory
  sized : inventory.tipBytes = tipBytes
  hdr_oldest_transaction : Nat
  hdr_oldest_active : Nat
  hdr_oldest_snapshot : Nat
  hdr_next_transaction : Nat
  oldest_le_next : hdr_oldest_transaction ≤ hdr_next_transaction
  next_lt_max : hdr_next_transaction < TipCache.MAX_TRA_NUMBER
  processes : Nat → Process tipBytes
  /-- The transactions that have started, or begun to, and not ended. -/
  transactions : Nat → Option Transaction
  /-- The data of a transaction's lock, while it is held. -/
  lck_data : Nat → Option Nat

/-- The atomic actions. -/
inductive Action where
  /-- `bump_transaction_id` and `LCK_lock`, up to the release of the header page. -/
  | begin (process : Nat) (readCommitted : Bool)
  /-- Copy the next byte of the inventory, or leave `TRA_get_inventory`. -/
  | copy (number : Nat)
  /-- One turn of the loop that looks for the oldest active transaction. -/
  | lookup (number : Nat)
  /-- `LCK_query_data(LCK_tra, LCK_MIN)`. -/
  | query (number : Nat)
  /-- `LCK_write_data`. -/
  | publish (number : Nat)
  /-- The loop that looks for the oldest interesting transaction, and the end of the start. -/
  | interest (number : Nat)
  /-- Commit, prepare or rollback sets the state. -/
  | finish (number : Nat) (state : TransactionState)
  /-- `retain_context`: the transaction goes on under a new number. -/
  | retain (number : Nat) (state : TransactionState)
  /-- `LCK_release` of an ended transaction. -/
  | release (number : Nat)
  /-- The process of the transaction dies. -/
  | vanish (number : Nat)
  /-- `TRA_wait` declares a transaction that has vanished dead. -/
  | bury (number : Nat)
  /-- A transaction in limbo is committed or rolled back. -/
  | resolve (number : Nat) (state : TransactionState)
  /-- A process copies an inventory page to its cache. -/
  | fetch (process sequence : Nat)
  /-- A process releases old pages of its cache. -/
  | trim (process hdr_oldest : Nat)
  /-- A process sets a state in its cache. -/
  | store (process number : Nat) (state : TransactionState)
  /-- The precommitted transactions of a process change. -/
  | precommit (process : Nat) (vector : Option (List Nat))
  deriving DecidableEq, Repr

namespace World

variable {tipBytes : Nat}

/-- The database as the cache of a process sees it. -/
def view (world : World tipBytes) (process : Nat) : TipCache.Database tipBytes where
  inventory := world.inventory
  sized := world.sized
  hdr_oldest_transaction := world.hdr_oldest_transaction
  hdr_next_transaction := world.hdr_next_transaction
  oldest_le_next := world.oldest_le_next
  next_lt_max := world.next_lt_max
  readOnly := false
  dbb_oldest_transaction := (world.processes process).dbb_oldest_transaction
  dbb_pc_transactions := (world.processes process).dbb_pc_transactions
  noted := []
  cache := (world.processes process).cache

/-- Change the cache of a process. -/
def setCache (world : World tipBytes) (process : Nat) (cache : TipCache tipBytes) :
    World tipBytes :=
  { world with
    processes :=
      Function.update world.processes process { world.processes process with cache } }

/-- Change a transaction. -/
def setTransaction (world : World tipBytes) (number : Nat) (transaction : Option Transaction) :
    World tipBytes :=
  { world with transactions := Function.update world.transactions number transaction }

/-- Change the data of a lock, or release it. -/
def setLock (world : World tipBytes) (number : Nat) (data : Option Nat) : World tipBytes :=
  { world with lck_data := Function.update world.lck_data number data }

/-- `TRA_set_state` on the inventory page. -/
def setState (world : World tipBytes) (number : Nat) (state : TransactionState) :
    World tipBytes :=
  { world with
    inventory := world.inventory.setState number state
    sized := world.sized }

theorem transactions_setTransaction (world : World tipBytes) (number : Nat)
    (transaction : Option Transaction) (other : Nat) :
    (world.setTransaction number transaction).transactions other =
      if other = number then transaction else world.transactions other :=
  Function.update_apply ..

theorem lck_data_setLock (world : World tipBytes) (number : Nat) (data : Option Nat)
    (other : Nat) :
    (world.setLock number data).lck_data other =
      if other = number then data else world.lck_data other :=
  Function.update_apply ..

theorem processes_setCache (world : World tipBytes) (process : Nat) (cache : TipCache tipBytes)
    (other : Nat) :
    (world.setCache process cache).processes other =
      if other = process then { world.processes process with cache } else world.processes other :=
  Function.update_apply ..

theorem fetchState_setState (world : World tipBytes) (number : Nat) (state : TransactionState)
    (other : Nat) :
    (world.setState number state).inventory.fetchState other =
      if other = number then state else world.inventory.fetchState other :=
  world.inventory.fetchState_setState number other state

/-- `bump_transaction_id`: the next number is allocated, and the header page takes over what the
process knows better. -/
def bump (world : World tipBytes) (process : Nat) : Option (World tipBytes) :=
  let dbb := world.processes process
  let number := world.hdr_next_transaction + 1
  let oldest := max world.hdr_oldest_transaction dbb.dbb_oldest_transaction
  if bound : oldest ≤ number ∧ number < TipCache.MAX_TRA_NUMBER then
    some
      { world with
        hdr_next_transaction := number
        hdr_oldest_transaction := oldest
        hdr_oldest_active := max world.hdr_oldest_active dbb.dbb_oldest_active
        hdr_oldest_snapshot := max world.hdr_oldest_snapshot dbb.dbb_oldest_snapshot
        oldest_le_next := bound.1
        next_lt_max := bound.2 }
  else none

/-- Where the search for the oldest active transaction begins: OIT exceeds OAT if sweep has advanced
it and no transaction has started since. -/
def firstActive (world : World tipBytes) : Nat :=
  max world.hdr_oldest_active world.hdr_oldest_transaction

/-- The newest transaction when the header page is released. -/
def begun (world : World tipBytes) (process : Nat) (readCommitted : Bool) : Transaction where
  process
  readCommitted
  tra_oldest := world.hdr_oldest_transaction
  tra_oldest_active := world.firstActive
  tra_transactions := []
  oldest_active := world.hdr_next_transaction
  oldest_snapshot := world.hdr_oldest_snapshot
  progress :=
    if readCommitted then
      .scanning world.firstActive (world.hdr_next_transaction % TRA_ACTIVE_CLEANUP == 0)
    else .copying

/-- The provisional lock data of the newest transaction. -/
def provisional (world : World tipBytes) (readCommitted : Bool) : Nat :=
  if readCommitted then world.hdr_next_transaction else world.firstActive

/-- The beginning of `transaction_start`. -/
def begin (world : World tipBytes) (process : Nat) (readCommitted : Bool) :
    Option (World tipBytes) :=
  (world.bump process).map fun world =>
    let number := world.hdr_next_transaction
    (world.setTransaction number (some (world.begun process readCommitted))).setLock number
      (some (world.provisional readCommitted))

/-- The bytes that `TRA_get_inventory` copies for a snapshot. -/
def vectorLength (transaction : Transaction) (number : Nat) : Nat :=
  number / 4 + 1 - snapshotBase transaction.tra_oldest / 4

/-- `TRA_get_inventory`, one byte at a time. -/
def copy (world : World tipBytes) (number : Nat) (transaction : Transaction) : World tipBytes :=
  let copied := transaction.tra_transactions.length
  world.setTransaction number <| some <|
    if copied < vectorLength transaction number then
      { transaction with
        tra_transactions := transaction.tra_transactions ++
          [world.inventory.byteAt (snapshotBase transaction.tra_oldest / 4 + copied)] }
    else
      { transaction with
        progress :=
          .scanning transaction.tra_oldest_active (number % TRA_ACTIVE_CLEANUP == 0) }

/-- The first transaction from `start` on, below `top`, in a state of the mask: in the bit vector of
a snapshot, else by `TPC_find_states`. -/
def findFirst (world : World tipBytes) (transaction : Transaction) (start top : Nat)
    (wanted : TransactionState → Bool) (mask : UInt32) :
    Except Fault (Option Nat × World tipBytes) :=
  if transaction.readCommitted then
    match (world.view transaction.process).findStates start top mask with
    | .error fault => .error fault
    | .ok (outcome, dbb) =>
        .ok (outcome.map Prod.fst, world.setCache transaction.process dbb.cache)
  else
    .ok ((List.range' start (top - start)).find? fun number => wanted (transaction.seen number),
      world)

/-- The mask of `tra_active` alone. -/
def activeMask : UInt32 := (CachedState.onPage active).bit

/-- `~((1 << tra_committed) | (1 << tra_precommitted))`. -/
def interestingMask : UInt32 :=
  ~~~((CachedState.onPage committed).bit ||| CachedState.precommitted.bit)

/-- The bit vector after `TRA_wait` has stored a state in it. -/
def rewrite (transaction : Transaction) (number : Nat) (state : TransactionState) : List UInt8 :=
  let offset := transOffset (number - snapshotBase transaction.tra_oldest)
  transaction.tra_transactions.set offset
    (setInByte (transaction.tra_transactions.getD offset 0) number state)

/-- The loop has found an active transaction whose lock holds `data`. -/
def settle (transaction : Transaction) (number found data : Nat) : Transaction :=
  let lowest := min number data
  { transaction with
    oldest_active := min number found
    tra_oldest_active := lowest
    progress := if lowest = transaction.oldest_snapshot then .captured else .querying }

/-- One turn of the loop that looks for the oldest active transaction. -/
def lookup (world : World tipBytes) (number : Nat) (transaction : Transaction) (start : Nat)
    (cleanup : Bool) : Option (World tipBytes) :=
  match world.findFirst transaction start number (· == active) activeMask with
  | .error _ => none
  | .ok (none, world) =>
      some <| world.setTransaction number <| some
        { transaction with
          oldest_active := number
          tra_oldest_active := number
          progress := .captured }
  | .ok (some found, world) =>
      match (world.lck_data found).getD 0 with
      | 0 =>
          if cleanup then
            if precommited (world.processes transaction.process).dbb_pc_transactions found then
              some <| world.setTransaction number <| some
                { transaction with progress := .scanning (found + 1) true }
            else
              -- `TRA_wait`: by now the transaction is not active, or has been declared dead.
              let state := world.inventory.fetchState found
              if state = active then none
              else
                some <| world.setTransaction number <| some
                  { transaction with
                    tra_transactions := rewrite transaction found state
                    progress := .scanning (found + 1) (state != committed) }
          else
            some (world.setTransaction number (some (settle transaction number found found)))
      | data + 1 =>
          some (world.setTransaction number (some (settle transaction number found (data + 1))))

/-- `LCK_query_data` for the smallest data of all transaction locks. -/
def lckMin (world : World tipBytes) : Nat :=
  (((List.range (world.hdr_next_transaction + 1)).filterMap world.lck_data).filter
    fun data => data != 0).min?.getD 0

/-- The end of the loop, after `LCK_query_data`. -/
def query (world : World tipBytes) (number : Nat) (transaction : Transaction) : World tipBytes :=
  let data := world.lckMin
  world.setTransaction number <| some
    { transaction with
      tra_oldest_active :=
        if data != 0 && decide (data < transaction.tra_oldest_active) then data
        else transaction.tra_oldest_active
      progress := .captured }

/-- The cast to `SLONG`. -/
def slong (value : Nat) : Int :=
  if value % 2 ^ 32 < 2 ^ 31 then (value % 2 ^ 32 : Nat) else (value % 2 ^ 32 : Nat) - 2 ^ 32

/-- `LCK_write_data`, unless the lock data compare equal. -/
def publish (world : World tipBytes) (number : Nat) (transaction : Transaction) :
    World tipBytes :=
  let lck_data := if transaction.readCommitted then number else transaction.oldest_active
  let world := world.setTransaction number (some { transaction with progress := .published })
  match world.lck_data number with
  | none => world
  | some data => if (data : Int) = slong lck_data then world else world.setLock number (some lck_data)

/-- The rest of `transaction_start`. -/
def interest (world : World tipBytes) (number : Nat) (transaction : Transaction) :
    Option (World tipBytes) :=
  match world.findFirst transaction transaction.tra_oldest number (· != committed)
      interestingMask with
  | .error _ => none
  | .ok (found, world) =>
      let oldest := found.getD number - 1
      let dbb := world.processes transaction.process
      some
        { world.setTransaction number (some { transaction with progress := .running }) with
          processes :=
            Function.update world.processes transaction.process
              { dbb with
                dbb_oldest_transaction := max dbb.dbb_oldest_transaction oldest
                dbb_oldest_active := max dbb.dbb_oldest_active transaction.oldest_active
                dbb_oldest_snapshot := max dbb.dbb_oldest_snapshot transaction.tra_oldest_active } }

/-- `retain_context`. -/
def retain (world : World tipBytes) (number : Nat) (transaction : Transaction)
    (state : TransactionState) : Option (World tipBytes) :=
  (world.bump transaction.process).map fun world =>
    let new_number := world.hdr_next_transaction
    (((world.setLock new_number (world.lck_data number)).setState number state).setTransaction
      number none).setTransaction new_number (some transaction)

/-- The transaction has begun, is not alive and holds no lock. -/
def gone (world : World tipBytes) (number : Nat) : Bool :=
  decide (0 < number ∧ number ≤ world.hdr_next_transaction) &&
    (world.transactions number).isNone && (world.lck_data number).isNone

/-- One action; there is no result when the action is not enabled. -/
def step (world : World tipBytes) : Action → Option (World tipBytes)
  | .begin process readCommitted => world.begin process readCommitted
  | .copy number =>
      match world.transactions number with
      | none => none
      | some transaction =>
          if transaction.progress = .copying then some (world.copy number transaction) else none
  | .lookup number =>
      match world.transactions number with
      | none => none
      | some transaction =>
          match transaction.progress with
          | .scanning start cleanup => world.lookup number transaction start cleanup
          | _ => none
  | .query number =>
      match world.transactions number with
      | none => none
      | some transaction =>
          if transaction.progress = .querying then some (world.query number transaction) else none
  | .publish number =>
      match world.transactions number with
      | none => none
      | some transaction =>
          if transaction.progress = .captured then some (world.publish number transaction)
          else none
  | .interest number =>
      match world.transactions number with
      | none => none
      | some transaction =>
          if transaction.progress = .published then world.interest number transaction else none
  | .finish number state =>
      if state ≠ active ∧ (world.transactions number).isSome then
        some ((world.setState number state).setTransaction number none)
      else none
  | .retain number state =>
      match world.transactions number with
      | none => none
      | some transaction =>
          if transaction.progress = .running ∧ (state = committed ∨ state = dead) then
            world.retain number transaction state
          else none
  | .release number =>
      if (world.transactions number).isNone then some (world.setLock number none) else none
  | .vanish number => some ((world.setTransaction number none).setLock number none)
  | .bury number =>
      if world.gone number ∧ world.inventory.fetchState number = active then
        some (world.setState number dead)
      else none
  | .resolve number state =>
      if world.inventory.fetchState number = limbo ∧ (state = committed ∨ state = dead) then
        some (world.setState number state)
      else none
  | .fetch process sequence =>
      match (world.view process).fetchInventoryPage sequence with
      | .error _ => none
      | .ok dbb => some (world.setCache process dbb.cache)
  | .trim process hdr_oldest =>
      if hdr_oldest ≤ world.hdr_oldest_transaction then
        some (world.setCache process ((world.processes process).cache.trim hdr_oldest))
      else none
  | .store process number state =>
      if (state = committed → world.inventory.fetchState number = committed) ∧
          (state ≠ active → world.inventory.fetchState number ≠ active) then
        some (world.setCache process ((world.processes process).cache.setState number state))
      else none
  | .precommit process vector =>
      -- A transaction is committed on its page before it is entered.
      if (vector.getD []).all fun number =>
          number == 0 || world.inventory.fetchState number == committed then
        some
          { world with
            processes :=
              Function.update world.processes process
                { world.processes process with dbb_pc_transactions := vector } }
      else none

end World

end Start
end Firebird
