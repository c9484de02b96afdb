import Firebird.Jrd.Tra.Inventory
import Mathlib.Logic.Relation

/-!
# Snapshots taken while transactions start and end

`transaction_start` allocates a number under the header page latch, releases the header page,
copies the inventory page by page with handoffs (`TRA_get_inventory`) and then looks for the oldest
active transaction, on which occasion `TRA_wait` may rewrite copied states.  Each latch, copy and
page update is one atomic action; actions of different transactions interleave freely.
-/

namespace Firebird

open TransactionState

/-- Progress of `transaction_start` on one snapshot. -/
inductive Stage where
  /-- The number is allocated and the header page released; no inventory page is latched. -/
  | begun
  /-- The page with this sequence number is latched. -/
  | holding (sequence : Nat) (copied : Bool)
  /-- `CCH_HANDOFF`: the page and its successor are both latched. -/
  | handoff (sequence : Nat)
  /-- The loop that looks for the oldest active transaction. -/
  | scanning (active : Nat) (cleanup : Bool)
  | started
  deriving DecidableEq, Repr

/-- The fields of `jrd_tra` that make up a snapshot. -/
structure Snapshot where
  tra_top : Nat
  tra_oldest : Nat
  /-- Where the search for the oldest active transaction starts. -/
  tra_oldest_active : Nat
  tra_transactions : List UInt8
  stage : Stage
  deriving DecidableEq, Repr

namespace Snapshot

/-- `base` in `transaction_start`. -/
def base (snapshot : Snapshot) : Nat := snapshotBase snapshot.tra_oldest

/-- The state a snapshot gives a transaction: older than the oldest interesting transaction is
committed, younger than the snapshot is active, and the bit vector decides in between. -/
def state (snapshot : Snapshot) (number : Nat) : TransactionState :=
  if number < snapshot.tra_oldest then
    committed
  else if snapshot.tra_top < number then
    active
  else
    traState snapshot.tra_transactions snapshot.tra_oldest number

/-- The inventory has been copied. -/
def taken (snapshot : Snapshot) : Bool :=
  match snapshot.stage with
  | .scanning _ _ | .started => true
  | _ => false

/-- The snapshot holds a read latch on the page. -/
def latches (snapshot : Snapshot) (sequence : Nat) : Bool :=
  match snapshot.stage with
  | .holding held _ => sequence == held
  | .handoff held => sequence == held || sequence == held + 1
  | _ => false

/-- Some page of the snapshot's range, up to the page `last`, has not been latched yet. -/
def pending (snapshot : Snapshot) (last : Nat) : Bool :=
  match snapshot.stage with
  | .begun => true
  | .holding held _ => held < last
  | .handoff held => held + 1 < last
  | .scanning _ _ | .started => false

/-- The byte with the state of the transaction is in the bit vector already. -/
def copied (snapshot : Snapshot) (number : Nat) : Bool :=
  number / 4 < snapshot.base / 4 + snapshot.tra_transactions.length

/-- The snapshot after `TRA_wait` has stored the state of one transaction in its bit vector. -/
def rewrite (snapshot : Snapshot) (number : Nat) (state : TransactionState) (stage : Stage) :
    Snapshot :=
  let offset := transOffset (number - snapshot.base)
  let byte := snapshot.tra_transactions.getD offset 0
  { snapshot with
    tra_transactions := snapshot.tra_transactions.set offset (setInByte byte number state)
    stage }

end Snapshot

/-- The parties' shared state. -/
structure World where
  inventory : Inventory
  /-- The header page's next transaction number, the last one allocated. -/
  next : Nat
  /-- The `LCK_tra` lock of the transaction is held. -/
  locked : Nat → Bool
  /-- For a transaction that began its commit: the transactions committed at that moment. -/
  began : Nat → Option (Nat → Bool)
  /-- The snapshot of the transaction with this number. -/
  snapshots : Nat → Option Snapshot

namespace World

/-- Some snapshot holds a read latch on the page. -/
def latched (world : World) (sequence : Nat) : Bool :=
  (List.range (world.next + 1)).any fun reader =>
    match world.snapshots reader with
    | some snapshot => snapshot.latches sequence
    | none => false

/-- The sequence number of the page that holds the state of a transaction. -/
def page (world : World) (number : Nat) : Nat := number / world.inventory.transPerTIP

/-- Store the changed snapshot of a reader. -/
def setSnapshot (world : World) (reader : Nat) (snapshot : Snapshot) : World :=
  { world with snapshots := Function.update world.snapshots reader (some snapshot) }

@[simp] theorem snapshots_setSnapshot (world : World) (reader : Nat) (snapshot : Snapshot)
    (other : Nat) :
    (world.setSnapshot reader snapshot).snapshots other =
      if other = reader then some snapshot else world.snapshots other :=
  Function.update_apply ..

/-- Store the state of a transaction on its page. -/
def setState (world : World) (number : Nat) (state : TransactionState) : World :=
  { world with inventory := world.inventory.setState number state }

end World

/-- The atomic actions. -/
inductive Action where
  /-- `bump_transaction_id`, with the oldest interesting and oldest active transaction read from the
  header page; a read-committed transaction takes no snapshot. -/
  | start (oldest oldestActive : Nat) (snapshot : Bool)
  /-- Latch the first page of the range. -/
  | fetch (reader : Nat)
  /-- `memcpy` from the latched page. -/
  | copy (reader : Nat)
  /-- First half of `CCH_HANDOFF`: latch the successor page. -/
  | acquire (reader : Nat)
  /-- Second half of `CCH_HANDOFF`: release the old page. -/
  | release (reader : Nat)
  /-- Release the last page. -/
  | finish (reader : Nat)
  /-- One turn of the loop that looks for the oldest active transaction. -/
  | scan (reader : Nat)
  /-- Entry of `TRA_commit`. -/
  | beginCommit (number : Nat)
  /-- `TRA_set_state` by commit, prepare, rollback or cleanup. -/
  | setState (number : Nat) (state : TransactionState)
  /-- The lock of the transaction is released, or its process dies. -/
  | unlock (number : Nat)
  deriving DecidableEq, Repr

/-- States from which a transaction can still change. -/
def TransactionState.unsettled : TransactionState → Bool
  | active | limbo => true
  | dead | committed => false

namespace World

/-- `bump_transaction_id` and the preparation of the snapshot.  The oldest interesting transaction
starts at one, and by policy all older transactions are either committed or cleaned up. -/
def start (world : World) (oldest oldestActive : Nat) (snapshot : Bool) : Option World :=
  let number := world.next + 1
  let base := snapshotBase oldest
  if 0 < oldest ∧ oldest ≤ number ∧ oldest ≤ oldestActive ∧
      ((List.range oldest).all fun other =>
        other == 0 || !(world.inventory.fetchState other).unsettled) = true then
    some
      { world with
        next := number
        locked := Function.update world.locked number true
        snapshots :=
          Function.update world.snapshots number <|
            if !snapshot then
              none
            else if base < number then
              some ⟨number, oldest, oldestActive, [], .begun⟩
            else
              some ⟨number, oldest, oldestActive, List.replicate ((number + 1 - base + 3) / 4) 0,
                .scanning oldestActive (number % 100 == 0)⟩ }
  else
    none

/-- `TRA_wait` without waiting, as called by the scan: the state is read from the inventory, an
active transaction without a lock is declared dead, and the snapshot is rewritten. -/
def wait (world : World) (reader : Nat) (snapshot : Snapshot) (number : Nat) (cleanup : Bool) :
    Option World :=
  let found := world.inventory.fetchState number
  let state := if found = active then dead else found
  if found = active ∧ world.latched (world.page number) = true then
    none
  else
    some <|
      (if found = active then world.setState number dead else world).setSnapshot reader
        (snapshot.rewrite number state (.scanning (number + 1) (cleanup && state != committed)))

/-- One action; there is no result when the action is not enabled. -/
def step (world : World) : Action → Option World
  | .start oldest oldestActive snapshot => world.start oldest oldestActive snapshot
  | .fetch reader =>
      match world.snapshots reader with
      | some snapshot =>
          if snapshot.stage = .begun then
            some (world.setSnapshot reader
              { snapshot with stage := .holding (world.page snapshot.base) false })
          else
            none
      | none => none
  | .copy reader =>
      match world.snapshots reader with
      | some snapshot =>
          match snapshot.stage with
          | .holding sequence false =>
              some (world.setSnapshot reader
                { snapshot with
                  tra_transactions := snapshot.tra_transactions ++
                    world.inventory.pageBytes snapshot.base snapshot.tra_top sequence
                  stage := .holding sequence true })
          | _ => none
      | none => none
  | .acquire reader =>
      match world.snapshots reader with
      | some snapshot =>
          match snapshot.stage with
          | .holding sequence true =>
              if sequence < world.page snapshot.tra_top then
                some (world.setSnapshot reader { snapshot with stage := .handoff sequence })
              else
                none
          | _ => none
      | none => none
  | .release reader =>
      match world.snapshots reader with
      | some snapshot =>
          match snapshot.stage with
          | .handoff sequence =>
              some (world.setSnapshot reader
                { snapshot with stage := .holding (sequence + 1) false })
          | _ => none
      | none => none
  | .finish reader =>
      match world.snapshots reader with
      | some snapshot =>
          match snapshot.stage with
          | .holding sequence true =>
              if sequence < world.page snapshot.tra_top then
                none
              else
                some (world.setSnapshot reader
                  { snapshot with
                    stage := .scanning snapshot.tra_oldest_active (snapshot.tra_top % 100 == 0) })
          | _ => none
      | none => none
  | .scan reader =>
      match world.snapshots reader with
      | some snapshot =>
          match snapshot.stage with
          | .scanning number cleanup =>
              if snapshot.tra_top ≤ number then
                some (world.setSnapshot reader { snapshot with stage := .started })
              else if traState snapshot.tra_transactions snapshot.tra_oldest number ≠ active then
                some (world.setSnapshot reader
                  { snapshot with stage := .scanning (number + 1) cleanup })
              else if world.locked number = true ∨ cleanup = false then
                some (world.setSnapshot reader { snapshot with stage := .started })
              else
                world.wait reader snapshot number cleanup
          | _ => none
      | none => none
  | .beginCommit number =>
      if 0 < number ∧ number ≤ world.next ∧ (world.began number).isNone = true ∧
          (world.inventory.fetchState number).unsettled = true then
        some
          { world with
            began := Function.update world.began number
              (some fun other => world.inventory.fetchState other == committed) }
      else
        none
  | .setState number state =>
      if 0 < number ∧ number ≤ world.next ∧
          (world.inventory.fetchState number).unsettled = true ∧ state ≠ active ∧
          (state = committed → (world.began number).isSome = true) ∧
          world.latched (world.page number) = false then
        some (world.setState number state)
      else
        none
  | .unlock number => some { world with locked := Function.update world.locked number false }

end World

end Firebird
