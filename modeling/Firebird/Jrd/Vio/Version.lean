import Firebird.Jrd.Tra.Inventory

/-!
# Record versions and the states of their writers

`TRA_snapshot_state` and `TRA_wait` as one reader calls them, and the chain of versions of a record
with `VIO_data`, which rebuilds a version from the differences to the next newer one.
-/

namespace Firebird

open TransactionState

/-- The answers of `TRA_snapshot_state`. -/
inductive WriterState where
  | active
  | limbo
  | dead
  | committed
  | us
  | precommitted
  deriving DecidableEq, Repr

/-- The state stored on an inventory page as a writer's state. -/
def WriterState.ofTransaction : TransactionState → WriterState
  | .active => .active
  | .limbo => .limbo
  | .dead => .dead
  | .committed => .committed

/-- `UndoDataRet`. -/
inductive UndoDataRet where
  | udExists
  | udForceBack
  | udForceTwice
  | udNone
  deriving DecidableEq, Repr

/-- What the savepoint's action knows of the record, for `get_undo_data`. -/
structure SavePointAction where
  /-- The record number is in `vct_records`. -/
  changed : Bool
  /-- The undo log `vct_undo` has its previous data. -/
  logged : Bool
  deriving DecidableEq, Repr

/-- The reading transaction with its attachment, relation and database, as far as they stay the same
while a version is chased. -/
structure Reader where
  tra_number : Nat
  tra_top : Nat
  tra_oldest : Nat
  /-- `tra_oldest_active`, or `att_oldest_snapshot` for a temporary relation. -/
  oldest_snapshot : Nat
  /-- `TRA_read_committed`. -/
  readCommitted : Bool
  /-- `TRA_rec_version`. -/
  recVersion : Bool
  /-- `TRA_ignore_limbo`. -/
  ignoreLimbo : Bool
  /-- `TRA_system`. -/
  system : Bool
  /-- `tra_commit_sub_trans`. -/
  commitSubTrans : Nat → Bool
  /-- `tra_save_point`, with its action on the relation. -/
  savePoint : Option (Option SavePointAction)
  /-- Numbers of the attachment's transactions. -/
  attTransactions : List Nat
  /-- `ATT_no_cleanup`. -/
  noCleanup : Bool
  /-- `ATT_notify_gc`. -/
  notifyGc : Bool
  /-- `ATT_garbage_collector`. -/
  garbageCollector : Bool
  /-- `DBB_gc_cooperative`. -/
  gcCooperative : Bool
  /-- `DBB_read_only`. -/
  readOnlyDatabase : Bool
  isTemporary : Bool
  writelock : Bool
  /-- The argument `noundo`, or `RPB_s_unstable`. -/
  noundo : Bool

/-- The transaction states that others share with the reader. -/
structure States where
  /-- The answers of `TPC_snapshot_state`. -/
  tpc : Nat → TransactionState
  /-- The transaction is in `dbb_pc_transactions`. -/
  precommitted : Nat → Bool

/-- The states as the reader sees them. -/
structure View where
  /-- The bit vector of the reader's snapshot. -/
  tra_transactions : List UInt8
  states : States

namespace Reader

/-- `TRA_snapshot_state`. -/
def snapshotState (reader : Reader) (view : View) (number : Nat) : WriterState :=
  if number ≠ 0 ∧ view.states.precommitted number = true then
    .precommitted
  else if number = reader.tra_number then
    .us
  else if number < reader.tra_oldest then
    .committed
  else if number = 0 then
    .committed
  else if reader.readOnlyDatabase = true ∧ reader.tra_top < number then
    .committed
  else if reader.readCommitted = true then
    .ofTransaction (view.states.tpc number)
  else if reader.system = true then
    if view.states.tpc number = active then .committed else .ofTransaction (view.states.tpc number)
  else if reader.commitSubTrans number = true then
    .committed
  else if reader.tra_top < number then
    .active
  else
    .ofTransaction (traState view.tra_transactions reader.tra_oldest number)

/-- `get_undo_data`. -/
def getUndoData (reader : Reader) : UndoDataRet :=
  match reader.savePoint with
  | some (some action) =>
      if !action.changed then .udNone else if action.logged then .udExists else .udForceBack
  | _ => .udNone

/-- `check_precommitted`. -/
def checkPrecommitted (reader : Reader) (number : Nat) (gcActive : Bool) : WriterState :=
  if gcActive = false ∧ reader.isTemporary = true then
    if reader.tra_number = number then
      .us
    else if number ∈ reader.attTransactions then
      .active
    else
      .precommitted
  else
    .precommitted

end Reader

/-- What `TRA_wait` meets. -/
inductive Waited where
  /-- The lock on the transaction was not granted. -/
  | refused
  /-- `TRA_get_state` afterwards. -/
  | found (state : TransactionState)
  | precommitted
  deriving DecidableEq, Repr

/-- `TRA_wait` with `tra_wait`: the state, and the reader's view with that state stored in it. -/
def Reader.wait (reader : Reader) (view : View) (number : Nat) : Waited → WriterState × View
  | .refused => (.active, view)
  | .precommitted => (.precommitted, view)
  | .found committed => (.committed, view)
  | .found found =>
      -- A transaction that is still active has lost its process.
      let state := if found = active then dead else found
      if reader.tra_top < number then
        (.ofTransaction state, view)
      else if reader.readCommitted = true then
        (.ofTransaction state,
          { view with
            states :=
              { view.states with tpc := Function.update view.states.tpc number state } })
      else
        let offset := transOffset (number - snapshotBase reader.tra_oldest)
        let byte := view.tra_transactions.getD offset 0
        (.ofTransaction state,
          { view with
            tra_transactions :=
              view.tra_transactions.set offset (setInByte byte number state) })

/-! ## Version chains -/

/-- One version of a record; the newest is the primary version. -/
structure Version (Data : Type) where
  transaction_nr : Nat
  /-- `rpb_deleted`. -/
  deleted : Bool
  /-- `rpb_damaged`. -/
  damaged : Bool
  /-- `rpb_delta`: the next older version is stored as differences to this one. -/
  delta : Bool
  /-- `rpb_gc_active`. -/
  gcActive : Bool
  stored : Data
  deriving DecidableEq, Repr

section Contents

variable {Data : Type} (applyDiff : Data → Data → Data)

/-- The full record behind a version, given the next newer one if it is stored as differences. -/
def Version.data (version : Version Data) : Option Data → Data
  | none => version.stored
  | some prior => applyDiff prior version.stored

/-- The record that the next older version is a difference to. -/
def Version.priorFor (version : Version Data) (prior : Option Data) : Option Data :=
  if version.delta then some (version.data applyDiff prior) else none

/-- The record that the version behind the given ones is a difference to. -/
def priorBehind (versions : List (Version Data)) : Option Data :=
  versions.foldl (fun prior version => version.priorFor applyDiff prior) none

theorem priorBehind_append (versions : List (Version Data)) (version : Version Data) :
    priorBehind applyDiff (versions ++ [version]) =
      version.priorFor applyDiff (priorBehind applyDiff versions) := by
  rw [priorBehind, List.foldl_append]
  rfl

end Contents

end Firebird
