import Firebird.Common.Fault
import Mathlib.Data.List.Sort

/-!
# Savepoints and their undo logs

A record is its chain of versions, the primary one first.  A transaction overwrites a version of its
own in place when the format stays, and puts a new version on top otherwise.  A savepoint keeps for
each relation a verb action: the bitmap of the records it touched, and the old data of those whose
first change under it was in place.  Undoing an action backs out one version of every record of the
bitmap, or writes the old data back where there is some.  Rolling a savepoint forward merges its
actions into those of the next one.

Savepoints belong to a user transaction inside a verb (`isChanging`), so `verb_post` is reached by
every change.  Deferred work, index and blob cleanup do not touch the records and are left out.
-/

namespace Firebird
namespace Savepoints

/-- `rhd`: the transaction and the format of a version, and its data unless it is a deleted stub. -/
structure Version where
  transaction : Nat
  format : Nat
  data : Option (List UInt8)
  deriving DecidableEq, Repr

/-- The version chains by relation and record number; no version when the slot is free. -/
abbrev Store := Nat × Nat → List Version

/-- `RecordBitmap`, as the record numbers in the order its accessor visits them. -/
abbrev RecordBitmap := List Nat

/-- `RBM_SET`. -/
def RecordBitmap.set (bitmap : RecordBitmap) (number : Nat) : RecordBitmap :=
  if number ∈ bitmap then bitmap else bitmap.orderedInsert (· ≤ ·) number

/-- `RecordBitmap::bit_or`. -/
def RecordBitmap.bitOr (bitmap other : RecordBitmap) : RecordBitmap :=
  bitmap.foldl RecordBitmap.set other

/-- `UndoItem`: the data of a record before its first change in place. -/
structure UndoItem where
  number : Nat
  format : Nat
  data : List UInt8
  deriving DecidableEq, Repr

/-- `VerbAction`. -/
structure VerbAction where
  relation : Nat
  records : RecordBitmap
  undo : List UndoItem
  deriving DecidableEq, Repr

/-- `Savepoint`, with `SAV_root` of its flags. -/
structure Savepoint where
  number : Nat
  root : Bool
  actions : List VerbAction
  deriving DecidableEq, Repr

/-- `UndoItemTree::locate`. -/
def locate (undo : List UndoItem) (number : Nat) : Option UndoItem :=
  undo.find? fun item => item.number == number

/-- What `VIO_modify` and `VIO_erase` hand to `verb_post`: the old record of a change in place. -/
abbrev OldData := Option (Nat × List UInt8)

/-- The part of `verb_post` behind `createAction`. -/
def VerbAction.post (action : VerbAction) (number : Nat) (oldData : OldData) : VerbAction :=
  if number ∈ action.records then action
  else
    { action with
      records := RecordBitmap.set action.records number
      undo := match oldData with
        | none => action.undo
        | some (format, data) => { number, format, data } :: action.undo }

/-- `VerbAction::mergeTo` with an action of the next savepoint.  Without one the whole action is
dropped. -/
def VerbAction.mergeTo (action nextAction : VerbAction) : VerbAction :=
  { nextAction with
    records := RecordBitmap.bitOr action.records nextAction.records
    undo := action.undo.foldl (fun undo item =>
      if item.number ∉ nextAction.records ∧ locate undo item.number = none then item :: undo
      else undo) nextAction.undo }

/-- The round of `VerbAction::undo` for one record: the format of the header stays when the old
data is written back. -/
def undoRecord (transaction : Nat) (item : Option UndoItem) :
    List Version → Except Fault (List Version)
  | [] => .error (.bugcheck 186)
  | primary :: back =>
      if primary.transaction ≠ transaction then .error (.bugcheck 185)
      else
        match item with
        | none => .ok back
        | some item => .ok ({ primary with data := some item.data } :: back)

/-- `VerbAction::undo`. -/
def VerbAction.undoAll (transaction : Nat) (action : VerbAction) (store : Store) :
    Except Fault Store :=
  action.records.foldlM (fun store number => do
    let chain ← undoRecord transaction (locate action.undo number) (store (action.relation, number))
    pure (Function.update store (action.relation, number) chain)) store

/-- `Savepoint::getAction`. -/
def getAction (actions : List VerbAction) (relation : Nat) : Option VerbAction :=
  actions.find? fun action => action.relation == relation

/-- An action in the place of the one that belongs to its relation. -/
def replaceAction (actions : List VerbAction) (changed : VerbAction) : List VerbAction :=
  actions.map fun action => if action.relation = changed.relation then changed else action

/-- `verb_post` on the current savepoint. -/
def Savepoint.verbPost (savepoint : Savepoint) (relation number : Nat) (oldData : OldData) :
    Savepoint :=
  match getAction savepoint.actions relation with
  | none =>
      let action : VerbAction := { relation, records := [], undo := [] }
      { savepoint with actions := action.post number oldData :: savepoint.actions }
  | some action =>
      { savepoint with actions := replaceAction savepoint.actions (action.post number oldData) }

/-- `Savepoint::rollback`, without the release. -/
def Savepoint.rollback (transaction : Nat) (savepoint : Savepoint) (store : Store) :
    Except Fault Store :=
  savepoint.actions.foldlM (fun store action => action.undoAll transaction store) store

/-- The round of `Savepoint::rollforward` for one action, with a next savepoint there: the whole
action goes over when the next savepoint has none for the relation. -/
def mergeAction (nextActions : List VerbAction) (action : VerbAction) : List VerbAction :=
  match getAction nextActions action.relation with
  | none => action :: nextActions
  | some nextAction => replaceAction nextActions (action.mergeTo nextAction)

/-- The loop of `Savepoint::rollforward` over the actions. -/
def mergeActions (actions nextActions : List VerbAction) : List VerbAction :=
  actions.foldl mergeAction nextActions

section Size

variable (approxSize : RecordBitmap → Nat)

/-- `Savepoint::SIZE_THRESHOLD`. -/
def sizeThreshold : Nat := 1024 * 32

/-- The loop of `Savepoint::isLarge`. -/
def isLargeFrom (size : Nat) : List VerbAction → Bool
  | [] => false
  | action :: rest =>
      if action.records = [] then isLargeFrom size rest
      else
        let size := size + approxSize action.records
        if sizeThreshold < size then true else isLargeFrom size rest

/-- `Savepoint::isLarge`. -/
def Savepoint.isLarge (savepoint : Savepoint) : Bool :=
  isLargeFrom approxSize 0 savepoint.actions

/-- `Savepoint::rollforward` into the next savepoint; `none` when that is the transaction level one
and it is given up for its size. -/
def Savepoint.rollInto (savepoint next : Savepoint) : Option Savepoint :=
  if next.root ∧ savepoint.isLarge approxSize then none
  else
    let merged := { next with actions := mergeActions savepoint.actions next.actions }
    if merged.root ∧ merged.isLarge approxSize then none else some merged

/-- `Savepoint::rollforward`: the savepoints that follow afterwards. -/
def Savepoint.rollforward (savepoint : Savepoint) : List Savepoint → List Savepoint
  | [] => []
  | next :: rest =>
      match savepoint.rollInto approxSize next with
      | none => []
      | some merged => merged :: rest

/-- The loop of `jrd_tra::rollbackToSavepoint`. -/
def mergeDown (number : Nat) (top : Savepoint) : List Savepoint → List Savepoint
  | [] => [top]
  | next :: rest =>
      if number < top.number ∧ number ≤ next.number then
        match top.rollInto approxSize next with
        | none => []
        | some merged => mergeDown number merged rest
      else top :: next :: rest

end Size

/-- `jrd_tra`: its number, the stack of savepoints and the last number given to one, with the
records of the database. -/
structure Transaction where
  number : Nat
  savePoints : List Savepoint
  savePointNumber : Nat
  store : Store

/-- A change that the transaction makes to a record, or an operation on its savepoints. -/
inductive Event where
  | store (relation number format : Nat) (data : List UInt8)
  | modify (relation number format : Nat) (data : List UInt8)
  | erase (relation number : Nat)
  | startSavepoint (root : Bool)
  /-- `EXE_start` with an empty savepoint that the request kept from its last execution. -/
  | reuseSavepoint (number : Nat)
  | rollbackSavepoint
  | rollbackToSavepoint (number : Nat)
  | rollforwardSavepoint
  /-- `RELEASE SAVEPOINT … ONLY`: the savepoint so many places below the current one is rolled
  forward, with the current one as `prior`. -/
  | releaseOnly (skipped : Nat)
  deriving DecidableEq, Repr

namespace Transaction

/-- `verb_post`, when there is a savepoint. -/
def verbPost (transaction : Transaction) (relation number : Nat) (oldData : OldData) :
    List Savepoint :=
  match transaction.savePoints with
  | [] => []
  | current :: rest => current.verbPost relation number oldData :: rest

/-- A record gets a new chain and the change is posted. -/
def change (transaction : Transaction) (relation number : Nat) (chain : List Version)
    (oldData : OldData) : Transaction :=
  { transaction with
    savePoints := transaction.verbPost relation number oldData
    store := Function.update transaction.store (relation, number) chain }

/-- `VIO_store` into a free slot. -/
def storeRecord (transaction : Transaction) (relation number format : Nat) (data : List UInt8) :
    Transaction :=
  transaction.change relation number
    [{ transaction := transaction.number, format, data := some data }] none

/-- `VIO_modify`. -/
def modify (transaction : Transaction) (relation number format : Nat) (data : List UInt8) :
    Except Fault Transaction :=
  match transaction.store (relation, number) with
  | [] => .error (.bugcheck 186)
  | primary :: back =>
      if primary.transaction = transaction.number ∧ primary.format = format then
        .ok (transaction.change relation number ({ primary with data := some data } :: back)
          (primary.data.map fun old => (primary.format, old)))
      else
        .ok (transaction.change relation number
          ({ transaction := transaction.number, format, data := some data } :: primary :: back) none)

/-- `VIO_erase`. -/
def erase (transaction : Transaction) (relation number : Nat) : Except Fault Transaction :=
  match transaction.store (relation, number) with
  | [] => .error (.bugcheck 186)
  | primary :: back =>
      if primary.transaction = transaction.number then
        .ok (transaction.change relation number ({ primary with data := none } :: back)
          (primary.data.map fun old => (primary.format, old)))
      else
        .ok (transaction.change relation number
          ({ transaction := transaction.number, format := primary.format, data := none } ::
            primary :: back) none)

/-- `jrd_tra::rollbackSavepoint`. -/
def rollbackSavepoint (transaction : Transaction) : Except Fault Transaction :=
  match transaction.savePoints with
  | [] => .ok transaction
  | current :: rest => do
      let store ← current.rollback transaction.number transaction.store
      pure { transaction with savePoints := rest, store }

variable (approxSize : RecordBitmap → Nat)

/-- `jrd_tra::rollforwardSavepoint`. -/
def rollforwardSavepoint (transaction : Transaction) : Transaction :=
  match transaction.savePoints with
  | [] => transaction
  | current :: rest => { transaction with savePoints := current.rollforward approxSize rest }

/-- `jrd_tra::rollbackToSavepoint`. -/
def rollbackToSavepoint (transaction : Transaction) (number : Nat) : Except Fault Transaction :=
  match transaction.savePoints with
  | [] => .ok transaction
  | current :: rest =>
      let merged := { transaction with savePoints := mergeDown approxSize number current rest }
      match merged.savePoints with
      | [] => .ok merged
      | top :: _ => if number ≤ top.number then merged.rollbackSavepoint else .ok merged

/-- `UserSavepointNode::execute` for `CMD_RELEASE_ONLY`: `release` links `prior` to the savepoint
behind the one that goes. -/
def releaseOnly (transaction : Transaction) (skipped : Nat) : Transaction :=
  match transaction.savePoints with
  | [] => transaction
  | current :: below =>
      match below.drop skipped with
      | [] => transaction
      | savepoint :: rest =>
          { transaction with savePoints := current :: savepoint.rollforward approxSize rest }

/-- One step of the transaction. -/
def step (transaction : Transaction) : Event → Except Fault Transaction
  | .store relation number format data => .ok (transaction.storeRecord relation number format data)
  | .modify relation number format data => transaction.modify relation number format data
  | .erase relation number => transaction.erase relation number
  | .startSavepoint root =>
      let number := transaction.savePointNumber + 1
      .ok { transaction with
        savePoints := { number, root, actions := [] } :: transaction.savePoints
        savePointNumber := number }
  | .reuseSavepoint number =>
      .ok { transaction with
        savePoints := { number, root := false, actions := [] } :: transaction.savePoints }
  | .rollbackSavepoint => transaction.rollbackSavepoint
  | .rollbackToSavepoint number => transaction.rollbackToSavepoint approxSize number
  | .rollforwardSavepoint => .ok (transaction.rollforwardSavepoint approxSize)
  | .releaseOnly skipped => .ok (transaction.releaseOnly approxSize skipped)

end Transaction

end Savepoints
end Firebird
