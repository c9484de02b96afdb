import Firebird.Jrd.Tra.Interest

/-!
# Sweep

`TRA_sweep` of `jrd/tra.cpp` with `VIO_sweep`, the sweeper's part of `DPM_next` and `check_swept`.
Of a record version only the transaction that wrote it is kept.  While a sweep goes from line to
line, transactions start and end, write and collect garbage.
-/

namespace Firebird

namespace Start
namespace World

open TransactionState

variable {tipBytes : Nat}

/-- `TRA_fetch_state`: read the inventory page, which goes to the cache. -/
def fetchState (world : World tipBytes) (process number : Nat) :
    Except Fault (CachedState × World tipBytes) :=
  match (world.view process).fetchInventoryPage (number / (4 * tipBytes)) with
  | .error fault => .error fault
  | .ok dbb =>
      .ok (.onPage (world.inventory.fetchState number), world.setCache process dbb.cache)

/-- `extendCache`. -/
def extendCache (world : World tipBytes) (process : Nat) (dbb : TipCache.Database tipBytes)
    (number : Nat) : Except Fault (CachedState × World tipBytes) :=
  match dbb.cache.m_cache.getLast? with
  | none => .error .outOfBounds
  | some tip_cache =>
      if tip_cache.tpc_base < TipCache.MAX_TRA_NUMBER - 4 * tipBytes then
        match dbb.cacheTransactions (tip_cache.tpc_base + 4 * tipBytes) with
        | .error fault => .error fault
        | .ok dbb =>
            if number < dbb.hdr_oldest_transaction then
              .ok (.onPage committed, world.setCache process dbb.cache)
            else
              .ok (.onPage ((dbb.cache.stored number).getD active),
                world.setCache process dbb.cache)
      else
        .ok (.onPage ((dbb.cache.stored number).getD active), world.setCache process dbb.cache)

/-- `TPC_snapshot_state`. -/
def snapshotState (world : World tipBytes) (process number : Nat) :
    Except Fault (CachedState × World tipBytes) :=
  let dbb := world.view process
  match (if dbb.cache.m_cache.isEmpty then dbb.cacheTransactions 0 else .ok dbb) with
  | .error fault => .error fault
  | .ok dbb =>
      match dbb.cache.m_cache.head? with
      | none => .error .outOfBounds
      | some tip_cache =>
          if number < tip_cache.tpc_base ∨ number = 0 then
            .ok (.onPage committed, world.setCache process dbb.cache)
          else
            match dbb.cache.stored number with
            | some state =>
                if state = committed ∨ state = dead then
                  .ok (.onPage state, world.setCache process dbb.cache)
                else if (world.lck_data number).isSome then
                  -- The lock cannot be got: the transaction must be active.
                  .ok (.onPage active, world.setCache process dbb.cache)
                else (world.setCache process dbb.cache).fetchState process number
            | none => world.extendCache process dbb number

end World
end Start

namespace Sweep

open TransactionState Start

/-- A data page: for each line the transactions that wrote the versions of the record, the primary
version first.  The chain of an unused line is empty. -/
structure DataPage where
  records : List (List Nat)
  dpg_swept : Bool
  deriving DecidableEq, Repr

/-- The fields of the sweep's transaction and how far the sweep has got. -/
structure Sweeper where
  process : Nat
  tra_number : Nat
  tra_oldest : Nat
  tra_top : Nat
  /-- As saved at the beginning. -/
  transaction_oldest_active : Nat
  /-- The data pages not left yet. -/
  ahead : List Nat
  line : Nat
  /-- The transactions whose versions the sweep has left in place because they were active. -/
  passed : List Nat
  deriving DecidableEq, Repr

/-- The database: at most one sweep runs at a time. -/
structure Store (tipBytes : Nat) where
  world : Start.World tipBytes
  pages : List DataPage
  sweeper : Option Sweeper

/-- The atomic actions. -/
inductive Action where
  | transaction (action : Start.Action)
  /-- A new data page. -/
  | extend
  /-- Store a record behind the last line. -/
  | insert (number index : Nat)
  /-- Store a record on an unused line, or put a new version on a record. -/
  | write (number index line : Nat)
  /-- A transaction removes what it has written. -/
  | undo (number index line : Nat)
  /-- `VIO_backout` of a dead version. -/
  | backout (index line : Nat)
  /-- `purge`: the back versions are not needed any more. -/
  | purge (index line : Nat)
  /-- `expunge` of a deleted record. -/
  | expunge (index line : Nat)
  /-- The sweep's transaction has started; `order` lists the data pages of all relations. -/
  | start (number : Nat) (order : List Nat)
  /-- The sweep looks at a line, or leaves a data page. -/
  | next
  /-- The oldest interesting transaction on the header page is advanced. -/
  | advance
  /-- The sweep ends with an error. -/
  | abandon
  deriving DecidableEq, Repr

/-- The system transaction is considered committed. -/
def lasting (inventory : Inventory) (number : Nat) : Bool :=
  number == 0 || decide (inventory.fetchState number = committed)

/-- The versions of a record. -/
def recordAt (pages : List DataPage) (index line : Nat) : Option (List Nat) :=
  (pages[index]?).bind fun page => page.records[line]?

/-- Change the versions of a record; new versions make the page unswept. -/
def setRecord (pages : List DataPage) (index line : Nat) (versions : List Nat)
    (writes : Bool) : List DataPage :=
  pages.modify index fun page =>
    { records := page.records.set line versions
      dpg_swept := page.dpg_swept && !writes }

/-- `DPM_next` does not return such a record to the sweeper. -/
def skips (tra_oldest : Nat) : List Nat → Bool
  | [] => true
  | [rpb_transaction_nr] => decide (rpb_transaction_nr ≤ tra_oldest)
  | _ => false

/-- `check_swept`. -/
def checkSwept (tra_oldest : Nat) (page : DataPage) : DataPage :=
  { page with dpg_swept := page.dpg_swept || page.records.all (skips tra_oldest) }

/-- `TRA_snapshot_state` for the sweep's transaction, which is read-committed; nothing for a version
of its own. -/
def Sweeper.snapshotState {tipBytes : Nat} (sweeper : Sweeper) (world : Start.World tipBytes)
    (number : Nat) : Except Fault (Option CachedState × Start.World tipBytes) :=
  if number != 0 &&
      precommited (world.processes sweeper.process).dbb_pc_transactions number then
    .ok (some .precommitted, world)
  else if number = sweeper.tra_number then .ok (none, world)
  else if number < sweeper.tra_oldest ∨ number = 0 then .ok (some (.onPage committed), world)
  else
    match world.snapshotState sweeper.process number with
    | .error fault => .error fault
    | .ok (state, world) => .ok (some state, world)

namespace Store

variable {tipBytes : Nat}

/-- A started transaction that has not ended. -/
def running (store : Store tipBytes) (number : Nat) : Bool :=
  match store.world.transactions number with
  | none => false
  | some transaction => decide (transaction.progress = .running)

/-- Go on with the sweep. -/
def proceed (store : Store tipBytes) (sweeper : Sweeper) : Store tipBytes :=
  { store with sweeper := some sweeper }

/-- `VIO_chase_record_version` for a version that `DPM_next` has returned. -/
def visit (store : Store tipBytes) (sweeper : Sweeper) (index head : Nat) (back : List Nat) :
    Option (Store tipBytes) :=
  match sweeper.snapshotState store.world head with
  | .error _ => none
  | .ok (state, world) =>
      match state with
      | some (.onPage dead) =>
          some { store with world, pages := setRecord store.pages index sweeper.line back false }
      | some (.onPage limbo) =>
          -- The sweep waits, and ends with an error if the transaction stays in limbo.
          none
      | some (.onPage active) =>
          some <| { store with world }.proceed
            { sweeper with line := sweeper.line + 1, passed := head :: sweeper.passed }
      | _ => some ({ store with world }.proceed { sweeper with line := sweeper.line + 1 })

/-- `DPM_next` for the sweeper. -/
def next (store : Store tipBytes) (sweeper : Sweeper) : Option (Store tipBytes) :=
  match sweeper.ahead with
  | [] => none
  | index :: rest =>
      let left : Sweeper := { sweeper with ahead := rest, line := 0 }
      match store.pages[index]? with
      | none => some (store.proceed left)
      | some page =>
          if sweeper.line = 0 ∧ page.dpg_swept then some (store.proceed left)
          else
            match page.records[sweeper.line]? with
            | none =>
                some <| { store with
                  pages := store.pages.modify index (checkSwept sweeper.tra_oldest) }.proceed left
            | some versions =>
                if skips sweeper.tra_oldest versions then
                  some (store.proceed { sweeper with line := sweeper.line + 1 })
                else
                  match versions with
                  | [] => none
                  | head :: back => store.visit sweeper index head back

/-- `writeOIT`. -/
def writeOIT (world : Start.World tipBytes) (oldest : Nat) : Option (Start.World tipBytes) :=
  if bound : oldest ≤ world.hdr_next_transaction then
    some { world with hdr_oldest_transaction := oldest, oldest_le_next := bound }
  else none

/-- The mask of `tra_limbo`. -/
def limboMask : UInt32 := (CachedState.onPage limbo).bit

/-- The end of `TRA_sweep`. -/
def advance (store : Store tipBytes) (sweeper : Sweeper) : Option (Store tipBytes) :=
  match (store.world.view sweeper.process).findStates sweeper.tra_oldest (sweeper.tra_top - 1)
      limboMask with
  | .error _ => none
  | .ok (outcome, dbb) =>
      let world := store.world.setCache sweeper.process dbb.cache
      let oldest_limbo := (outcome.map Prod.fst).getD 0
      let active := if oldest_limbo != 0 then oldest_limbo else sweeper.tra_top
      let transaction_oldest_active := sweeper.transaction_oldest_active - 1
      if world.hdr_oldest_transaction < transaction_oldest_active then
        (writeOIT world (min active transaction_oldest_active)).map fun world =>
          { store with world, sweeper := none }
      else some { store with world, sweeper := none }

/-- The beginning of `TRA_sweep`. -/
def start (store : Store tipBytes) (number : Nat) (transaction : Transaction)
    (order : List Nat) : Store tipBytes :=
  store.proceed
    { process := transaction.process
      tra_number := number
      tra_oldest := transaction.tra_oldest
      tra_top := number
      transaction_oldest_active := transaction.tra_oldest_active
      ahead := order
      line := 0
      passed := [] }

/-- One action; there is no result when the action is not enabled. -/
def step (store : Store tipBytes) : Action → Option (Store tipBytes)
  | .transaction action => (store.world.step action).map fun world => { store with world }
  | .extend => some { store with pages := store.pages ++ [{ records := [], dpg_swept := false }] }
  | .insert number index =>
      if store.running number then
        some { store with
          pages := store.pages.modify index fun page =>
            { records := page.records ++ [[number]], dpg_swept := false } }
      else none
  | .write number index line =>
      match recordAt store.pages index line with
      | none => none
      | some [] =>
          if store.running number then
            some { store with pages := setRecord store.pages index line [number] true }
          else none
      | some (head :: back) =>
          if store.running number ∧ head = number then
            some { store with pages := setRecord store.pages index line (number :: back) true }
          else if store.running number ∧ lasting store.world.inventory head then
            some
              { store with pages := setRecord store.pages index line (number :: head :: back) true }
          else none
  | .undo number index line =>
      match recordAt store.pages index line with
      | some (head :: back) =>
          if store.running number ∧ head = number then
            some { store with pages := setRecord store.pages index line back false }
          else none
      | _ => none
  | .backout index line =>
      match recordAt store.pages index line with
      | some (head :: back) =>
          if store.world.inventory.fetchState head = dead then
            some { store with pages := setRecord store.pages index line back false }
          else none
      | _ => none
  | .purge index line =>
      match recordAt store.pages index line with
      | some (head :: _) =>
          if lasting store.world.inventory head then
            some { store with pages := setRecord store.pages index line [head] false }
          else none
      | _ => none
  | .expunge index line =>
      match recordAt store.pages index line with
      | some (head :: _) =>
          if lasting store.world.inventory head then
            some { store with pages := setRecord store.pages index line [] false }
          else none
      | _ => none
  | .start number order =>
      match store.world.transactions number with
      | none => none
      | some transaction =>
          if store.sweeper.isNone ∧ transaction.readCommitted ∧ transaction.progress = .running ∧
              ∀ index < store.pages.length, index ∈ order then
            some (store.start number transaction order)
          else none
  | .next =>
      match store.sweeper with
      | none => none
      | some sweeper => store.next sweeper
  | .advance =>
      match store.sweeper with
      | none => none
      | some sweeper => if sweeper.ahead = [] then store.advance sweeper else none
  | .abandon => some { store with sweeper := none }

/-- One action after the other. -/
def run (store : Store tipBytes) : List Action → Option (Store tipBytes)
  | [] => some store
  | action :: rest => (store.step action).bind (·.run rest)

end Store
end Sweep
end Firebird
