import Mathlib.Data.List.Basic
import Mathlib.Logic.Function.Basic

/-!
# The lock table

The model of `LockManager` from `lock/lock.cpp`: lock blocks, lock requests and owners in shared
memory, the queues between them, and the routines that grant, convert, release and reject requests.
Blocks are named by numbers in place of their offsets in shared memory, and a queue is the list of
its members.  A routine that goes to sleep is cut at that point; what the sleeper does after it is
woken up is a routine of its own.
-/

namespace Firebird
namespace LockManager

/-- The levels of a lock, `LCK_none` to `LCK_EX`. -/
inductive Level where
  | none
  | null
  | SR
  | PR
  | SW
  | PW
  | EX
  deriving DecidableEq, Repr

namespace Level

/-- The value of the constant. -/
def code : Level → Nat
  | none => 0
  | null => 1
  | SR => 2
  | PR => 3
  | SW => 4
  | PW => 5
  | EX => 6

/-- `MAX(a, b)`. -/
def max (a b : Level) : Level := if b.code < a.code then a else b

/-- The next lower level. -/
def pred : Level → Level
  | none => none
  | null => none
  | SR => null
  | PR => SR
  | SW => PR
  | PW => SW
  | EX => PW

end Level

/-- A row of the table `compatibility`. -/
def compatibilityRow : Level → List Bool
  | .none => [true, true, true, true, true, true, true]
  | .null => [true, true, true, true, true, true, true]
  | .SR => [true, true, true, true, true, true, false]
  | .PR => [true, true, true, true, false, false, false]
  | .SW => [true, true, true, false, true, false, false]
  | .PW => [true, true, true, false, false, false, false]
  | .EX => [true, true, false, false, false, false, false]

/-- `compatibility[requested][granted]`. -/
def compatibility (requested granted : Level) : Bool :=
  (compatibilityRow requested).getD granted.code false

/-- A lock request block. -/
structure Request where
  /-- `lrq_type == type_lrq`. -/
  in_use : Bool
  lrq_requested : Level
  lrq_state : Level
  /-- `LRQ_blocking`: on the queue of blocking requests of its owner. -/
  blocking : Bool
  /-- `LRQ_pending`. -/
  pending : Bool
  /-- `LRQ_rejected`. -/
  rejected : Bool
  /-- `LRQ_deadlock`: seen by the deadlock walk. -/
  deadlock : Bool
  /-- `LRQ_repost`: used for a repost, not for a lock. -/
  repost : Bool
  /-- `LRQ_scanned`: already scanned for deadlock. -/
  scanned : Bool
  /-- `LRQ_blocking_seen`. -/
  blocking_seen : Bool
  /-- `LRQ_just_granted`. -/
  just_granted : Bool
  /-- `LRQ_wait_timeout`. -/
  wait_timeout : Bool
  lrq_owner : Nat
  lrq_lock : Nat
  lrq_data : Int
  /-- Whether `lrq_ast_routine` is set. -/
  lrq_ast_routine : Bool
  deriving DecidableEq

/-- A lock block. -/
structure Lock where
  lbl_state : Level
  /-- Requests, granted and pending, in the order of the queue. -/
  lbl_requests : List Nat
  lbl_series : Nat
  lbl_key : List UInt8
  lbl_data : Int
  lbl_pending_lrq_count : UInt16
  lbl_counts : Level → UInt16

/-- An owner block. -/
structure Owner where
  own_count : Nat
  own_requests : List Nat
  own_blocks : List Nat
  own_pending : List Nat
  own_waits : Nat
  /-- `OWN_scanned`. -/
  scanned : Bool
  /-- `OWN_wakeup`. -/
  wakeup : Bool
  /-- `OWN_signaled`. -/
  signaled : Bool
  deriving DecidableEq

/-- The lock table. -/
structure Table where
  /-- `lhb_owners`, the queue of active owners. -/
  lhb_owners : List Nat
  /-- The locks in the hash table, all slots together. -/
  lhb_hash : List Nat
  /-- `lhb_data`: the locks of a series that carry data, sorted by it. -/
  lhb_data : Nat → List Nat
  owners : Nat → Owner
  locks : Nat → Lock
  requests : Nat → Request

/-- `LCK_MAX_SERIES`: series from it on have no data queue. -/
def maxSeries : Nat := 7

namespace Table

variable (table : Table)

/-- Assign to the fields of an owner block. -/
def setOwner (owner : Nat) (assign : Owner → Owner) : Table :=
  { table with owners := Function.update table.owners owner (assign (table.owners owner)) }

/-- Assign to the fields of a lock block. -/
def setLock (lock : Nat) (assign : Lock → Lock) : Table :=
  { table with locks := Function.update table.locks lock (assign (table.locks lock)) }

/-- Assign to the fields of a request block. -/
def setRequest (request : Nat) (assign : Request → Request) : Table :=
  { table with
    requests := Function.update table.requests request (assign (table.requests request)) }

variable {table} {index : Nat} {toOwner : Owner → Owner} {toLock : Lock → Lock}
  {toRequest : Request → Request}

@[simp] theorem owners_setOwner (other : Nat) : (table.setOwner index toOwner).owners other =
    if other = index then toOwner (table.owners index) else table.owners other :=
  Function.update_apply _ _ _ _

@[simp] theorem locks_setOwner : (table.setOwner index toOwner).locks = table.locks := rfl

@[simp] theorem requests_setOwner : (table.setOwner index toOwner).requests = table.requests := rfl

@[simp] theorem lhb_owners_setOwner : (table.setOwner index toOwner).lhb_owners = table.lhb_owners :=
  rfl

@[simp] theorem lhb_hash_setOwner : (table.setOwner index toOwner).lhb_hash = table.lhb_hash := rfl

@[simp] theorem owners_setLock : (table.setLock index toLock).owners = table.owners := rfl

@[simp] theorem locks_setLock (other : Nat) : (table.setLock index toLock).locks other =
    if other = index then toLock (table.locks index) else table.locks other :=
  Function.update_apply _ _ _ _

@[simp] theorem requests_setLock : (table.setLock index toLock).requests = table.requests := rfl

@[simp] theorem lhb_owners_setLock : (table.setLock index toLock).lhb_owners = table.lhb_owners :=
  rfl

@[simp] theorem lhb_hash_setLock : (table.setLock index toLock).lhb_hash = table.lhb_hash := rfl

@[simp] theorem owners_setRequest : (table.setRequest index toRequest).owners = table.owners := rfl

@[simp] theorem locks_setRequest : (table.setRequest index toRequest).locks = table.locks := rfl

@[simp] theorem requests_setRequest (other : Nat) :
    (table.setRequest index toRequest).requests other =
      if other = index then toRequest (table.requests index) else table.requests other :=
  Function.update_apply _ _ _ _

@[simp] theorem lhb_owners_setRequest :
    (table.setRequest index toRequest).lhb_owners = table.lhb_owners :=
  rfl

@[simp] theorem lhb_hash_setRequest : (table.setRequest index toRequest).lhb_hash = table.lhb_hash :=
  rfl

end Table

/-! ## Small routines -/

/-- `lock_state`: the strongest level with a granted request. -/
def lockState (lbl_counts : Level → UInt16) : Level :=
  if lbl_counts .EX ≠ 0 then .EX
  else if lbl_counts .PW ≠ 0 then .PW
  else if lbl_counts .SW ≠ 0 then .SW
  else if lbl_counts .PR ≠ 0 then .PR
  else if lbl_counts .SR ≠ 0 then .SR
  else if lbl_counts .null ≠ 0 then .null
  else .none

/-- `++lbl_counts[level]`. -/
def increment (lbl_counts : Level → UInt16) (level : Level) : Level → UInt16 :=
  Function.update lbl_counts level (lbl_counts level + 1)

/-- `--lbl_counts[level]`. -/
def decrement (lbl_counts : Level → UInt16) (level : Level) : Level → UInt16 :=
  Function.update lbl_counts level (lbl_counts level - 1)

namespace Table

variable (table : Table)

/-- `insert_data_que`: the place of a lock in the sorted queue of its series. -/
def insertSorted (lock : Nat) : List Nat → List Nat
  | [] => [lock]
  | lock2 :: queue =>
      if (table.locks lock).lbl_data ≤ (table.locks lock2).lbl_data then
        lock :: lock2 :: queue
      else
        lock2 :: insertSorted lock queue

/-- `insert_data_que`. -/
def insertDataQue (lock : Nat) : Table :=
  let series := (table.locks lock).lbl_series
  if series < maxSeries ∧ (table.locks lock).lbl_data ≠ 0 then
    { table with
      lhb_data := Function.update table.lhb_data series
        (table.insertSorted lock (table.lhb_data series)) }
  else
    table

/-- `remove_que(&lock->lbl_lhb_data)`. -/
def removeDataQue (lock : Nat) : Table :=
  let series := (table.locks lock).lbl_series
  { table with
    lhb_data := Function.update table.lhb_data series ((table.lhb_data series).erase lock) }

/-- Replace the data of a lock and its place in the queue. -/
def replaceData (lock : Nat) (data : Int) : Table :=
  let removed := (table.removeDataQue lock).setLock lock fun block =>
    { block with lbl_data := data }
  if data ≠ 0 then removed.insertDataQue lock else removed

/-- `post_wakeup`. -/
def postWakeup (owner : Nat) : Table :=
  if (table.owners owner).own_waits ≠ 0 then
    table.setOwner owner fun block => { block with wakeup := true }
  else
    table

/-- A pending request leaves the queue of its owner and stops being pending. -/
def clearPending (request : Nat) : Table :=
  let owner := (table.requests request).lrq_owner
  let lock := (table.requests request).lrq_lock
  let table := table.setOwner owner fun block =>
    { block with own_pending := block.own_pending.erase request }
  let table := table.setRequest request fun block => { block with pending := false }
  table.setLock lock fun block =>
    { block with lbl_pending_lrq_count := block.lbl_pending_lrq_count - 1 }

/-- `--lock->lbl_counts[request->lrq_state]`: the lock without the request. -/
def withdraw (lock request : Nat) : Table :=
  let state := (table.requests request).lrq_state
  table.setLock lock fun block => { block with lbl_counts := decrement block.lbl_counts state }

/-- The data of a request becomes that of its lock. -/
def grantData (request : Nat) : Table :=
  let data := (table.requests request).lrq_data
  if data ≠ 0 then
    (table.replaceData (table.requests request).lrq_lock data).setRequest request fun block =>
      { block with lrq_data := 0 }
  else
    table

/-- `grant`: a conversion has been taken out of the counts of the lock before. -/
def grant (request : Nat) : Table :=
  let owner := (table.requests request).lrq_owner
  let lock := (table.requests request).lrq_lock
  let requested := (table.requests request).lrq_requested
  let table := table.setLock lock fun block =>
    { block with lbl_counts := increment block.lbl_counts requested }
  let table := table.setRequest request fun block => { block with lrq_state := requested }
  let table := table.grantData request
  let table := table.setLock lock fun block =>
    { block with lbl_state := lockState block.lbl_counts }
  let table := if (table.requests request).pending then table.clearPending request else table
  table.postWakeup owner

/-! ## Granting what is pending -/

/-- The first loop of `post_pending`: grant pending requests in the order of the queue up to one
that cannot be granted yet. -/
def grantPending (lock : Nat) : List Nat → Table → Table
  | [], table => table
  | request :: queue, table =>
      let block := table.requests request
      if !block.pending then
        grantPending lock queue table
      else if block.lrq_state ≠ .none then
        let without := table.withdraw lock request
        if compatibility block.lrq_requested (lockState (without.locks lock).lbl_counts) then
          grantPending lock queue (without.grant request)
        else
          table.postWakeup block.lrq_owner
      else if compatibility block.lrq_requested (table.locks lock).lbl_state then
        grantPending lock queue (table.grant request)
      else
        table.postWakeup block.lrq_owner

/-- The second loop of `post_pending`: blocked owners have not yet told the requests in front of
the first pending one. -/
def markGranted : List Nat → Table → Table
  | [], table => table
  | request :: queue, table =>
      let block := table.requests request
      if block.pending then
        table
      else if !(block.blocking || block.blocking_seen) && block.lrq_ast_routine then
        markGranted queue (table.setRequest request fun block => { block with just_granted := true })
      else
        markGranted queue table

/-- `post_pending`. -/
def postPending (lock : Nat) : Table :=
  if (table.locks lock).lbl_pending_lrq_count = 0 then
    table
  else
    let table := grantPending lock (table.locks lock).lbl_requests table
    if (table.locks lock).lbl_pending_lrq_count ≠ 0 then
      markGranted (table.locks lock).lbl_requests table
    else
      table

/-! ## Waiting -/

/-- The loop of `post_blockage`: mark the requests that block `request` and collect their
owners. -/
def markBlocking (request : Nat) : List Nat → Table → Table × List Nat
  | [], table => (table, [])
  | block :: queue, table =>
      let waiting := table.requests request
      let candidate := table.requests block
      if block = request ∨ candidate.lrq_owner = waiting.lrq_owner ∨
          compatibility waiting.lrq_requested candidate.lrq_state ∨
          candidate.lrq_ast_routine = false ∨ candidate.blocking_seen then
        markBlocking request queue table
      else
        let marked :=
          if candidate.blocking then
            table
          else
            (table.setOwner candidate.lrq_owner fun owner =>
              { owner with own_blocks := owner.own_blocks ++ [block] }).setRequest block fun block =>
                { block with blocking := true, blocking_seen := false, just_granted := false }
        if candidate.lrq_state = .EX then
          (marked, [candidate.lrq_owner])
        else
          let (table, blocking_owners) := markBlocking request queue marked
          (table, candidate.lrq_owner :: blocking_owners)

/-- `signal_owner` for every blocking owner that has not been signalled yet; the blocking action
itself is a step of that owner. -/
def signalOwners : List Nat → Table → Table
  | [], table => table
  | owner :: owners, table =>
      if (table.owners owner).own_count ≠ 0 ∧ (table.owners owner).signaled = false then
        signalOwners owners (table.setOwner owner fun block => { block with signaled := true })
      else
        signalOwners owners table

/-- `post_blockage`. -/
def postBlockage (request : Nat) : Table :=
  let lock := (table.requests request).lrq_lock
  let (table, blocking_owners) := markBlocking request (table.locks lock).lbl_requests table
  signalOwners blocking_owners table

/-- `wait_for_request` up to the point where its thread goes to sleep; `timeout` tells whether the
wait is limited. -/
def waitForRequest (request : Nat) (timeout : Bool) : Table :=
  let owner := (table.requests request).lrq_owner
  let lock := (table.requests request).lrq_lock
  let table := table.setOwner owner fun block =>
    { block with
      scanned := false
      wakeup := false
      own_waits := block.own_waits + 1
      own_pending := block.own_pending ++ [request] }
  let table := table.setRequest request fun block =>
    { block with rejected := false, pending := true }
  let table := table.setLock lock fun block =>
    { block with lbl_pending_lrq_count := block.lbl_pending_lrq_count + 1 }
  -- A request without a state must not take cuts in the lineup.
  let table :=
    if (table.requests request).lrq_state = .none then
      table.setLock lock fun block =>
        { block with lbl_requests := block.lbl_requests.erase request ++ [request] }
    else
      table
  let table :=
    if timeout then
      table.setRequest request fun block => { block with wait_timeout := true }
    else
      table
  table.postBlockage request

/-- The rejection of a pending request, by its own thread after a timeout or by a deadlock scan. -/
def reject (request : Nat) : Table :=
  (table.setRequest request fun block => { block with rejected := true }).clearPending request

/-- The end of `wait_for_request`. -/
def endWait (request : Nat) : Table :=
  let owner := (table.requests request).lrq_owner
  let table := table.setRequest request fun block => { block with wait_timeout := false }
  table.setOwner owner fun block => { block with own_waits := block.own_waits - 1 }

/-! ## Releasing -/

/-- The first part of `release_request`: the request leaves all queues. -/
def detach (request : Nat) : Table :=
  let owner := (table.requests request).lrq_owner
  let lock := (table.requests request).lrq_lock
  let table := table.setLock lock fun block =>
    { block with lbl_requests := block.lbl_requests.erase request }
  let table := table.setOwner owner fun block =>
    { block with own_requests := block.own_requests.erase request }
  let table := table.setRequest request fun block => { block with in_use := false }
  let table :=
    if (table.requests request).blocking then
      (table.setOwner owner fun block =>
        { block with own_blocks := block.own_blocks.erase request }).setRequest request fun block =>
          { block with blocking := false }
    else
      table
  let table := if (table.requests request).pending then table.clearPending request else table
  table.setRequest request fun block =>
    { block with blocking_seen := false, just_granted := false }

/-- The count of a released request goes down, and the state of its lock with the last one. -/
def discount (lock request : Nat) : Table :=
  let state := (table.requests request).lrq_state
  if state ≠ .none then
    let table := table.withdraw lock request
    if (table.locks lock).lbl_counts state = 0 then
      table.setLock lock fun block => { block with lbl_state := lockState block.lbl_counts }
    else
      table
  else
    table

/-- `release_request`. -/
def releaseRequest (request : Nat) : Table :=
  let lock := (table.requests request).lrq_lock
  let table := table.detach request
  if (table.locks lock).lbl_requests = [] then
    let table := table.removeDataQue lock
    { table with lhb_hash := table.lhb_hash.erase lock }
  else
    (table.discount lock request).postPending lock

/-- `internal_dequeue`. -/
def internalDequeue (request : Nat) : Table :=
  (table.setRequest request fun block => { block with lrq_ast_routine := false }).releaseRequest
    request

/-- `purge_owner`: release the requests of an owner, then what is left on its blocking queue, then
the owner. -/
def purgeOwner (owner : Nat) : Table :=
  let table := (table.owners owner).own_requests.foldl releaseRequest table
  let table := (table.owners owner).own_blocks.foldl
    (fun table request =>
      (table.setOwner owner fun block =>
        { block with own_blocks := block.own_blocks.erase request }).setRequest request fun block =>
          { block with in_use := false })
    table
  { table with lhb_owners := table.lhb_owners.erase owner }

end Table

/-! ## Entry points -/

/-- The sign of `lck_wait`. -/
inductive Wait where
  /-- `LCK_NO_WAIT`. -/
  | noWait
  /-- Wait without limit. -/
  | wait
  /-- Wait for some seconds. -/
  | timeout
  deriving DecidableEq, Repr

/-- How a routine leaves the lock table: with an answer, or asleep. -/
inductive Outcome where
  | granted
  | denied
  | waiting
  deriving DecidableEq, Repr

namespace Table

variable (table : Table)

/-- `grant_or_que`. -/
def grantOrQue (request lock : Nat) (lck_wait : Wait) : Table × Outcome :=
  let table := table.setRequest request fun block => { block with lrq_lock := lock }
  let requested := (table.requests request).lrq_requested
  if compatibility requested (table.locks lock).lbl_state ∧
      (requested = .null ∨ (table.locks lock).lbl_pending_lrq_count = 0) then
    ((table.grant request).postPending lock, .granted)
  else if lck_wait ≠ .noWait then
    (table.waitForRequest request (lck_wait = .timeout), .waiting)
  else
    (table.releaseRequest request, .denied)

/-- `find_lock`. -/
def findLock (series : Nat) (value : List UInt8) : Option Nat :=
  table.lhb_hash.find? fun lock =>
    (table.locks lock).lbl_series = series ∧ (table.locks lock).lbl_key = value

/-- The request block that `enqueue` sets up. -/
def newRequest (type : Level) (ast_routine : Bool) (owner : Nat) : Request where
  in_use := true
  lrq_requested := type
  lrq_state := .none
  blocking := false
  pending := false
  rejected := false
  deadlock := false
  repost := false
  scanned := false
  blocking_seen := false
  just_granted := false
  wait_timeout := false
  lrq_owner := owner
  lrq_lock := 0
  lrq_data := 0
  lrq_ast_routine := ast_routine

/-- The lock block that `enqueue` sets up. -/
def newLock (series : Nat) (value : List UInt8) (type : Level) (data : Int) : Lock where
  lbl_state := type
  lbl_requests := []
  lbl_series := series
  lbl_key := value
  lbl_data := data
  lbl_pending_lrq_count := 0
  lbl_counts := fun _ => 0

/-- The first part of `enqueue`: the prior request is given back and the block `request`, which
comes from the free queue or the allocator, is set up. -/
def allocRequest (prior_request : Option Nat) (request : Nat) (type : Level) (ast_routine : Bool)
    (owner : Nat) : Table :=
  let table :=
    match prior_request with
    | none => table
    | some prior => table.internalDequeue prior
  let table := table.setRequest request fun _ => newRequest type ast_routine owner
  table.setOwner owner fun block =>
    { block with own_requests := block.own_requests ++ [request] }

/-- `enqueue` on a lock that exists. -/
def enqueueLock (request lock : Nat) (data : Int) (lck_wait : Wait) : Table × Outcome :=
  let table := table.setLock lock fun block =>
    { block with lbl_requests := block.lbl_requests ++ [request] }
  let table := table.setRequest request fun block => { block with lrq_data := data }
  table.grantOrQue request lock lck_wait

/-- `enqueue` on a lock that does not exist yet; `lock` is the block that was allocated for it. -/
def createLock (request lock series : Nat) (value : List UInt8) (type : Level) (data : Int) :
    Table :=
  let table := table.setLock lock fun _ => newLock series value type data
  let table := if data ≠ 0 then table.insertDataQue lock else table
  let table := { table with lhb_hash := table.lhb_hash ++ [lock] }
  let table := table.setLock lock fun block =>
    { block with lbl_requests := block.lbl_requests ++ [request] }
  let table := table.setRequest request fun block => { block with lrq_lock := lock }
  table.grant request

/-- The exit of `enqueue` when no lock block can be allocated. -/
def dropRequest (request : Nat) : Table :=
  let owner := (table.requests request).lrq_owner
  let table := table.setOwner owner fun block =>
    { block with own_requests := block.own_requests.erase request }
  table.setRequest request fun block => { block with in_use := false }

/-- What `enqueue` does after its thread is woken up. -/
def enqueueWoken (request : Nat) : Table × Outcome :=
  let table := table.endWait request
  if (table.requests request).rejected then
    (table.releaseRequest request, .denied)
  else
    (table, .granted)

/-- `internal_convert` up to its answer, or to the point where its thread goes to sleep. -/
def internalConvert (request : Nat) (type : Level) (lck_wait : Wait) (ast_routine : Bool) :
    Table × Outcome :=
  let lock := (table.requests request).lrq_lock
  let table := table.setRequest request fun block =>
    { block with lrq_requested := type, blocking_seen := false }
  let without := table.withdraw lock request
  if compatibility type (lockState (without.locks lock).lbl_counts) then
    let table := without.setRequest request fun block =>
      { block with lrq_ast_routine := ast_routine }
    ((table.grant request).postPending lock, .granted)
  else if lck_wait ≠ .noWait then
    (table.waitForRequest request (lck_wait = .timeout), .waiting)
  else
    (table.setRequest request fun block => { block with lrq_requested := block.lrq_state }, .denied)

/-- What `internal_convert` does after its thread is woken up. -/
def convertWoken (request : Nat) (ast_routine : Bool) : Table × Outcome :=
  let table := table.endWait request
  if (table.requests request).rejected then
    let table := table.postPending (table.requests request).lrq_lock
    (table.setRequest request fun block => { block with lrq_requested := block.lrq_state }, .denied)
  else
    (table.setRequest request fun block => { block with lrq_ast_routine := ast_routine }, .granted)

/-- The highest level requested by the other pending requests of a lock. -/
def pendingState (request : Nat) : List Nat → Level → Level
  | [], pending_state => pending_state
  | pending :: queue, pending_state =>
      if (table.requests pending).pending ∧ pending ≠ request then
        let pending_state := ((table.requests pending).lrq_requested).max pending_state
        if pending_state = .EX then .EX else pendingState request queue pending_state
      else
        pendingState request queue pending_state

/-- The loop of `downgrade` that lowers a level until it is compatible with `pending_state`. -/
def lowerLevel (pending_state : Level) : Nat → Level → Level
  | 0, state => state
  | steps + 1, state =>
      if state ≠ .none ∧ !compatibility pending_state state then
        lowerLevel pending_state steps state.pred
      else
        state

/-- `downgrade`. -/
def downgrade (request : Nat) : Table :=
  let lock := (table.requests request).lrq_lock
  let pending_state := table.pendingState request (table.locks lock).lbl_requests .none
  let state := lowerLevel pending_state 6 (table.requests request).lrq_state
  if state = .none ∨ state = .null then
    table.internalDequeue request
  else
    (table.internalConvert request state .noWait (table.requests request).lrq_ast_routine).1

/-- `writeData`. -/
def writeData (request : Nat) (data : Int) : Table :=
  table.replaceData (table.requests request).lrq_lock data

/-- `LockManager::queryData(series, LCK_MIN)`. -/
def queryMinData (series : Nat) : Int :=
  match table.lhb_data series with
  | [] => 0
  | lock :: _ => (table.locks lock).lbl_data

/-- `create_owner` with a fresh or freed block. -/
def createOwner (owner : Nat) : Table :=
  let table := table.setOwner owner fun _ => {
    own_count := 1
    own_requests := []
    own_blocks := []
    own_pending := []
    own_waits := 0
    scanned := false
    wakeup := false
    signaled := false }
  { table with lhb_owners := table.lhb_owners ++ [owner] }

/-- `repost`: a request block without a lock on the blocking queue of an owner. -/
def repost (request owner : Nat) : Table :=
  let table := table.setRequest request fun _ =>
    { newRequest .none true owner with repost := true }
  let table := table.setOwner owner fun block =>
    { block with own_blocks := block.own_blocks ++ [request] }
  signalOwners [owner] table

/-- One turn of the loop of `blocking_action`; the routine it calls is made of steps of their own. -/
def blockingAction (owner : Nat) : Table :=
  match (table.owners owner).own_blocks with
  | [] => table.setOwner owner fun block => { block with signaled := false }
  | request :: queue =>
      let table := table.setOwner owner fun block => { block with own_blocks := queue }
      if (table.requests request).blocking then
        table.setRequest request fun block =>
          { block with blocking := false, blocking_seen := true }
      else if (table.requests request).repost then
        table.setRequest request fun block => { block with in_use := false }
      else
        table

end Table

end LockManager
end Firebird
