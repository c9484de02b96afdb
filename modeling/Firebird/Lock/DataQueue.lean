import Firebird.Lock.Frame
import Firebird.Lock.Run
import Mathlib.Algebra.BigOperators.Group.List.Basic
import Mathlib.Algebra.Order.Ring.Int
import Mathlib.Data.List.Sort

/-!
# The data queues of the lock table

The locks of a series that carry data are queued in the order of the data.  A lock enters its queue
when it is created with data, moves when a request with data is granted or `writeData` is called, and
leaves when it is released; `queryData` reads its aggregates off the queue.
-/

namespace Firebird
namespace LockManager

/-! ## Aggregates -/

/-- The aggregates `LCK_MIN` to `LCK_ANY`. -/
inductive Aggregate where
  | min
  | max
  | cnt
  | sum
  | avg
  | any
  deriving DecidableEq, Repr

/-- A sum in a `SINT64`. -/
def addSint64 (first second : Int) : Int := (first + second).bmod (2 ^ 64)

namespace Table

variable (table : Table)

/-- `CHECK(lock->lbl_series == series)`, then the data of the lock. -/
def checkedData (series lock : Nat) : Option Int :=
  if (table.locks lock).lbl_series = series then some (table.locks lock).lbl_data else none

/-- The loop of `queryData` over the queue; the average needs both the sum and the number. -/
def accumulate (series : Nat) (aggregate : Aggregate) :
    List Nat → Int → Int → Option (Int × Int)
  | [], data, count => some (data, count)
  | lock :: queue, data, count => do
      let lbl_data ← table.checkedData series lock
      accumulate series aggregate queue
        (if aggregate = .cnt then data else addSint64 data lbl_data)
        (if aggregate = .sum then count else count + 1)

/-- `queryData`; `none` where a consistency check fails. -/
def queryData (series : Nat) (aggregate : Aggregate) : Option Int :=
  if maxSeries ≤ series then
    none
  else
    match aggregate with
    | .cnt => do
        let (_, count) ← table.accumulate series .cnt (table.lhb_data series) 0 0
        some count
    | .avg => do
        let (data, count) ← table.accumulate series .avg (table.lhb_data series) 0 0
        some (if count ≠ 0 then data.tdiv count else 0)
    | .sum => do
        let (data, _) ← table.accumulate series .sum (table.lhb_data series) 0 0
        some data
    | .any => some (if table.lhb_data series = [] then 0 else 1)
    | .min =>
        match (table.lhb_data series).head? with
        | none => some 0
        | some lock => table.checkedData series lock
    | .max =>
        match (table.lhb_data series).getLast? with
        | none => some 0
        | some lock => table.checkedData series lock

/-- The locks of a series that carry data. -/
def carriers (series : Nat) : List Nat :=
  table.lhb_hash.filter fun lock =>
    (table.locks lock).lbl_series = series ∧ (table.locks lock).lbl_data ≠ 0

/-- The data that the locks of a series carry. -/
def carried (series : Nat) : List Int :=
  (table.carriers series).map fun lock => (table.locks lock).lbl_data

/-! ## The part of the table that the queues are about -/

/-- The fields of the table that the data queues depend on. -/
structure DataView where
  lhb_hash : List Nat
  lhb_data : Nat → List Nat
  lbl_series : Nat → Nat
  lbl_data : Nat → Int

/-- The fields of the table in `DataView`. -/
def dataView : DataView :=
  { lhb_hash := table.lhb_hash
    lhb_data := table.lhb_data
    lbl_series := fun lock => (table.locks lock).lbl_series
    lbl_data := fun lock => (table.locks lock).lbl_data }

theorem dataView_ignores : Ignores dataView :=
  ⟨fun _ _ _ => rfl, fun _ _ => rfl, fun _ _ _ _ => rfl⟩

variable {table}

theorem dataView_setRequest (request : Nat) (assign : Request → Request) :
    (table.setRequest request assign).dataView = table.dataView :=
  rfl

theorem dataView_setLock (lock : Nat) (assign : Lock → Lock)
    (series : (assign (table.locks lock)).lbl_series = (table.locks lock).lbl_series)
    (data : (assign (table.locks lock)).lbl_data = (table.locks lock).lbl_data) :
    (table.setLock lock assign).dataView = table.dataView := by
  simp only [dataView, setLock, comp_update Lock.lbl_series table.locks lock _ series,
    comp_update Lock.lbl_data table.locks lock _ data]

theorem dataView_clearPending (request : Nat) :
    (table.clearPending request).dataView = table.dataView :=
  dataView_setLock _ _ rfl rfl

theorem dataView_withdraw (lock request : Nat) :
    (table.withdraw lock request).dataView = table.dataView :=
  dataView_setLock _ _ rfl rfl

end Table

/-- Every data queue holds the live locks of its series with data other than zero, once each and in
nondecreasing order. -/
structure DataQueued (table : Table) : Prop where
  sorted : ∀ series, (table.lhb_data series).Pairwise fun first second =>
    (table.locks first).lbl_data ≤ (table.locks second).lbl_data
  nodup : ∀ series, (table.lhb_data series).Nodup
  mem : ∀ series lock, lock ∈ table.lhb_data series ↔
    lock ∈ table.lhb_hash ∧ series < maxSeries ∧ (table.locks lock).lbl_series = series ∧
      (table.locks lock).lbl_data ≠ 0

/-- The data queues while one lock is out of them. -/
structure Unlisted (table : Table) (lock : Nat) : Prop where
  sorted : ∀ series, (table.lhb_data series).Pairwise fun first second =>
    (table.locks first).lbl_data ≤ (table.locks second).lbl_data
  nodup : ∀ series, (table.lhb_data series).Nodup
  mem : ∀ series other, other ∈ table.lhb_data series ↔ other ≠ lock ∧
    other ∈ table.lhb_hash ∧ series < maxSeries ∧ (table.locks other).lbl_series = series ∧
      (table.locks other).lbl_data ≠ 0

theorem DataQueued.of_view {before after : Table} (queued : DataQueued before)
    (same : after.dataView = before.dataView) : DataQueued after := by
  have hash : after.lhb_hash = before.lhb_hash := congrArg Table.DataView.lhb_hash same
  have queues : after.lhb_data = before.lhb_data := congrArg Table.DataView.lhb_data same
  have series := congrFun (congrArg Table.DataView.lbl_series same)
  have data := congrFun (congrArg Table.DataView.lbl_data same)
  simp only [Table.dataView] at series data
  constructor
  case sorted => simpa only [queues, data] using queued.sorted
  case nodup => simpa only [queues] using queued.nodup
  case mem => simpa only [queues, hash, series, data] using queued.mem

/-! ## Moving one lock -/

namespace Table

variable {table : Table}

theorem insertSorted_eq (table : Table) (lock : Nat) (queue : List Nat) :
    table.insertSorted lock queue = queue.orderedInsert
      (fun first second => (table.locks first).lbl_data ≤ (table.locks second).lbl_data) lock := by
  induction queue with
  | nil => rfl
  | cons other queue ih => rw [insertSorted, ih, List.orderedInsert]

end Table

namespace Unlisted

variable {table : Table} {lock : Nat} (unlisted : Unlisted table lock)
include unlisted

/-- Whatever becomes of the block of the lock. -/
theorem setLock (assign : Lock → Lock) : Unlisted (table.setLock lock assign) lock := by
  have others : ∀ other, other ≠ lock → (table.setLock lock assign).locks other =
      table.locks other := fun other differ => by
    rw [Table.locks_setLock, if_neg differ]
  constructor
  case sorted =>
      intro series
      refine (unlisted.sorted series).imp_of_mem ?_
      intro first second first_member second_member le
      rw [others first ((unlisted.mem series first).mp first_member).1,
        others second ((unlisted.mem series second).mp second_member).1]
      exact le
  case nodup => exact unlisted.nodup
  case mem =>
      intro series other
      refine (unlisted.mem series other).trans (and_congr_right fun differ => ?_)
      rw [others other differ]
      rfl

theorem insertDataQue {hash : List Nat}
    (known : ∀ other, other ∈ hash ↔ other = lock ∨ other ∈ table.lhb_hash) :
    DataQueued { table.insertDataQue lock with lhb_hash := hash } := by
  have absent : ∀ series, lock ∉ table.lhb_data series := fun series member =>
    ((unlisted.mem series lock).mp member).1 rfl
  rw [Table.insertDataQue]
  dsimp only
  split
  · next fits =>
      obtain ⟨small, nonzero⟩ := fits
      have perm := List.perm_orderedInsert
        (fun first second => (table.locks first).lbl_data ≤ (table.locks second).lbl_data) lock
        (table.lhb_data (table.locks lock).lbl_series)
      rw [← Table.insertSorted_eq] at perm
      constructor
      case sorted =>
          intro series
          dsimp only
          rw [Function.update_apply]
          split
          · next same =>
              have total : Std.Total fun first second : Nat =>
                  (table.locks first).lbl_data ≤ (table.locks second).lbl_data :=
                ⟨fun first second => le_total _ _⟩
              have transitive : IsTrans Nat fun first second : Nat =>
                  (table.locks first).lbl_data ≤ (table.locks second).lbl_data :=
                ⟨fun _ _ _ => le_trans⟩
              rw [Table.insertSorted_eq]
              exact (unlisted.sorted _).orderedInsert _ _
          · exact unlisted.sorted series
      case nodup =>
          intro series
          dsimp only
          rw [Function.update_apply]
          split
          · exact perm.nodup_iff.mpr (List.nodup_cons.mpr ⟨absent _, unlisted.nodup _⟩)
          · exact unlisted.nodup series
      case mem =>
          intro series other
          dsimp only
          rw [Function.update_apply, known]
          split
          · next same =>
              subst same
              rw [perm.mem_iff, List.mem_cons, unlisted.mem]
              rcases eq_or_ne other lock with rfl | differ
              · simp [small, nonzero]
              · simp [differ]
          · next differ =>
              rw [unlisted.mem]
              rcases eq_or_ne other lock with rfl | apart
              · simp [Ne.symm differ]
              · simp [apart]
  · next unfit =>
      refine ⟨unlisted.sorted, unlisted.nodup, fun series other => ?_⟩
      dsimp only
      rw [unlisted.mem, known]
      rcases eq_or_ne other lock with rfl | differ
      · constructor
        · exact fun impossible => absurd rfl impossible.1
        · rintro ⟨-, small, same, nonzero⟩
          subst same
          exact absurd ⟨small, nonzero⟩ unfit
      · simp [differ]

end Unlisted

namespace DataQueued

variable {table : Table} (queued : DataQueued table)
include queued

theorem removeDataQue (lock : Nat) : Unlisted (table.removeDataQue lock) lock := by
  have queue : ∀ series,
      (table.removeDataQue lock).lhb_data series = (table.lhb_data series).erase lock := by
    intro series
    change Function.update _ _ _ _ = _
    rw [Function.update_apply]
    split
    · next same => rw [same]
    · next differ =>
        rw [List.erase_of_not_mem]
        exact fun member => differ ((queued.mem series lock).mp member).2.2.1.symm
  constructor
  case sorted =>
      intro series
      rw [queue]
      exact (queued.sorted series).sublist List.erase_sublist
  case nodup =>
      intro series
      rw [queue]
      exact (queued.nodup series).erase lock
  case mem =>
      intro series other
      rw [queue, (queued.nodup series).mem_erase_iff, queued.mem]
      rfl

/-- A lock that does not exist yet is in no queue. -/
theorem unlisted {lock : Nat} (fresh : lock ∉ table.lhb_hash) : Unlisted table lock := by
  refine ⟨queued.sorted, queued.nodup, fun series other => ?_⟩
  rw [queued.mem]
  refine ⟨fun found => ⟨?_, found⟩, And.right⟩
  rintro rfl
  exact fresh found.1

theorem replaceData {lock : Nat} (used : lock ∈ table.lhb_hash) (data : Int) :
    DataQueued (table.replaceData lock data) := by
  have unlisted := (queued.removeDataQue lock).setLock fun block => { block with lbl_data := data }
  have known : ∀ other, other ∈ table.lhb_hash ↔ other = lock ∨ other ∈ table.lhb_hash := by
    intro other
    refine ⟨.inr, ?_⟩
    rintro (rfl | member)
    · exact used
    · exact member
  have inserted := unlisted.insertDataQue known
  rw [Table.replaceData]
  split
  · refine inserted.of_view ?_
    rw [Table.insertDataQue_eq]
    rfl
  · next zero =>
      rw [Table.insertDataQue, if_neg] at inserted
      · exact inserted
      · simpa using fun _ => not_not.mp zero

theorem grantData {request : Nat} (used : (table.requests request).lrq_lock ∈ table.lhb_hash) :
    DataQueued (table.grantData request) := by
  rw [Table.grantData]
  split
  · exact (queued.replaceData used _).of_view rfl
  · exact queued

theorem grant {request : Nat} (used : (table.requests request).lrq_lock ∈ table.lhb_hash) :
    DataQueued (table.grant request) := by
  have counted := queued.of_view (Table.dataView_setLock (table.requests request).lrq_lock
    (fun block => { block with
      lbl_counts := increment block.lbl_counts (table.requests request).lrq_requested }) rfl rfl)
  have stated := counted.of_view (Table.dataView_setRequest request fun block =>
    { block with lrq_state := (table.requests request).lrq_requested })
  have loaded := @grantData _ stated request (by
    rw [Table.requests_setRequest, if_pos rfl]
    exact used)
  have settled := loaded.of_view (Table.dataView_setLock (table.requests request).lrq_lock
    (fun block => { block with lbl_state := lockState block.lbl_counts }) rfl rfl)
  rw [Table.grant]
  refine (settled.of_view ?_).of_view (Table.dataView_ignores.postWakeup _ _)
  split
  · exact Table.dataView_clearPending request
  · rfl

omit queued in
theorem grantPending {lock : Nat} (queue : List Nat) {table : Table} (queued : DataQueued table)
    (housed : ∀ request ∈ queue, (table.requests request).lrq_lock ∈ table.lhb_hash) :
    DataQueued (Table.grantPending lock queue table) := by
  induction queue generalizing table with
  | nil => exact queued
  | cons request queue ih =>
      have used := housed request List.mem_cons_self
      have others := fun other found => housed other (List.mem_cons_of_mem _ found)
      have granted : ∀ {before : Table}, DataQueued before → Kept table before →
          DataQueued (Table.grantPending lock queue (before.grant request)) := by
        intro before sound kept
        have after := kept.trans (Kept.grant before request)
        refine ih (sound.grant (by rw [kept.lock, kept.hash]; exact used)) fun other found => ?_
        rw [after.lock, after.hash]
        exact others other found
      rw [Table.grantPending]
      dsimp only
      split
      · exact ih queued others
      split
      · split
        · exact granted (queued.of_view (Table.dataView_withdraw lock request))
            (Kept.withdraw table lock request)
        · exact queued.of_view (Table.dataView_ignores.postWakeup _ _)
      · split
        · exact granted queued (.refl table)
        · exact queued.of_view (Table.dataView_ignores.postWakeup _ _)

theorem postPending {lock : Nat} (housed : ∀ request ∈ (table.locks lock).lbl_requests,
    (table.requests request).lrq_lock ∈ table.lhb_hash) : DataQueued (table.postPending lock) := by
  have granted := @grantPending lock _ table queued housed
  rw [Table.postPending]
  split
  · exact queued
  · dsimp only
    split
    · exact granted.of_view (Table.dataView_ignores.markGranted _ _)
    · exact granted

theorem waitForRequest (request : Nat) (timeout : Bool) :
    DataQueued (table.waitForRequest request timeout) := by
  rw [Table.waitForRequest]
  refine queued.of_view ((Table.dataView_ignores.postBlockage _ _).trans ?_)
  have waiting (middle : Table) (lock : Nat) : (if timeout then
      middle.setRequest request fun block => { block with wait_timeout := true }
        else middle).dataView = middle.dataView := by
    split
    · rfl
    · rfl
  rw [waiting _ 0]
  split
  · rw [Table.dataView_setLock _ _ rfl rfl, Table.dataView_setLock _ _ rfl rfl]
    rfl
  · rw [Table.dataView_setLock _ _ rfl rfl]
    rfl

theorem detach (request : Nat) : DataQueued (table.detach request) := by
  refine queued.of_view ?_
  have left (middle : Table) : (if (middle.requests request).pending then
      middle.clearPending request else middle).dataView = middle.dataView := by
    split
    · exact Table.dataView_clearPending request
    · rfl
  have erased : (table.setLock (table.requests request).lrq_lock fun block =>
      { block with lbl_requests := block.lbl_requests.erase request }).dataView = table.dataView :=
    Table.dataView_setLock _ _ rfl rfl
  rw [Table.detach, Table.dataView_setRequest, left]
  split
  · exact erased
  · exact erased

theorem discount (lock request : Nat) : DataQueued (table.discount lock request) := by
  have withdrawn := @Table.dataView_withdraw table lock request
  refine queued.of_view ?_
  rw [Table.discount]
  dsimp only
  split
  · split
    · exact (Table.dataView_setLock _ _ rfl rfl).trans withdrawn
    · exact withdrawn
  · rfl

theorem releaseRequest {request : Nat} (queues : Queues table)
    (live : (table.requests request).Live) : DataQueued (table.releaseRequest request) := by
  have used := (queues.on_lock request live).1
  have detached := table.detach_detached request
  have left := queued.detach request
  rw [Table.releaseRequest]
  dsimp only
  split
  · have unlisted := left.removeDataQue (table.requests request).lrq_lock
    refine ⟨unlisted.sorted, unlisted.nodup, fun series other => ?_⟩
    have nodup : ((table.detach request).removeDataQue
        (table.requests request).lrq_lock).lhb_hash.Nodup := by
      change (table.detach request).lhb_hash.Nodup
      rw [detached.hash]
      exact queues.hash_nodup
    rw [nodup.mem_erase_iff, and_assoc]
    exact unlisted.mem series other
  · have kept := (table.detach request).discount_kept (table.requests request).lrq_lock request
    refine (left.discount _ request).postPending fun other member => ?_
    rw [kept.queue] at member
    obtain ⟨differ, found⟩ := detached.mem_queue queues used member
    rw [kept.lock, kept.hash, detached.requests other differ, detached.hash,
      (queues.queued _ used other found).2]
    exact used

theorem internalDequeue {request : Nat} (queues : Queues table)
    (live : (table.requests request).Live) : DataQueued (table.internalDequeue request) := by
  have same : (table.setRequest request fun block =>
      { block with lrq_ast_routine := false }).queues = table.queues :=
    Table.queues_setRequest request _ rfl
  rw [Table.internalDequeue]
  refine (queued.of_view ?_).releaseRequest (queues.of_queues same)
    ((Kept.of_queues same).live request |>.mpr live)
  exact Table.dataView_setRequest _ _

theorem giveBack {prior : Option Nat} (queues : Queues table)
    (live : ∀ block, prior = some block → (table.requests block).Live) :
    DataQueued (table.giveBack prior) := by
  cases prior with
  | none => exact queued
  | some block => exact queued.internalDequeue queues (live block rfl)

theorem internalConvert {request : Nat} (type : Level) (lck_wait : Wait) (ast_routine : Bool)
    (queues : Queues table) (live : (table.requests request).Live) :
    DataQueued (table.internalConvert request type lck_wait ast_routine).1 := by
  have used := (queues.on_lock request live).1
  rw [Table.internalConvert]
  dsimp only
  split
  · have kept : Kept table ((((table.setRequest request fun block =>
        { block with lrq_requested := type, blocking_seen := false }).withdraw
          (table.requests request).lrq_lock request).setRequest request fun block =>
            { block with lrq_ast_routine := ast_routine }).grant request) := by
      refine (Kept.of_queues ?_).trans (Kept.grant _ request)
      rw [Table.queues_setRequest _ _ rfl, Table.withdraw, Table.queues_setLock _ _ rfl rfl,
        Table.queues_setRequest _ _ rfl]
    refine DataQueued.postPending (DataQueued.grant (queued.of_view ?_) ?_) fun other member => ?_
    · rw [Table.dataView_setRequest, Table.dataView_withdraw, Table.dataView_setRequest]
    · simpa [Table.withdraw] using used
    · rw [kept.queue] at member
      rw [kept.lock, kept.hash, (queues.queued _ used other member).2]
      exact used
  split
  · exact (queued.of_view (Table.dataView_setRequest _ _)).waitForRequest _ _
  · exact queued.of_view rfl

theorem convertWoken {request : Nat} (ast_routine : Bool) (queues : Queues table)
    (live : (table.requests request).Live) :
    DataQueued (table.convertWoken request ast_routine).1 := by
  have kept := Kept.of_core (table.core_endWait request)
  have used := (queues.on_lock request live).1
  have ended := queued.of_view (Table.dataView_ignores.endWait table request)
  rw [Table.convertWoken]
  split
  · refine (ended.postPending fun other member => ?_).of_view (Table.dataView_setRequest _ _)
    rw [kept.queue, kept.lock] at member
    rw [kept.lock, kept.hash, (queues.queued _ used other member).2]
    exact used
  · exact ended.of_view (Table.dataView_setRequest _ _)

theorem downgrade {request : Nat} (queues : Queues table) (live : (table.requests request).Live) :
    DataQueued (table.downgrade request) := by
  rw [Table.downgrade]
  split
  · exact queued.internalDequeue queues live
  · exact queued.internalConvert _ _ _ queues live

theorem enqueueWoken {request : Nat} (queues : Queues table)
    (live : (table.requests request).Live) : DataQueued (table.enqueueWoken request).1 := by
  have same := table.core_endWait request
  have ended := queued.of_view (Table.dataView_ignores.endWait table request)
  rw [Table.enqueueWoken]
  split
  · exact ended.releaseRequest (queues.of_queues (congrArg Core.queues same))
      (((Kept.of_core same).live request).mpr live)
  · exact ended

theorem grantOrQue {before : Table} {request lock owner : Nat} (lck_wait : Wait)
    (admitted : Admitted before request lock owner
      (table.setRequest request fun block => { block with lrq_lock := lock }))
    (queues : Queues before) (used : lock ∈ before.lhb_hash) (active : owner ∈ before.lhb_owners)
    (free : (before.requests request).in_use = false) :
    DataQueued (table.grantOrQue request lock lck_wait).1 := by
  have placed := queued.of_view (Table.dataView_setRequest request fun block =>
    { block with lrq_lock := lock })
  rw [Table.grantOrQue]
  generalize (table.setRequest request fun block => { block with lrq_lock := lock }) = after
    at admitted placed ⊢
  have sound := admitted.queues queues used active free
  split
  · have kept := Kept.grant after request
    refine (placed.grant ?_).postPending fun other member => ?_
    · rw [admitted.lrq_lock, admitted.hash]
      exact used
    · rw [kept.queue] at member
      rw [kept.lock, kept.hash, (sound.queued lock (admitted.hash ▸ used) other member).2,
        admitted.hash]
      exact used
  split
  · exact placed.waitForRequest _ _
  · exact placed.releaseRequest sound admitted.live

theorem enqueueLock {request lock owner : Nat} (type : Level) (ast_routine : Bool) (data : Int)
    (lck_wait : Wait) (queues : Queues table) (used : lock ∈ table.lhb_hash)
    (active : owner ∈ table.lhb_owners) (free : (table.requests request).in_use = false) :
    DataQueued ((table.allocRequest none request type ast_routine owner).enqueueLock request lock
      data lck_wait).1 := by
  rw [Table.enqueueLock]
  have placed : ((table.allocRequest none request type ast_routine owner).setLock lock fun block =>
      { block with lbl_requests := block.lbl_requests ++ [request] }).dataView = table.dataView :=
    (Table.dataView_setLock _ _ rfl rfl).trans rfl
  have loaded := (queued.of_view placed).of_view (Table.dataView_setRequest request fun block =>
    { block with lrq_data := data })
  exact loaded.grantOrQue lck_wait
    (table.enqueueLock_admitted request lock owner type ast_routine data) queues used active free

theorem createLock {request lock owner series : Nat} {value : List UInt8} (type : Level)
    (ast_routine : Bool) (data : Int) (fresh : lock ∉ table.lhb_hash) :
    DataQueued ((table.allocRequest none request type ast_routine owner).createLock request lock
      series value type data) := by
  have set_up : DataQueued (table.allocRequest none request type ast_routine owner) :=
    queued.of_view rfl
  have opened := (set_up.unlisted fresh).setLock fun _ => Table.newLock series value type data
  have known : ∀ other, other ∈ table.lhb_hash ++ [lock] ↔
      other = lock ∨ other ∈ table.lhb_hash := fun other => by
    rw [List.mem_append, List.mem_singleton, or_comm]
  have same : ∀ chosen : Table, (chosen.locks lock).lbl_data = data →
      (if data ≠ 0 then chosen.insertDataQue lock else chosen) = chosen.insertDataQue lock := by
    intro chosen stored
    split
    · rfl
    · next zero =>
        rw [Table.insertDataQue, if_neg]
        rw [stored]
        exact fun fits => zero fits.2
  rw [Table.createLock, same _ (by rw [Table.locks_setLock, if_pos rfl]; rfl)]
  have hash : (((table.allocRequest none request type ast_routine owner).setLock lock fun _ =>
      Table.newLock series value type data).insertDataQue lock).lhb_hash = table.lhb_hash := by
    rw [Table.insertDataQue_eq]
    rfl
  have inserted := opened.insertDataQue known
  rw [hash]
  generalize linked_eq : ({ ((table.allocRequest none request type ast_routine owner).setLock lock
    fun _ => Table.newLock series value type data).insertDataQue lock with
      lhb_hash := table.lhb_hash ++ [lock] } : Table) = linked at inserted ⊢
  have placed := (inserted.of_view (Table.dataView_setLock lock (fun block =>
    { block with lbl_requests := block.lbl_requests ++ [request] }) rfl rfl)).of_view
      (Table.dataView_setRequest request fun block => { block with lrq_lock := lock })
  refine placed.grant ?_
  rw [Table.requests_setRequest, if_pos rfl]
  change lock ∈ linked.lhb_hash
  rw [← linked_eq]
  exact (known lock).mpr (.inl rfl)

omit queued in
theorem releaseRequests (requests : List Nat) {table : Table} (queued : DataQueued table)
    (wellformed : Wellformed False table) (nodup : requests.Nodup)
    (live : ∀ request ∈ requests, (table.requests request).Live) :
    DataQueued (requests.foldl Table.releaseRequest table) := by
  induction requests generalizing table with
  | nil => exact queued
  | cons request requests ih =>
      obtain ⟨absent, nodup⟩ := List.nodup_cons.mp nodup
      have alive := live request List.mem_cons_self
      obtain ⟨sound, -, released⟩ := wellformed.releaseRequest alive False.elim
      refine ih (queued.releaseRequest wellformed.toQueues alive) sound nodup fun other member => ?_
      exact (released.live other).mpr
        ⟨fun same => absent (same ▸ member), live other (List.mem_cons_of_mem _ member)⟩

theorem purgeOwner {owner : Nat} (wellformed : Wellformed False table)
    (active : owner ∈ table.lhb_owners) : DataQueued (table.purgeOwner owner) := by
  have purged := releaseRequests _ queued wellformed (wellformed.own_nodup owner active)
    fun request member => (wellformed.owned owner active request member).1
  rw [Table.purgeOwner]
  refine (purged.of_view ?_).of_view (Table.dataView_ignores.active _ _)
  refine @Ignores.foldl _ Table.dataView _ (fun middle request => ?_) _ _
  exact Table.dataView_setRequest _ _

theorem rejectVictim (request victim : Nat) : DataQueued (table.rejectVictim request victim) := by
  have rejected : (table.reject victim).dataView = table.dataView :=
    Table.dataView_clearPending victim
  rw [Table.rejectVictim]
  split
  · exact queued.of_view rejected
  · exact queued.of_view ((Table.dataView_ignores.postWakeup _ _).trans rejected)

end DataQueued

/-! ## Runs -/

theorem DataQueued.initial : DataQueued .initial := by
  refine ⟨fun _ => List.Pairwise.nil, fun _ => List.nodup_nil, fun series lock => ?_⟩
  exact ⟨fun member => absurd member List.not_mem_nil, fun found =>
    absurd found.1 List.not_mem_nil⟩

theorem Step.dataQueued {before after : Table} (step : Step before after)
    (wellformed : Wellformed False before) (queued : DataQueued before) : DataQueued after := by
  have queues := wellformed.toQueues
  have ignores := Table.dataView_ignores
  cases step with
  | createOwner => exact queued.of_view rfl
  | useOwner => exact queued.of_view rfl
  | leaveOwner => exact queued.of_view rfl
  | purgeOwner active => exact queued.purgeOwner wellformed active
  | noRequest live => exact queued.internalDequeue queues live
  | enqueueLock active _ live free found =>
      have known := Table.allocRequest_giveBack _ _ _ _ _ _ ▸ found
      obtain ⟨first, -, owners⟩ := wellformed.giveBack False.elim live
      rw [Table.allocRequest_giveBack]
      exact (queued.giveBack queues live).enqueueLock _ _ _ _ first.wellformed.toQueues
        (List.mem_of_find?_eq_some known) (owners ▸ active) free
  | createLock active _ live free _ fresh =>
      rw [Table.allocRequest_giveBack]
      exact (queued.giveBack queues live).createLock _ _ _ fresh
  | dropRequest active _ live free =>
      rw [Table.allocRequest_giveBack]
      exact (queued.giveBack queues live).of_view rfl
  | enqueueWoken live => exact queued.enqueueWoken queues live
  | convert live => exact queued.internalConvert _ _ _ queues live
  | convertWoken live => exact queued.convertWoken _ queues live
  | downgrade live => exact queued.downgrade queues live
  | dequeue live => exact queued.internalDequeue queues live
  | writeData live => exact queued.replaceData (queues.on_lock _ live).1 _
  | repost => exact queued.of_view (ignores.signalOwners _ _)
  | blockingAction => exact queued.of_view (ignores.blockingAction _ _)
  | cancelWait => exact queued.of_view (ignores.postWakeup _ _)
  | awake => exact queued.of_view rfl
  | timeout => exact queued.of_view (Table.dataView_clearPending _)
  | postBlockage => exact queued.of_view (ignores.postBlockage _ _)
  | deadlock => exact (queued.of_view (ignores.deadlockScan _ _)).rejectVictim _ _
  | noDeadlock =>
      exact queued.of_view ((ignores.postBlockage _ _).trans (ignores.deadlockScan _ _))

theorem Reachable.dataQueued {allowed : Table → Prop} {table : Table}
    (reachable : Reachable allowed table) : DataQueued table := by
  induction reachable with
  | initial => exact .initial
  | step before step _ ih =>
      exact step.dataQueued (@Reachable.wellformed False _ _ before False.elim).1 ih

/-! ## What the aggregates are -/

namespace Table

variable {table : Table} {series : Nat}

theorem checkedData_eq {lock : Nat} (same : (table.locks lock).lbl_series = series) :
    table.checkedData series lock = some (table.locks lock).lbl_data :=
  if_pos same

/-- The loop counts the locks, unless only the sum is asked for, and adds their data up, unless only
the number is. -/
theorem accumulate_eq (aggregate : Aggregate) (queue : List Nat)
    (inside : ∀ lock ∈ queue, (table.locks lock).lbl_series = series) (data count : Int) :
    table.accumulate series aggregate queue (data.bmod (2 ^ 64)) count =
      some (if aggregate = .cnt then data.bmod (2 ^ 64)
          else (data + (queue.map fun lock => (table.locks lock).lbl_data).sum).bmod (2 ^ 64),
        if aggregate = .sum then count else count + queue.length) := by
  induction queue generalizing data count with
  | nil => simp [accumulate]
  | cons lock queue ih =>
      have others := ih fun other member => inside other (List.mem_cons_of_mem _ member)
      have added : addSint64 (data.bmod (2 ^ 64)) (table.locks lock).lbl_data =
          (data + (table.locks lock).lbl_data).bmod (2 ^ 64) := by
        rw [addSint64, Int.bmod_add_bmod]
      rw [accumulate, checkedData_eq (inside lock List.mem_cons_self)]
      dsimp only [Option.bind_eq_bind, Option.bind_some]
      rw [added, ← apply_ite (Int.bmod · (2 ^ 64)), others]
      cases aggregate <;> simp [add_assoc, add_comm (1 : Int)]

/-- What the data queue of a series holds, and what `queryData` makes of it. -/
structure Surveyed (table : Table) (series : Nat) : Prop where
  queue : (table.lhb_data series).Perm (table.carriers series)
  sorted : (table.lhb_data series).Pairwise fun first second =>
    (table.locks first).lbl_data ≤ (table.locks second).lbl_data
  min : table.queryData series .min = some ((table.carried series).min?.getD 0)
  max : table.queryData series .max = some ((table.carried series).max?.getD 0)
  cnt : table.queryData series .cnt = some (table.carried series).length
  sum : table.queryData series .sum = some ((table.carried series).sum.bmod (2 ^ 64))
  avg : table.queryData series .avg =
    some (((table.carried series).sum.bmod (2 ^ 64)).tdiv (table.carried series).length)
  any : table.queryData series .any = some (if table.carried series = [] then 0 else 1)

end Table

/-- In every state of every run the data queues are complete and sorted, and the aggregates are
those of the data, up to the width of the sum and the rounding of the average. -/
theorem Reachable.surveyed {allowed : Table → Prop} {table : Table}
    (reachable : Reachable allowed table) {series : Nat} (small : series < maxSeries) :
    table.Surveyed series := by
  have queued := reachable.dataQueued
  have queues := (@Reachable.wellformed False _ _ reachable False.elim).1.toQueues
  have perm : (table.lhb_data series).Perm (table.carriers series) := by
    refine (List.perm_ext_iff_of_nodup (queued.nodup series) (queues.hash_nodup.filter _)).mpr ?_
    intro lock
    rw [queued.mem, List.mem_filter]
    simp [small]
  have inside : ∀ lock ∈ table.lhb_data series, (table.locks lock).lbl_series = series :=
    fun lock member => ((queued.mem series lock).mp member).2.2.1
  have data_perm := perm.map fun lock => (table.locks lock).lbl_data
  have open_series : ¬maxSeries ≤ series := Nat.not_le.mpr small
  have total := fun aggregate => @Table.accumulate_eq table series aggregate _ inside 0 0
  have length : (table.lhb_data series).length = (table.carried series).length :=
    (List.length_map _).symm.trans data_perm.length_eq
  simp only [Int.zero_bmod, zero_add, data_perm.sum_eq, length] at total
  have sorted := queued.sorted series
  constructor
  case queue => exact perm
  case sorted => exact sorted
  case min =>
      rw [Table.queryData, if_neg open_series, Table.carried]
      cases queue : table.lhb_data series with
      | nil =>
          rw [queue, List.map_nil, List.nil_perm] at data_perm
          rw [data_perm]
          rfl
      | cons lock rest =>
          rw [queue] at data_perm sorted inside
          have least : ((table.carriers series).map fun lock => (table.locks lock).lbl_data).min? =
              some (table.locks lock).lbl_data := by
            refine List.min?_eq_some_iff.mpr ⟨data_perm.subset List.mem_cons_self, ?_⟩
            intro data member
            obtain ⟨other, found, rfl⟩ := List.mem_map.mp (data_perm.symm.subset member)
            rcases List.mem_cons.mp found with rfl | found
            · exact le_refl _
            · exact (List.pairwise_cons.mp sorted).1 other found
          rw [least]
          exact Table.checkedData_eq (inside lock List.mem_cons_self)
  case max =>
      rw [Table.queryData, if_neg open_series, Table.carried]
      cases last : (table.lhb_data series).getLast? with
      | none =>
          rw [List.getLast?_eq_none_iff.mp last, List.map_nil, List.nil_perm] at data_perm
          rw [data_perm]
          rfl
      | some lock =>
          obtain ⟨front, queue⟩ := List.getLast?_eq_some_iff.mp last
          have member : lock ∈ table.lhb_data series := by simp [queue]
          have greatest : ((table.carriers series).map fun lock =>
              (table.locks lock).lbl_data).max? = some (table.locks lock).lbl_data := by
            refine List.max?_eq_some_iff.mpr
              ⟨data_perm.subset (List.mem_map.mpr ⟨lock, member, rfl⟩), ?_⟩
            intro data entry
            obtain ⟨other, found, rfl⟩ := List.mem_map.mp (data_perm.symm.subset entry)
            rw [queue] at found sorted
            rcases List.mem_append.mp found with found | same
            · exact (List.pairwise_append.mp sorted).2.2 other found lock (List.mem_singleton_self _)
            · rw [List.mem_singleton.mp same]
          rw [greatest]
          exact Table.checkedData_eq (inside lock member)
  case cnt =>
      rw [Table.queryData, if_neg open_series]
      simp [total]
  case sum =>
      rw [Table.queryData, if_neg open_series]
      simp [total, Table.carried]
  case avg =>
      rw [Table.queryData, if_neg open_series]
      have both := total .avg
      simp only [reduceCtorEq, reduceIte] at both
      rw [both]
      dsimp only [Option.bind_eq_bind, Option.bind_some]
      split
      · rfl
      · next empty => rw [not_not.mp empty, Int.tdiv_zero]
  case any =>
      rw [Table.queryData, if_neg open_series]
      have empty : table.lhb_data series = [] ↔ table.carried series = [] := by
        rw [← List.length_eq_zero_iff, length, List.length_eq_zero_iff]
      simp only [empty]

/-- One owner with two locks of one series that carry data. -/
def twoCarriers (first second : Int) : Table :=
  let table := ((Table.initial.createOwner 0).allocRequest none 0 .SR false 0).createLock 0 0 0 [0]
    .SR first
  (table.allocRequest none 1 .SR false 0).createLock 1 1 0 [1] .SR second

theorem twoCarriers_reachable {first second : Int}
    (new : ((((Table.initial.createOwner 0).allocRequest none 0 .SR false 0).createLock 0 0 0 [0]
      .SR first).allocRequest none 1 .SR false 0).findLock 0 [1] = none)
    (fresh : 1 ∉ (((Table.initial.createOwner 0).allocRequest none 0 .SR false 0).createLock 0 0 0
      [0] .SR first).lhb_hash)
    (owner : 0 ∈ (((Table.initial.createOwner 0).allocRequest none 0 .SR false 0).createLock 0 0 0
      [0] .SR first).lhb_owners)
    (count : ((((Table.initial.createOwner 0).allocRequest none 0 .SR false 0).createLock 0 0 0
      [0] .SR first).owners 0).own_count ≠ 0)
    (free : ((((Table.initial.createOwner 0).allocRequest none 0 .SR false 0).createLock 0 0 0
      [0] .SR first).requests 1).in_use = false) :
    Reachable (fun _ => True) (twoCarriers first second) := by
  have one : Reachable (fun _ => True) (((Table.initial.createOwner 0).allocRequest none 0 .SR false
      0).createLock 0 0 0 [0] .SR first) :=
    ((Reachable.initial trivial).step (.createOwner List.not_mem_nil) trivial).step
      (.createLock (List.mem_singleton_self 0) Nat.one_ne_zero (fun block found => nomatch found)
        rfl rfl List.not_mem_nil) trivial
  exact one.step (.createLock owner count (fun block found => nomatch found) free new fresh) trivial

theorem twoCarriers_surveyed : (twoCarriers 5 3).Surveyed 0 :=
  (twoCarriers_reachable (by decide) (by decide) (by decide) (by decide) (by decide)).surveyed
    (by decide)

/-- The average is rounded, and the sum is kept in 64 bits. -/
theorem queryData_inexact :
    (¬∀ table series, Reachable (fun _ => True) table → series < maxSeries → ∀ average,
      table.queryData series .avg = some average →
        average * (table.carried series).length = (table.carried series).sum) ∧
    ¬∀ table series, Reachable (fun _ => True) table → series < maxSeries →
      table.queryData series .sum = some (table.carried series).sum := by
  constructor
  · intro exact_average
    have reachable : Reachable (fun _ => True) (twoCarriers 1 2) :=
      twoCarriers_reachable (by decide) (by decide) (by decide) (by decide) (by decide)
    exact absurd (exact_average _ 0 reachable (by decide) 1 (by decide)) (by decide)
  · intro exact_sum
    have reachable : Reachable (fun _ => True) (twoCarriers (2 ^ 63 - 1) (2 ^ 63 - 1)) :=
      twoCarriers_reachable (by decide) (by decide) (by decide) (by decide) (by decide)
    exact absurd (exact_sum _ 0 reachable (by decide)) (by decide)

end LockManager
end Firebird
