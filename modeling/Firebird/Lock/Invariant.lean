import Firebird.Lock.Table
import Mathlib.Data.List.Count
import Mathlib.Tactic.Common

/-!
# Bookkeeping of the lock table

The counts of a lock, its state, its number of pending requests and the pending queues of the owners
repeat what the requests say.  `Wellformed` states how; the counters are 16 bits wide, so they agree
with the numbers of requests modulo 65536.
-/

namespace Firebird
namespace LockManager

variable {strict : Prop}

/-! ## The fields that matter -/

/-- The part of a request block that its place on the queues depends on. -/
structure Placement where
  in_use : Bool
  repost : Bool
  pending : Bool
  blocking : Bool
  lrq_owner : Nat
  lrq_lock : Nat

/-- The queues of the lock table. -/
structure QueueCore where
  lhb_owners : List Nat
  lhb_hash : List Nat
  lbl_requests : Nat → List Nat
  lbl_pending_lrq_count : Nat → UInt16
  own_requests : Nat → List Nat
  own_blocks : Nat → List Nat
  own_pending : Nat → List Nat
  placement : Nat → Placement

/-- The part of the lock table that the bookkeeping is about. -/
structure Core where
  queues : QueueCore
  lbl_state : Nat → Level
  lbl_counts : Nat → Level → UInt16
  lrq_state : Nat → Level

namespace Request

/-- A request for a lock, as opposed to a free block or a repost. -/
def Live (request : Request) : Prop := request.in_use = true ∧ request.repost = false

/-- The fields of a request block in `QueueCore`. -/
def placement (request : Request) : Placement :=
  { in_use := request.in_use
    repost := request.repost
    pending := request.pending
    blocking := request.blocking
    lrq_owner := request.lrq_owner
    lrq_lock := request.lrq_lock }

end Request

namespace Table

variable {table : Table}

/-- The fields of the table in `QueueCore`. -/
def queues (table : Table) : QueueCore :=
  { lhb_owners := table.lhb_owners
    lhb_hash := table.lhb_hash
    lbl_requests := fun lock => (table.locks lock).lbl_requests
    lbl_pending_lrq_count := fun lock => (table.locks lock).lbl_pending_lrq_count
    own_requests := fun owner => (table.owners owner).own_requests
    own_blocks := fun owner => (table.owners owner).own_blocks
    own_pending := fun owner => (table.owners owner).own_pending
    placement := fun request => (table.requests request).placement }

/-- The fields of the table in `Core`. -/
def core (table : Table) : Core :=
  { queues := table.queues
    lbl_state := fun lock => (table.locks lock).lbl_state
    lbl_counts := fun lock => (table.locks lock).lbl_counts
    lrq_state := fun request => (table.requests request).lrq_state }

theorem field_update {α β : Type*} (field : α → β) (values : Nat → α) (index : Nat) (value : α)
    (same : field value = field (values index)) (other : Nat) :
    field (Function.update values index value other) = field (values other) := by
  rcases eq_or_ne other index with rfl | differ
  · rw [Function.update_self, same]
  · rw [Function.update_of_ne differ]

theorem comp_update {α β : Type*} (field : α → β) (values : Nat → α) (index : Nat) (value : α)
    (same : field value = field (values index)) :
    (fun other => field (Function.update values index value other)) =
      fun other => field (values other) :=
  funext fun other => field_update field values index value same other

theorem queues_setRequest (request : Nat) (assign : Request → Request)
    (same : (assign (table.requests request)).placement = (table.requests request).placement) :
    (table.setRequest request assign).queues = table.queues := by
  simp only [queues, setRequest, comp_update Request.placement table.requests request _ same]

theorem core_setRequest (request : Nat) (assign : Request → Request)
    (same : (assign (table.requests request)).placement = (table.requests request).placement)
    (state : (assign (table.requests request)).lrq_state = (table.requests request).lrq_state) :
    (table.setRequest request assign).core = table.core := by
  simp only [core, queues_setRequest request assign same]
  simp only [setRequest, comp_update Request.lrq_state table.requests request _ state]

theorem core_setOwner (owner : Nat) (assign : Owner → Owner)
    (requests : (assign (table.owners owner)).own_requests = (table.owners owner).own_requests)
    (blocks : (assign (table.owners owner)).own_blocks = (table.owners owner).own_blocks)
    (pending : (assign (table.owners owner)).own_pending = (table.owners owner).own_pending) :
    (table.setOwner owner assign).core = table.core := by
  simp only [core, queues, setOwner, comp_update Owner.own_requests table.owners owner _ requests,
    comp_update Owner.own_blocks table.owners owner _ blocks,
    comp_update Owner.own_pending table.owners owner _ pending]

theorem queues_setLock (lock : Nat) (assign : Lock → Lock)
    (requests : (assign (table.locks lock)).lbl_requests = (table.locks lock).lbl_requests)
    (pending : (assign (table.locks lock)).lbl_pending_lrq_count =
      (table.locks lock).lbl_pending_lrq_count) :
    (table.setLock lock assign).queues = table.queues := by
  simp only [queues, setLock, comp_update Lock.lbl_requests table.locks lock _ requests,
    comp_update Lock.lbl_pending_lrq_count table.locks lock _ pending]

theorem core_setLock (lock : Nat) (assign : Lock → Lock)
    (state : (assign (table.locks lock)).lbl_state = (table.locks lock).lbl_state)
    (requests : (assign (table.locks lock)).lbl_requests = (table.locks lock).lbl_requests)
    (pending : (assign (table.locks lock)).lbl_pending_lrq_count =
      (table.locks lock).lbl_pending_lrq_count)
    (counts : (assign (table.locks lock)).lbl_counts = (table.locks lock).lbl_counts) :
    (table.setLock lock assign).core = table.core := by
  simp only [core, queues_setLock lock assign requests pending]
  simp only [setLock, comp_update Lock.lbl_state table.locks lock _ state,
    comp_update Lock.lbl_counts table.locks lock _ counts]

theorem core_replaceData (lock : Nat) (data : Int) :
    (table.replaceData lock data).core = table.core := by
  have removed : ((table.removeDataQue lock).setLock lock fun block =>
      { block with lbl_data := data }).core = table.core := core_setLock lock _ rfl rfl rfl rfl
  rw [replaceData]
  split
  · rw [insertDataQue]
    split
    · exact removed
    · exact removed
  · exact removed

theorem core_postWakeup (owner : Nat) : (table.postWakeup owner).core = table.core := by
  rw [postWakeup]
  split
  · exact core_setOwner owner _ rfl rfl rfl
  · rfl

theorem core_grantData (request : Nat) : (table.grantData request).core = table.core := by
  rw [grantData]
  split
  · rw [core_setRequest _ _ rfl rfl]
    exact core_replaceData _ _
  · rfl

theorem core_markGranted (queue : List Nat) : (markGranted queue table).core = table.core := by
  induction queue generalizing table with
  | nil => rfl
  | cons request queue ih =>
      rw [markGranted]
      split
      · rfl
      · split
        · rw [ih, core_setRequest _ _ rfl rfl]
        · exact ih

theorem core_signalOwners (owners : List Nat) : (signalOwners owners table).core = table.core := by
  induction owners generalizing table with
  | nil => rfl
  | cons owner owners ih =>
      rw [signalOwners]
      split
      · rw [ih, core_setOwner owner _ rfl rfl rfl]
      · exact ih

theorem core_endWait (request : Nat) : (table.endWait request).core = table.core := by
  rw [endWait, core_setOwner _ _ rfl rfl rfl, core_setRequest _ _ rfl rfl]

end Table

/-! ## The invariant -/

/-- The number of requests of a queue that are granted at a level. -/
def granted (requests : Nat → Request) (queue : List Nat) (level : Level) : Nat :=
  queue.countP fun request => (requests request).lrq_state = level

/-- Counts agree with the requests of a queue at every level that is a lock. -/
def Counted (lbl_counts : Level → UInt16) (requests : Nat → Request) (queue : List Nat) : Prop :=
  ∀ level, level ≠ .none → lbl_counts level = UInt16.ofNat (granted requests queue level)

/-- The queues of the lock table, and the requests on them. -/
structure Queues (table : Table) : Prop where
  hash_nodup : table.lhb_hash.Nodup
  owners_nodup : table.lhb_owners.Nodup
  queue_nodup : ∀ lock ∈ table.lhb_hash, (table.locks lock).lbl_requests.Nodup
  queued : ∀ lock ∈ table.lhb_hash, ∀ request ∈ (table.locks lock).lbl_requests,
    (table.requests request).Live ∧ (table.requests request).lrq_lock = lock
  on_lock : ∀ request, (table.requests request).Live →
    (table.requests request).lrq_lock ∈ table.lhb_hash ∧
      request ∈ (table.locks (table.requests request).lrq_lock).lbl_requests
  own_nodup : ∀ owner ∈ table.lhb_owners, (table.owners owner).own_requests.Nodup
  owned : ∀ owner ∈ table.lhb_owners, ∀ request ∈ (table.owners owner).own_requests,
    (table.requests request).Live ∧ (table.requests request).lrq_owner = owner
  on_owner : ∀ request, (table.requests request).Live →
    (table.requests request).lrq_owner ∈ table.lhb_owners ∧
      request ∈ (table.owners (table.requests request).lrq_owner).own_requests
  pending_nodup : ∀ owner ∈ table.lhb_owners, (table.owners owner).own_pending.Nodup
  pending_owned : ∀ owner ∈ table.lhb_owners, ∀ request ∈ (table.owners owner).own_pending,
    (table.requests request).Live ∧ (table.requests request).lrq_owner = owner ∧
      (table.requests request).pending = true
  on_pending : ∀ request, (table.requests request).Live → (table.requests request).pending = true →
    request ∈ (table.owners (table.requests request).lrq_owner).own_pending
  blocks_nodup : ∀ owner ∈ table.lhb_owners, (table.owners owner).own_blocks.Nodup
  blocks_owned : ∀ owner ∈ table.lhb_owners, ∀ request ∈ (table.owners owner).own_blocks,
    (table.requests request).in_use = true ∧ (table.requests request).lrq_owner = owner ∧
      ((table.requests request).repost = true ∨ (table.requests request).blocking = true)
  pending_count : ∀ lock ∈ table.lhb_hash, (table.locks lock).lbl_pending_lrq_count =
    UInt16.ofNat ((table.locks lock).lbl_requests.countP fun request =>
      (table.requests request).pending)

/-- The bookkeeping of the lock table.  The states of the locks are only right as long as no counter
has wrapped, which `strict` stands for. -/
structure Wellformed (strict : Prop) (table : Table) : Prop extends Queues table where
  counts : ∀ lock ∈ table.lhb_hash,
    Counted (table.locks lock).lbl_counts table.requests (table.locks lock).lbl_requests
  state : strict → ∀ lock ∈ table.lhb_hash,
    (table.locks lock).lbl_state = lockState (table.locks lock).lbl_counts

/-- Granted requests for one lock are compatible. -/
def Compatible (table : Table) : Prop :=
  ∀ lock ∈ table.lhb_hash, ∀ first ∈ (table.locks lock).lbl_requests,
    ∀ second ∈ (table.locks lock).lbl_requests, first ≠ second →
      compatibility (table.requests first).lrq_state (table.requests second).lrq_state = true

/-- No queue of a lock is longer than the counters can tell, one request apart. -/
def Countable (table : Table) : Prop :=
  ∀ lock ∈ table.lhb_hash, (table.locks lock).lbl_requests.length ≤ 65536

/-! ## The invariant depends on the core only -/

section Transport

variable {before after : Table}

theorem granted_of_core (same : after.core = before.core) (queue : List Nat) (level : Level) :
    granted after.requests queue level = granted before.requests queue level := by
  have state := congrFun (congrArg Core.lrq_state same)
  simp only [Table.core] at state
  simp only [granted, state]

theorem Queues.of_queues (queues : Queues before) (same : after.queues = before.queues) :
    Queues after := by
  have hash : after.lhb_hash = before.lhb_hash := congrArg QueueCore.lhb_hash same
  have active : after.lhb_owners = before.lhb_owners := congrArg QueueCore.lhb_owners same
  have queue := congrFun (congrArg QueueCore.lbl_requests same)
  have count := congrFun (congrArg QueueCore.lbl_pending_lrq_count same)
  have own := congrFun (congrArg QueueCore.own_requests same)
  have blocks := congrFun (congrArg QueueCore.own_blocks same)
  have waiting := congrFun (congrArg QueueCore.own_pending same)
  have placement := congrFun (congrArg QueueCore.placement same)
  have in_use := fun index => congrArg Placement.in_use (placement index)
  have repost := fun index => congrArg Placement.repost (placement index)
  have pending := fun index => congrArg Placement.pending (placement index)
  have blocking := fun index => congrArg Placement.blocking (placement index)
  have owner := fun index => congrArg Placement.lrq_owner (placement index)
  have lock := fun index => congrArg Placement.lrq_lock (placement index)
  simp only [Table.queues, Request.placement] at queue count own blocks waiting
  simp only [Table.queues, Request.placement] at in_use repost pending blocking owner lock
  have live : ∀ index, (after.requests index).Live = (before.requests index).Live := by
    intro index
    simp only [Request.Live, in_use, repost]
  constructor <;>
    simp only [hash, active, queue, count, own, blocks, waiting, live, in_use, repost, pending,
      blocking, owner, lock]
  · exact queues.hash_nodup
  · exact queues.owners_nodup
  · exact queues.queue_nodup
  · exact queues.queued
  · exact queues.on_lock
  · exact queues.own_nodup
  · exact queues.owned
  · exact queues.on_owner
  · exact queues.pending_nodup
  · exact queues.pending_owned
  · exact queues.on_pending
  · exact queues.blocks_nodup
  · exact queues.blocks_owned
  · exact queues.pending_count

theorem Wellformed.of_core (wellformed : Wellformed strict before) (same : after.core = before.core) :
    Wellformed strict after := by
  have queues : after.queues = before.queues := congrArg Core.queues same
  have hash : after.lhb_hash = before.lhb_hash := congrArg QueueCore.lhb_hash queues
  have queue := congrFun (congrArg QueueCore.lbl_requests queues)
  have state := congrFun (congrArg Core.lbl_state same)
  have counts := congrFun (congrArg Core.lbl_counts same)
  simp only [Table.core, Table.queues] at state queue counts
  refine { wellformed.toQueues.of_queues queues with counts := ?_, state := ?_ }
  · simp only [hash, queue, counts, Counted, granted_of_core same]
    exact wellformed.counts
  · simp only [hash, state, counts]
    exact wellformed.state

theorem Compatible.of_core (compatible : Compatible before) (same : after.core = before.core) :
    Compatible after := by
  have queues : after.queues = before.queues := congrArg Core.queues same
  have hash : after.lhb_hash = before.lhb_hash := congrArg QueueCore.lhb_hash queues
  have queue := congrFun (congrArg QueueCore.lbl_requests queues)
  have state := congrFun (congrArg Core.lrq_state same)
  simp only [Table.core, Table.queues] at queue state
  simp only [Compatible, hash, queue, state]
  exact compatible

end Transport

/-! ## Counting -/

theorem lockState_le (lbl_counts : Level → UInt16) {level : Level} (present : lbl_counts level ≠ 0) :
    level = .none ∨ level.code ≤ (lockState lbl_counts).code := by
  rw [lockState]
  cases level <;> simp_all <;> (repeat' split) <;> simp_all [Level.code]

theorem lockState_present (lbl_counts : Level → UInt16) :
    lockState lbl_counts = .none ∨ lbl_counts (lockState lbl_counts) ≠ 0 := by
  rw [lockState]
  (repeat' split) <;> simp_all

/-- What is compatible with a level is compatible with the weaker ones that are granted beside it. -/
theorem compatibility_weaker :
    ∀ requested weak strong : Level, weak.code ≤ strong.code → weak = strong ∨
      compatibility weak strong = true → compatibility requested strong = true →
        compatibility requested weak = true := by
  intro requested weak strong
  cases requested <;> cases weak <;> cases strong <;> decide

theorem compatibility_none : ∀ level : Level, compatibility level .none = true := by
  intro level
  cases level <;> rfl

theorem compatibility_comm : ∀ first second : Level,
    compatibility first second = compatibility second first := by
  intro first second
  cases first <;> cases second <;> rfl

/-- A request that fits the state of a lock fits every granted request. -/
theorem compatibility_of_lockState {lbl_counts : Level → UInt16} {requests : Nat → Request}
    {queue : List Nat} (counted : Counted lbl_counts requests queue) (small : queue.length < 65536)
    (compatible : ∀ first ∈ queue, ∀ second ∈ queue, first ≠ second →
      compatibility (requests first).lrq_state (requests second).lrq_state = true)
    {requested : Level} (fits : compatibility requested (lockState lbl_counts) = true) :
    ∀ request ∈ queue, compatibility requested (requests request).lrq_state = true := by
  intro request member
  rcases eq_or_ne (requests request).lrq_state .none with empty | level
  · rw [empty]
    exact compatibility_none requested
  have bound : ∀ level, granted requests queue level < 65536 := fun level =>
    Nat.lt_of_le_of_lt List.countP_le_length small
  have present : lbl_counts (requests request).lrq_state ≠ 0 := by
    have positive : 0 < granted requests queue (requests request).lrq_state :=
      List.countP_pos_iff.mpr ⟨request, member, by simp⟩
    have small := bound (requests request).lrq_state
    rw [counted _ level]
    intro zero
    have value := congrArg UInt16.toNat zero
    rw [UInt16.toNat_ofNat', Nat.mod_eq_of_lt small, UInt16.toNat_zero] at value
    omega
  have weaker := (lockState_le lbl_counts present).resolve_left level
  have strong : lockState lbl_counts ≠ .none := by
    intro empty
    rw [empty] at weaker
    cases state : (requests request).lrq_state <;> simp_all [Level.code]
  have found := (lockState_present lbl_counts).resolve_left strong
  have positive : 0 < granted requests queue (lockState lbl_counts) := by
    rcases Nat.eq_zero_or_pos (granted requests queue (lockState lbl_counts)) with zero | positive
    · rw [counted _ strong, zero] at found
      exact absurd rfl found
    · exact positive
  obtain ⟨other, other_member, other_state⟩ := List.countP_pos_iff.mp positive
  have other_state : (requests other).lrq_state = lockState lbl_counts := by simpa using other_state
  apply compatibility_weaker _ _ _ weaker _ fits
  rcases eq_or_ne request other with rfl | differ
  · exact .inl other_state
  · right
    rw [← other_state]
    exact compatible request member other other_member differ

/-- Counting over a queue in which one block was changed. -/
theorem countP_update {requests : Nat → Request} {queue : List Nat} (nodup : queue.Nodup)
    {request : Nat} (member : request ∈ queue) (block : Request) (test : Request → Bool) :
    queue.countP (fun other => test (Function.update requests request block other)) =
      (queue.erase request).countP (fun other => test (requests other)) +
        if test block then 1 else 0 := by
  have split := (List.perm_cons_erase member).countP_eq fun other =>
    test (Function.update requests request block other)
  rw [split, List.countP_cons, Function.update_self]
  congr 1
  apply List.countP_congr
  intro other found
  have differ : other ≠ request := by
    rintro rfl
    exact nodup.not_mem_erase found
  rw [Function.update_of_ne differ]

theorem countP_update_of_notMem {requests : Nat → Request} {queue : List Nat} {request : Nat}
    (absent : request ∉ queue) (block : Request) (test : Request → Bool) :
    queue.countP (fun other => test (Function.update requests request block other)) =
      queue.countP fun other => test (requests other) := by
  apply List.countP_congr
  intro other found
  have differ : other ≠ request := by
    rintro rfl
    exact absent found
  rw [Function.update_of_ne differ]

theorem countP_erase_add {requests : Nat → Request} {queue : List Nat} {request : Nat}
    (member : request ∈ queue) (test : Request → Bool) :
    queue.countP (fun other => test (requests other)) =
      (queue.erase request).countP (fun other => test (requests other)) +
        if test (requests request) then 1 else 0 := by
  rw [(List.perm_cons_erase member).countP_eq, List.countP_cons]

theorem granted_congr {first second : Nat → Request} {queue : List Nat}
    (same : ∀ request ∈ queue, (first request).lrq_state = (second request).lrq_state)
    (level : Level) : granted first queue level = granted second queue level := by
  apply List.countP_congr
  intro request member
  rw [same request member]

theorem granted_erase_add {requests : Nat → Request} {queue : List Nat} {request : Nat}
    (member : request ∈ queue) (level : Level) :
    granted requests queue level = granted requests (queue.erase request) level +
      if (requests request).lrq_state = level then 1 else 0 := by
  rw [granted, countP_erase_add member fun block => decide (block.lrq_state = level), granted]
  simp only [decide_eq_true_eq]

theorem increment_apply (lbl_counts : Level → UInt16) (level other : Level) :
    increment lbl_counts level other =
      lbl_counts other + UInt16.ofNat (if level = other then 1 else 0) := by
  rw [increment, Function.update_apply]
  rcases eq_or_ne other level with rfl | differ
  · rw [if_pos rfl, if_pos rfl]
    rfl
  · rw [if_neg differ, if_neg differ.symm]
    simp

/-! ## A request stops being pending -/

namespace Table

variable (table : Table) (request : Nat)

@[simp] theorem requests_clearPending :
    (table.clearPending request).requests =
      Function.update table.requests request { table.requests request with pending := false } :=
  rfl

@[simp] theorem lhb_hash_clearPending : (table.clearPending request).lhb_hash = table.lhb_hash :=
  rfl

@[simp] theorem lhb_owners_clearPending :
    (table.clearPending request).lhb_owners = table.lhb_owners :=
  rfl

theorem locks_clearPending :
    (table.clearPending request).locks =
      Function.update table.locks (table.requests request).lrq_lock
        { table.locks (table.requests request).lrq_lock with
          lbl_pending_lrq_count :=
            (table.locks (table.requests request).lrq_lock).lbl_pending_lrq_count - 1 } :=
  rfl

theorem owners_clearPending :
    (table.clearPending request).owners =
      Function.update table.owners (table.requests request).lrq_owner
        { table.owners (table.requests request).lrq_owner with
          own_pending :=
            (table.owners (table.requests request).lrq_owner).own_pending.erase request } :=
  rfl

@[simp] theorem lbl_requests_clearPending (lock : Nat) :
    ((table.clearPending request).locks lock).lbl_requests = (table.locks lock).lbl_requests := by
  rw [locks_clearPending]
  apply field_update Lock.lbl_requests
  rfl

@[simp] theorem lbl_counts_clearPending (lock : Nat) :
    ((table.clearPending request).locks lock).lbl_counts = (table.locks lock).lbl_counts := by
  rw [locks_clearPending]
  apply field_update Lock.lbl_counts
  rfl

@[simp] theorem lbl_state_clearPending (lock : Nat) :
    ((table.clearPending request).locks lock).lbl_state = (table.locks lock).lbl_state := by
  rw [locks_clearPending]
  apply field_update Lock.lbl_state
  rfl

@[simp] theorem own_requests_clearPending (owner : Nat) :
    ((table.clearPending request).owners owner).own_requests =
      (table.owners owner).own_requests := by
  rw [owners_clearPending]
  apply field_update Owner.own_requests
  rfl

@[simp] theorem own_blocks_clearPending (owner : Nat) :
    ((table.clearPending request).owners owner).own_blocks = (table.owners owner).own_blocks := by
  rw [owners_clearPending]
  apply field_update Owner.own_blocks
  rfl

theorem own_pending_clearPending (owner : Nat) :
    ((table.clearPending request).owners owner).own_pending =
      if owner = (table.requests request).lrq_owner then
        (table.owners owner).own_pending.erase request
      else (table.owners owner).own_pending := by
  rw [owners_clearPending]
  split
  · next same => rw [same, Function.update_self]
  · next differ => rw [Function.update_of_ne differ]

theorem pending_count_clearPending (lock : Nat) :
    ((table.clearPending request).locks lock).lbl_pending_lrq_count =
      if lock = (table.requests request).lrq_lock then
        (table.locks lock).lbl_pending_lrq_count - 1
      else (table.locks lock).lbl_pending_lrq_count := by
  rw [locks_clearPending]
  split
  · next same => rw [same, Function.update_self]
  · next differ => rw [Function.update_of_ne differ]

variable {table request}

theorem field_clearPending {α : Type*} (field : Request → α) (other : Nat)
    (same : ∀ block : Request, field { block with pending := false } = field block) :
    field (Function.update table.requests request
      { table.requests request with pending := false } other) = field (table.requests other) :=
  field_update field table.requests request _ (same _) other

end Table

theorem Queues.clearPending {table : Table} {request : Nat} (queues : Queues table)
    (live : (table.requests request).Live) (pending : (table.requests request).pending = true) :
    Queues (table.clearPending request) := by
  have alive := fun other => @Table.field_clearPending table request _ Request.Live other
    fun _ => rfl
  have in_use := fun other => @Table.field_clearPending table request _ Request.in_use other
    fun _ => rfl
  have repost := fun other => @Table.field_clearPending table request _ Request.repost other
    fun _ => rfl
  have blocking := fun other => @Table.field_clearPending table request _ Request.blocking other
    fun _ => rfl
  have lock_of := fun other => @Table.field_clearPending table request _ Request.lrq_lock other
    fun _ => rfl
  have owner_of := fun other => @Table.field_clearPending table request _ Request.lrq_owner other
    fun _ => rfl
  constructor
  case hash_nodup => exact queues.hash_nodup
  case owners_nodup => exact queues.owners_nodup
  case queue_nodup => simpa using queues.queue_nodup
  case queued => simpa [alive, lock_of] using queues.queued
  case on_lock => simpa [alive, lock_of] using queues.on_lock
  case own_nodup => simpa using queues.own_nodup
  case owned => simpa [alive, owner_of] using queues.owned
  case on_owner => simpa [alive, owner_of] using queues.on_owner
  case blocks_nodup => simpa using queues.blocks_nodup
  case blocks_owned => simpa [in_use, repost, blocking, owner_of] using queues.blocks_owned
  case pending_nodup =>
      intro owner active
      rw [Table.own_pending_clearPending]
      split
      · exact (queues.pending_nodup owner active).erase request
      · exact queues.pending_nodup owner active
  case pending_owned =>
      intro owner active other
      rw [Table.own_pending_clearPending, Table.requests_clearPending, alive, owner_of]
      intro member
      have found : other ∈ (table.owners owner).own_pending := by
        split at member
        · exact List.mem_of_mem_erase member
        · exact member
      obtain ⟨alive_other, owner_other, waits⟩ := queues.pending_owned owner active other found
      refine ⟨alive_other, owner_other, ?_⟩
      rcases eq_or_ne other request with rfl | differ
      · rw [if_pos owner_other.symm] at member
        exact absurd member (queues.pending_nodup owner active).not_mem_erase
      · rw [Function.update_of_ne differ]
        exact waits
  case on_pending =>
      intro other
      rw [Table.requests_clearPending, alive, owner_of, Table.own_pending_clearPending]
      intro alive_other waits
      rcases eq_or_ne other request with rfl | differ
      · rw [Function.update_self] at waits
        exact absurd waits Bool.false_ne_true
      · rw [Function.update_of_ne differ] at waits
        have found := queues.on_pending other alive_other waits
        split
        · exact (List.mem_erase_of_ne differ).mpr found
        · exact found
  case pending_count =>
      intro lock used
      rw [Table.pending_count_clearPending, Table.requests_clearPending,
        Table.lbl_requests_clearPending]
      have before := queues.pending_count lock used
      split
      · next same =>
          have member : request ∈ (table.locks lock).lbl_requests := by
            rw [same]
            exact (queues.on_lock request live).2
          rw [countP_update (queues.queue_nodup lock used) member _ Request.pending, before,
            countP_erase_add member Request.pending, pending]
          simp
      · next differ =>
          have absent : request ∉ (table.locks lock).lbl_requests := fun member =>
            differ (queues.queued lock used request member).2.symm
          rw [countP_update_of_notMem absent _ Request.pending, before]

theorem Wellformed.clearPending {table : Table} {request : Nat} (wellformed : Wellformed strict table)
    (live : (table.requests request).Live) (pending : (table.requests request).pending = true) :
    Wellformed strict (table.clearPending request) := by
  have state := fun other => @Table.field_clearPending table request _ Request.lrq_state other
    fun _ => rfl
  refine { wellformed.toQueues.clearPending live pending with counts := ?_, state := ?_ }
  · simpa [Counted, granted, state] using wellformed.counts
  · simpa using wellformed.state

theorem Compatible.clearPending {table : Table} {request : Nat} (compatible : Compatible table) :
    Compatible (table.clearPending request) := by
  have state := fun other => @Table.field_clearPending table request _ Request.lrq_state other
    fun _ => rfl
  simpa [Compatible, state] using compatible

/-! ## Granting a request -/

/-- The lock table while a request is left out of the counts of its lock. -/
structure Ready (strict : Prop) (table : Table) (request : Nat) : Prop extends Queues table where
  live : (table.requests request).Live
  counts : ∀ lock ∈ table.lhb_hash,
    Counted (table.locks lock).lbl_counts table.requests
      (if lock = (table.requests request).lrq_lock then
        (table.locks lock).lbl_requests.erase request
      else (table.locks lock).lbl_requests)
  state : strict → ∀ lock ∈ table.lhb_hash, lock ≠ (table.requests request).lrq_lock →
    (table.locks lock).lbl_state = lockState (table.locks lock).lbl_counts

/-- The fields that `grant` settles before it takes the request off the pending queue. -/
structure Settled (table : Table) (request : Nat) (after : Table) : Prop where
  queues : after.queues = table.queues
  counts : ∀ lock, (after.locks lock).lbl_counts =
    if lock = (table.requests request).lrq_lock then
      increment (table.locks lock).lbl_counts (table.requests request).lrq_requested
    else (table.locks lock).lbl_counts
  state : ∀ lock, (after.locks lock).lbl_state =
    if lock = (table.requests request).lrq_lock then lockState (after.locks lock).lbl_counts
    else (table.locks lock).lbl_state
  granted : ∀ other, (after.requests other).lrq_state =
    if other = request then (table.requests request).lrq_requested
    else (table.requests other).lrq_state

theorem grant_settled (table : Table) (request : Nat) :
    ∃ after owner, Settled table request after ∧
      table.grant request =
        (if (after.requests request).pending then after.clearPending request
          else after).postWakeup owner := by
  refine ⟨_, _, ?_, rfl⟩
  have data := @Table.core_grantData ((table.setLock (table.requests request).lrq_lock fun block =>
    { block with lbl_counts := increment block.lbl_counts (table.requests request).lrq_requested
      }).setRequest request fun block =>
        { block with lrq_state := (table.requests request).lrq_requested }) request
  have counts := congrFun (congrArg Core.lbl_counts data)
  have state := congrFun (congrArg Core.lbl_state data)
  have granted := congrFun (congrArg Core.lrq_state data)
  simp only [Table.core] at counts state granted
  constructor
  case queues =>
      rw [Table.queues_setLock _ _ rfl rfl]
      refine (congrArg Core.queues data).trans ?_
      change Table.queues (Table.setRequest (Table.setLock _ _ _) _ _) = _
      rw [Table.queues_setRequest, Table.queues_setLock _ _ rfl rfl]
      rfl
  case counts =>
      intro lock
      have found := counts lock
      rw [Table.locks_setRequest, Table.locks_setLock] at found
      rw [Table.locks_setLock]
      split
      · next same =>
          subst same
          rw [if_pos rfl] at found
          exact found
      · next differ =>
          rw [if_neg differ] at found
          exact found
  case state =>
      intro lock
      have found := state lock
      rw [Table.locks_setRequest, Table.locks_setLock] at found
      rw [Table.locks_setLock]
      split
      · next same => rfl
      · next differ =>
          rw [if_neg differ] at found
          exact found
  case granted =>
      intro other
      have found := granted other
      rw [Table.requests_setRequest] at found
      rw [Table.requests_setLock]
      refine found.trans ?_
      split
      · rfl
      · rfl

theorem Settled.wellformed {table after : Table} {request : Nat} (ready : Ready strict table request)
    (settled : Settled table request after) : Wellformed strict after := by
  have queues := ready.toQueues.of_queues settled.queues
  have hash : after.lhb_hash = table.lhb_hash := congrArg QueueCore.lhb_hash settled.queues
  have queue : ∀ lock, (after.locks lock).lbl_requests = (table.locks lock).lbl_requests :=
    congrFun (congrArg QueueCore.lbl_requests settled.queues)
  refine { queues with counts := ?_, state := ?_ }
  · intro lock used level nonempty
    rw [hash] at used
    have counted := ready.counts lock used level nonempty
    have others : ∀ other, other ≠ request →
        (after.requests other).lrq_state = (table.requests other).lrq_state := fun other differ => by
      rw [settled.granted, if_neg differ]
    rw [settled.counts, queue]
    split
    · next same =>
        have member : request ∈ (table.locks lock).lbl_requests := by
          rw [same]
          exact (ready.on_lock request ready.live).2
        have rest := @granted_congr after.requests table.requests
          ((table.locks lock).lbl_requests.erase request) (fun other found => others other (by
            rintro rfl
            exact (ready.queue_nodup lock used).not_mem_erase found)) level
        rw [if_pos same] at counted
        rw [granted_erase_add member, rest, settled.granted, if_pos rfl, increment_apply, counted,
          UInt16.ofNat_add]
    · next differ =>
        have rest := @granted_congr after.requests table.requests (table.locks lock).lbl_requests
          (fun other found => others other (by
            rintro rfl
            exact differ (ready.queued lock used other found).2.symm)) level
        rw [if_neg differ] at counted
        rw [rest, counted]
  · intro exactly lock used
    rw [hash] at used
    rw [settled.state]
    split
    · rfl
    · next differ =>
        rw [ready.state exactly lock used differ, settled.counts, if_neg differ]

theorem Settled.live {table after : Table} {request : Nat}
    (settled : Settled table request after) (other : Nat) :
    (after.requests other).Live ↔ (table.requests other).Live := by
  have placement := congrFun (congrArg QueueCore.placement settled.queues) other
  have in_use : (after.requests other).in_use = (table.requests other).in_use :=
    congrArg Placement.in_use placement
  have repost : (after.requests other).repost = (table.requests other).repost :=
    congrArg Placement.repost placement
  rw [Request.Live, Request.Live, in_use, repost]

theorem Ready.grant {table : Table} {request : Nat} (ready : Ready strict table request) :
    Wellformed strict (table.grant request) := by
  obtain ⟨after, owner, settled, grant_eq⟩ := grant_settled table request
  have wellformed := settled.wellformed ready
  have live := (settled.live request).mpr ready.live
  rw [grant_eq]
  apply Wellformed.of_core _ (Table.core_postWakeup owner)
  split
  · next pending => exact wellformed.clearPending live pending
  · exact wellformed

/-- A granted request keeps the others compatible if it fits all of them. -/
theorem Ready.grant_compatible {table : Table} {request : Nat} (ready : Ready strict table request)
    (compatible : ∀ lock ∈ table.lhb_hash, ∀ first ∈ (table.locks lock).lbl_requests,
      ∀ second ∈ (table.locks lock).lbl_requests, first ≠ request → second ≠ request →
        first ≠ second →
          compatibility (table.requests first).lrq_state (table.requests second).lrq_state = true)
    (fits : ∀ other ∈ (table.locks (table.requests request).lrq_lock).lbl_requests,
      other ≠ request → compatibility (table.requests request).lrq_requested
        (table.requests other).lrq_state = true) :
    Compatible (table.grant request) := by
  obtain ⟨after, owner, settled, grant_eq⟩ := grant_settled table request
  have hash : after.lhb_hash = table.lhb_hash := congrArg QueueCore.lhb_hash settled.queues
  have queue : ∀ lock, (after.locks lock).lbl_requests = (table.locks lock).lbl_requests :=
    congrFun (congrArg QueueCore.lbl_requests settled.queues)
  have settled_compatible : Compatible after := by
    intro lock used first first_member second second_member differ
    rw [hash] at used
    rw [queue] at first_member second_member
    rw [settled.granted, settled.granted]
    split
    · next same =>
        subst same
        have own_lock := (ready.queued lock used first first_member).2
        rw [if_neg differ.symm]
        exact fits second (by rw [own_lock]; exact second_member) differ.symm
    · next first_differs =>
        split
        · next same =>
            subst same
            have own_lock := (ready.queued lock used second second_member).2
            rw [compatibility_comm]
            exact fits first (by rw [own_lock]; exact first_member) first_differs
        · next second_differs =>
            exact compatible lock used first first_member second second_member first_differs
              second_differs differ
  rw [grant_eq]
  apply Compatible.of_core _ (Table.core_postWakeup owner)
  split
  · exact settled_compatible.clearPending
  · exact settled_compatible

/-! ## Granting what is pending -/

/-- The queues of the locks stay as they are. -/
structure Kept (before after : Table) : Prop where
  hash : after.lhb_hash = before.lhb_hash
  active : after.lhb_owners = before.lhb_owners
  queue : ∀ lock, (after.locks lock).lbl_requests = (before.locks lock).lbl_requests
  live : ∀ request, (after.requests request).Live ↔ (before.requests request).Live
  lock : ∀ request, (after.requests request).lrq_lock = (before.requests request).lrq_lock
  owner : ∀ request, (after.requests request).lrq_owner = (before.requests request).lrq_owner

namespace Kept

variable {before middle after : Table}

theorem refl (table : Table) : Kept table table :=
  ⟨rfl, rfl, fun _ => rfl, fun _ => Iff.rfl, fun _ => rfl, fun _ => rfl⟩

theorem trans (first : Kept before middle) (second : Kept middle after) : Kept before after :=
  ⟨second.hash.trans first.hash, second.active.trans first.active,
    fun lock => (second.queue lock).trans (first.queue lock),
    fun request => (second.live request).trans (first.live request),
    fun request => (second.lock request).trans (first.lock request),
    fun request => (second.owner request).trans (first.owner request)⟩

theorem of_queues (same : after.queues = before.queues) : Kept before after := by
  have placement := congrFun (congrArg QueueCore.placement same)
  refine ⟨congrArg QueueCore.lhb_hash same, congrArg QueueCore.lhb_owners same,
    congrFun (congrArg QueueCore.lbl_requests same), ?_,
    fun request => congrArg Placement.lrq_lock (placement request),
    fun request => congrArg Placement.lrq_owner (placement request)⟩
  intro request
  have in_use : (after.requests request).in_use = (before.requests request).in_use :=
    congrArg Placement.in_use (placement request)
  have repost : (after.requests request).repost = (before.requests request).repost :=
    congrArg Placement.repost (placement request)
  rw [Request.Live, Request.Live, in_use, repost]

theorem of_core (same : after.core = before.core) : Kept before after :=
  of_queues (congrArg Core.queues same)

theorem clearPending (table : Table) (request : Nat) : Kept table (table.clearPending request) := by
  refine ⟨rfl, rfl, Table.lbl_requests_clearPending table request, fun other => ?_, fun other => ?_,
    fun other => ?_⟩
  · have same := @Table.field_clearPending table request _ Request.Live other fun _ => rfl
    rw [Table.requests_clearPending, same]
  · exact @Table.field_clearPending table request _ Request.lrq_lock other fun _ => rfl
  · exact @Table.field_clearPending table request _ Request.lrq_owner other fun _ => rfl

theorem grant (table : Table) (request : Nat) : Kept table (table.grant request) := by
  obtain ⟨after, owner, settled, grant_eq⟩ := grant_settled table request
  rw [grant_eq]
  refine (of_queues settled.queues).trans (.trans ?_ (of_core (Table.core_postWakeup owner)))
  split
  · exact clearPending after request
  · exact refl after

theorem withdraw (table : Table) (lock request : Nat) :
    Kept table (table.withdraw lock request) :=
  of_queues (Table.queues_setLock _ _ rfl rfl)

theorem countable (kept : Kept before after) (countable : Countable before) : Countable after := by
  intro lock used
  rw [kept.hash] at used
  rw [kept.queue]
  exact countable lock used

end Kept

theorem decrement_apply (lbl_counts : Level → UInt16) (level other : Level) :
    decrement lbl_counts level other =
      lbl_counts other - UInt16.ofNat (if level = other then 1 else 0) := by
  rw [decrement, Function.update_apply]
  rcases eq_or_ne other level with rfl | differ
  · rw [if_pos rfl, if_pos rfl]
    rfl
  · rw [if_neg differ, if_neg differ.symm]
    simp

/-- Taking a request out of the counts of its lock. -/
theorem Counted.decrement {lbl_counts : Level → UInt16} {requests : Nat → Request}
    {queue : List Nat} {request : Nat} (counted : Counted lbl_counts requests queue)
    (member : request ∈ queue) :
    Counted (decrement lbl_counts (requests request).lrq_state) requests (queue.erase request) := by
  intro level nonempty
  rw [decrement_apply, counted level nonempty, granted_erase_add member, UInt16.ofNat_add]
  simp

/-- A request without a state is in no count that matters. -/
theorem Counted.erase {lbl_counts : Level → UInt16} {requests : Nat → Request}
    {queue : List Nat} {request : Nat} (counted : Counted lbl_counts requests queue)
    (member : request ∈ queue) (empty : (requests request).lrq_state = .none) :
    Counted lbl_counts requests (queue.erase request) := by
  intro level nonempty
  rw [counted level nonempty, granted_erase_add member, empty, if_neg nonempty.symm, Nat.add_zero]

namespace Wellformed

variable {table : Table} {request : Nat} (wellformed : Wellformed strict table)
include wellformed

theorem ready_new (live : (table.requests request).Live)
    (empty : (table.requests request).lrq_state = .none) : Ready strict table request := by
  refine { wellformed.toQueues with live := live, counts := ?_, state := ?_ }
  · intro lock used
    split
    · next same =>
        apply (wellformed.counts lock used).erase _ empty
        rw [same]
        exact (wellformed.on_lock request live).2
    · exact wellformed.counts lock used
  · exact fun exactly lock used _ => wellformed.state exactly lock used

theorem ready_conversion (live : (table.requests request).Live) :
    Ready strict (table.withdraw (table.requests request).lrq_lock request) request := by
  refine { wellformed.toQueues.of_queues (Table.queues_setLock _ _ rfl rfl) with
    live := live, counts := ?_, state := ?_ }
  · intro lock used
    rw [Table.withdraw, Table.requests_setLock, Table.locks_setLock]
    split
    · next same =>
        subst same
        exact (wellformed.counts _ used).decrement (wellformed.on_lock request live).2
    · exact wellformed.counts lock used
  · intro exactly lock used differ
    rw [Table.withdraw, Table.requests_setLock] at differ
    rw [Table.withdraw, Table.locks_setLock, if_neg differ]
    exact wellformed.state exactly lock used

end Wellformed

theorem Kept.grantPending {lock : Nat} (queue : List Nat) (table : Table) :
    Kept table (Table.grantPending lock queue table) := by
  induction queue generalizing table with
  | nil => exact refl table
  | cons request queue ih =>
      rw [Table.grantPending]
      dsimp only
      split
      · exact ih table
      split
      · split
        · exact .trans (withdraw table lock request) (.trans (Kept.grant _ request) (ih _))
        · exact of_core (Table.core_postWakeup _)
      · split
        · exact .trans (Kept.grant _ request) (ih _)
        · exact of_core (Table.core_postWakeup _)

/-- The requests of a lock other than one of them. -/
theorem length_erase_lt {table : Table} {lock request : Nat} (countable : Countable table)
    (used : lock ∈ table.lhb_hash) (member : request ∈ (table.locks lock).lbl_requests) :
    ((table.locks lock).lbl_requests.erase request).length < 65536 := by
  have bound := countable lock used
  have positive := List.length_pos_of_mem member
  rw [List.length_erase_of_mem member]
  omega

theorem Compatible.withdraw {table : Table} (compatible : Compatible table) (lock request : Nat) :
    Compatible (table.withdraw lock request) := by
  have kept := Kept.withdraw table lock request
  intro other used first first_member second second_member differ
  rw [kept.queue] at first_member second_member
  exact compatible other used first first_member second second_member differ

/-- A request that fits what is left of its lock keeps the lock compatible. -/
theorem Ready.grant_fits {table : Table} {request : Nat} (ready : Ready strict table request)
    (compatible : Compatible table) (countable : Countable table)
    (fits : compatibility (table.requests request).lrq_requested
      (lockState (table.locks (table.requests request).lrq_lock).lbl_counts) = true) :
    Compatible (table.grant request) := by
  obtain ⟨used, member⟩ := ready.on_lock request ready.live
  have counted := ready.counts _ used
  rw [if_pos rfl] at counted
  have nodup := ready.queue_nodup _ used
  have fits_others := compatibility_of_lockState counted (length_erase_lt countable used member)
    (fun first first_member second second_member differ =>
      compatible _ used first (List.mem_of_mem_erase first_member) second
        (List.mem_of_mem_erase second_member) differ) fits
  apply ready.grant_compatible
  · exact fun lock active first first_member second second_member _ _ differ =>
      compatible lock active first first_member second second_member differ
  · exact fun other found differ => fits_others other ((List.mem_erase_of_ne differ).mpr found)

theorem Wellformed.grantPending {lock : Nat} (queue : List Nat) {table : Table}
    (wellformed : Wellformed strict table) (used : lock ∈ table.lhb_hash)
    (inside : ∀ request ∈ queue, request ∈ (table.locks lock).lbl_requests) :
    Wellformed strict (Table.grantPending lock queue table) ∧
      (strict → Compatible table → Countable table →
        Compatible (Table.grantPending lock queue table)) := by
  induction queue generalizing table with
  | nil => exact ⟨wellformed, fun _ compatible _ => compatible⟩
  | cons request queue ih =>
      have member := inside request List.mem_cons_self
      have others := fun other found => inside other (List.mem_cons_of_mem _ found)
      obtain ⟨live, rfl⟩ := wellformed.queued lock used request member
      have skip := @Table.core_postWakeup table (table.requests request).lrq_owner
      have wake : Wellformed strict (table.postWakeup (table.requests request).lrq_owner) ∧
          (strict → Compatible table → Countable table →
            Compatible (table.postWakeup (table.requests request).lrq_owner)) :=
        ⟨wellformed.of_core skip, fun _ compatible _ => compatible.of_core skip⟩
      rw [Table.grantPending]
      dsimp only
      split
      · exact ih wellformed used others
      split
      · split
        · next fits =>
            have ready := wellformed.ready_conversion live
            have withdrawn := Kept.withdraw table (table.requests request).lrq_lock request
            have kept := withdrawn.trans (Kept.grant _ request)
            obtain ⟨sound, agree⟩ := ih ready.grant (by rw [kept.hash]; exact used) (by
              intro other found
              rw [kept.queue]
              exact others other found)
            refine ⟨sound, fun exactly compatible countable =>
              agree exactly ?_ (kept.countable countable)⟩
            exact ready.grant_fits (compatible.withdraw _ request) (withdrawn.countable countable)
              fits
        · exact wake
      · split
        · next empty fits =>
            have ready := wellformed.ready_new live (not_not.mp empty)
            have kept := Kept.grant table request
            obtain ⟨sound, agree⟩ := ih ready.grant (by rw [kept.hash]; exact used) (by
              intro other found
              rw [kept.queue]
              exact others other found)
            refine ⟨sound, fun exactly compatible countable =>
              agree exactly ?_ (kept.countable countable)⟩
            apply ready.grant_fits compatible countable
            rw [← wellformed.state exactly _ used]
            exact fits
        · exact wake

theorem Kept.postPending (table : Table) (lock : Nat) : Kept table (table.postPending lock) := by
  rw [Table.postPending]
  split
  · exact refl table
  · dsimp only
    split
    · exact .trans (Kept.grantPending _ table) (of_core (Table.core_markGranted _))
    · exact Kept.grantPending _ table

theorem Wellformed.postPending {table : Table} (wellformed : Wellformed strict table) {lock : Nat}
    (used : lock ∈ table.lhb_hash) :
    Wellformed strict (table.postPending lock) ∧
      (strict → Compatible table → Countable table → Compatible (table.postPending lock)) := by
  have loop := wellformed.grantPending (table.locks lock).lbl_requests used fun _ member => member
  rw [Table.postPending]
  split
  · exact ⟨wellformed, fun _ compatible _ => compatible⟩
  · dsimp only
    split
    · exact ⟨loop.1.of_core (Table.core_markGranted _), fun exactly compatible countable =>
        (loop.2 exactly compatible countable).of_core (Table.core_markGranted _)⟩
    · exact loop

end LockManager
end Firebird
