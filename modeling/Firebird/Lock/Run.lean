import Firebird.Lock.Deadlock
import Firebird.Lock.Enqueue

/-!
# Runs of the lock manager

Threads enter the lock manager one at a time.  A step is what one of them does between two points at
which it lets go of the lock table: an entry point, a turn of the loop that waits for a request, or
a turn of the loop that calls blocking routines.
-/

namespace Firebird
namespace LockManager

namespace Table

/-- A block that has never been used. -/
def blankOwner : Owner where
  own_count := 0
  own_requests := []
  own_blocks := []
  own_pending := []
  own_waits := 0
  scanned := false
  wakeup := false
  signaled := false

/-- The lock table that `initialize` sets up. -/
def initial : Table where
  lhb_owners := []
  lhb_hash := []
  lhb_data := fun _ => []
  owners := fun _ => blankOwner
  locks := fun _ => newLock 0 [] .none 0
  requests := fun _ => { newRequest .none false 0 with in_use := false }

/-- The prior request of `enqueue` is given back. -/
def giveBack (table : Table) : Option Nat → Table
  | none => table
  | some prior => table.internalDequeue prior

theorem allocRequest_giveBack (table : Table) (prior : Option Nat) (request : Nat) (type : Level)
    (ast_routine : Bool) (owner : Nat) :
    table.allocRequest prior request type ast_routine owner =
      (table.giveBack prior).allocRequest none request type ast_routine owner := by
  cases prior <;> rfl

end Table

/-- One step of a thread. -/
inductive Step : Table → Table → Prop
  /-- `initializeOwner`. -/
  | createOwner {table owner} : owner ∉ table.lhb_owners → Step table (table.createOwner owner)
  /-- `initializeOwner` for an owner that has been initialized. -/
  | useOwner {table owner} : Step table
      (table.setOwner owner fun block => { block with own_count := block.own_count + 1 })
  /-- The first part of `shutdownOwner`. -/
  | leaveOwner {table owner} : (table.owners owner).own_count ≠ 0 → Step table
      (table.setOwner owner fun block => { block with own_count := block.own_count - 1 })
  /-- `purge_owner`, at shutdown or because the process of the owner is gone. -/
  | purgeOwner {table owner} : owner ∈ table.lhb_owners → Step table (table.purgeOwner owner)
  /-- `enqueue` when no request block can be allocated. -/
  | noRequest {table prior} : (table.requests prior).Live → Step table (table.internalDequeue prior)
  /-- `enqueue` on a lock that exists. -/
  | enqueueLock {table prior request owner lock series value type ast_routine data lck_wait} :
      owner ∈ table.lhb_owners → (table.owners owner).own_count ≠ 0 →
      (∀ block, prior = some block → (table.requests block).Live) →
      ((table.giveBack prior).requests request).in_use = false →
      (table.allocRequest prior request type ast_routine owner).findLock series value = some lock →
      Step table ((table.allocRequest prior request type ast_routine owner).enqueueLock request lock
        data lck_wait).1
  /-- `enqueue` on a lock that does not exist yet. -/
  | createLock {table prior request owner lock series value type ast_routine data} :
      owner ∈ table.lhb_owners → (table.owners owner).own_count ≠ 0 →
      (∀ block, prior = some block → (table.requests block).Live) →
      ((table.giveBack prior).requests request).in_use = false →
      (table.allocRequest prior request type ast_routine owner).findLock series value = none →
      lock ∉ (table.giveBack prior).lhb_hash →
      Step table ((table.allocRequest prior request type ast_routine owner).createLock request lock
        series value type data)
  /-- `enqueue` when no lock block can be allocated. -/
  | dropRequest {table prior request owner type ast_routine} :
      owner ∈ table.lhb_owners → (table.owners owner).own_count ≠ 0 →
      (∀ block, prior = some block → (table.requests block).Live) →
      ((table.giveBack prior).requests request).in_use = false →
      Step table ((table.allocRequest prior request type ast_routine owner).dropRequest request)
  /-- The end of an `enqueue` that had to wait. -/
  | enqueueWoken {table request} : (table.requests request).Live →
      (table.requests request).pending = false → Step table (table.enqueueWoken request).1
  /-- `convert`; a request can only be waited for once. -/
  | convert {table request type lck_wait ast_routine} : (table.requests request).Live →
      (table.owners (table.requests request).lrq_owner).own_count ≠ 0 →
      table.MayWait request lck_wait →
      Step table (table.internalConvert request type lck_wait ast_routine).1
  /-- The end of a `convert` that had to wait. -/
  | convertWoken {table request ast_routine} : (table.requests request).Live →
      (table.requests request).pending = false →
      Step table (table.convertWoken request ast_routine).1
  /-- `downgrade`. -/
  | downgrade {table request} : (table.requests request).Live →
      (table.owners (table.requests request).lrq_owner).own_count ≠ 0 →
      Step table (table.downgrade request)
  /-- `dequeue`. -/
  | dequeue {table request} : (table.requests request).Live →
      (table.owners (table.requests request).lrq_owner).own_count ≠ 0 →
      Step table (table.internalDequeue request)
  /-- `writeData`. -/
  | writeData {table request data} : (table.requests request).Live →
      Step table (table.writeData request data)
  /-- `repost`. -/
  | repost {table request owner} : owner ∈ table.lhb_owners →
      (table.requests request).in_use = false → Step table (table.repost request owner)
  /-- A turn of `blocking_action`. -/
  | blockingAction {table owner} : owner ∈ table.lhb_owners →
      Step table (table.blockingAction owner)
  /-- `cancelWait`. -/
  | cancelWait {table owner} : Step table (table.postWakeup owner)
  /-- A waiting thread has been woken up. -/
  | awake {table owner} : Step table
      (table.setOwner owner fun block => { block with wakeup := false })
  /-- A waiting thread gives up, after its timeout or because it is cancelled. -/
  | timeout {table request} : (table.requests request).Live →
      (table.requests request).pending = true → Step table (table.reject request)
  /-- A waiting thread tells the owners in its way again. -/
  | postBlockage {table request} : (table.requests request).Live →
      (table.requests request).pending = true → Step table (table.postBlockage request)
  /-- The deadlock scan of a waiting thread finds a victim. -/
  | deadlock {table request victim} : (table.requests request).Live →
      (table.requests request).pending = true → (table.requests request).wait_timeout = false →
      (table.owners (table.requests request).lrq_owner).scanned = false →
      (table.deadlockScan request).1 = some victim →
      Step table ((table.deadlockScan request).2.rejectVictim request victim)
  /-- The deadlock scan of a waiting thread finds none. -/
  | noDeadlock {table request} : (table.requests request).Live →
      (table.requests request).pending = true → (table.requests request).wait_timeout = false →
      (table.owners (table.requests request).lrq_owner).scanned = false →
      (table.deadlockScan request).1 = none →
      Step table ((table.deadlockScan request).2.postBlockage request)

/-- The tables of the runs whose states are all allowed. -/
inductive Reachable (allowed : Table → Prop) : Table → Prop
  | initial : allowed .initial → Reachable allowed .initial
  | step {before after} : Reachable allowed before → Step before after → allowed after →
      Reachable allowed after

variable {strict : Prop}

theorem Sound.preserved {before after : Table} (sound : Sound strict before after)
    (bounded : strict → Bounded before) : Preserved strict before after :=
  ⟨sound.wellformed, fun exactly compatible =>
    sound.compatible exactly compatible (bounded exactly).countable⟩

theorem Preserved.trans {before middle after : Table} (first : Preserved strict before middle)
    (second : Preserved strict middle after) : Preserved strict before after :=
  ⟨second.wellformed, fun exactly compatible =>
    second.compatible exactly (first.compatible exactly compatible)⟩

theorem Wellformed.initial : Wellformed strict .initial := by
  have dead : ∀ request, ¬(Table.initial.requests request).Live := fun _ live =>
    Bool.false_ne_true live.1
  constructor
  case toQueues =>
      constructor
      case hash_nodup => exact List.nodup_nil
      case owners_nodup => exact List.nodup_nil
      case on_lock => exact fun request live => absurd live (dead request)
      case on_owner => exact fun request live => absurd live (dead request)
      case on_pending => exact fun request live => absurd live (dead request)
      all_goals exact fun _ member => absurd member List.not_mem_nil
  case counts => exact fun _ member => absurd member List.not_mem_nil
  case state => exact fun _ _ member => absurd member List.not_mem_nil

/-- What is left when the prior request has been given back. -/
structure GaveBack (strict : Prop) (before after : Table) : Prop where
  preserved : Preserved strict before after
  bounded : strict → Bounded after
  active : after.lhb_owners = before.lhb_owners

theorem Wellformed.giveBack {table : Table} {prior : Option Nat}
    (wellformed : Wellformed strict table) (bounded : strict → Bounded table)
    (live : ∀ block, prior = some block → (table.requests block).Live) :
    GaveBack strict table (table.giveBack prior) := by
  cases prior with
  | none => exact ⟨⟨wellformed, fun _ => id⟩, bounded, rfl⟩
  | some block =>
      have alive := live block rfl
      obtain ⟨sound, agree, released⟩ := wellformed.internalDequeue alive fun exactly =>
        (bounded exactly).small wellformed.toQueues alive
      exact ⟨⟨sound, fun exactly compatible => agree exactly compatible (bounded exactly).countable⟩,
        fun exactly => (bounded exactly).released released, released.active⟩

theorem Wellformed.rejectVictim {table : Table} {request victim : Nat}
    (wellformed : Wellformed strict table) (live : (table.requests victim).Live)
    (pending : (table.requests victim).pending = true) :
    Sound strict table (table.rejectVictim request victim) := by
  have rejected := wellformed.reject live pending
  have cleared := rejected.trans (.of_core rejected.wellformed
    (Table.core_setOwner (table.requests victim).lrq_owner
      (fun block => { block with scanned := false }) rfl rfl rfl))
  rw [Table.rejectVictim]
  split
  · exact cleared
  · exact cleared.trans (.of_core cleared.wellformed (Table.core_postWakeup _))

theorem Step.preserved {before after : Table} (step : Step before after)
    (wellformed : Wellformed strict before) (bounded : strict → Bounded before) :
    Preserved strict before after := by
  have small : ∀ {request}, (before.requests request).Live → strict → Small before request :=
    fun live exactly => (bounded exactly).small wellformed.toQueues live
  have known : ∀ {prior request owner lock series value type ast_routine},
      (before.allocRequest prior request type ast_routine owner).findLock series value = some lock →
        lock ∈ (before.giveBack prior).lhb_hash := by
    intro prior request owner lock series value type ast_routine found
    rw [Table.allocRequest_giveBack] at found
    exact List.mem_of_find?_eq_some found
  cases step with
  | createOwner fresh => exact (wellformed.createOwner fresh).preserved bounded
  | useOwner =>
      exact (Sound.of_core wellformed (Table.core_setOwner _ _ rfl rfl rfl)).preserved bounded
  | leaveOwner =>
      exact (Sound.of_core wellformed (Table.core_setOwner _ _ rfl rfl rfl)).preserved bounded
  | purgeOwner active =>
      obtain ⟨sound, agree⟩ := wellformed.purgeOwner bounded active
      exact ⟨sound, agree⟩
  | noRequest live => exact (wellformed.internalDequeue_sound live (small live)).preserved bounded
  | enqueueLock active _ live free found =>
      obtain ⟨first, bound, owners⟩ := wellformed.giveBack bounded live
      rw [Table.allocRequest_giveBack]
      exact first.trans (first.wellformed.enqueueLock _ _ _ _ bound (known found)
        (owners ▸ active) free)
  | createLock active _ live free _ fresh =>
      obtain ⟨first, bound, owners⟩ := wellformed.giveBack bounded live
      rw [Table.allocRequest_giveBack]
      exact first.trans (first.wellformed.createLock _ _ _ _ _ bound fresh (owners ▸ active) free)
  | dropRequest active _ live free =>
      obtain ⟨first, bound, owners⟩ := wellformed.giveBack bounded live
      rw [Table.allocRequest_giveBack]
      exact first.trans ((first.wellformed.dropRequest _ _ (owners ▸ active) free).preserved bound)
  | enqueueWoken live => exact (wellformed.enqueueWoken live (small live)).preserved bounded
  | convert live _ may_wait =>
      exact (wellformed.internalConvert _ _ _ live may_wait).preserved bounded
  | convertWoken live => exact (wellformed.convertWoken _ live).preserved bounded
  | downgrade live => exact (wellformed.downgrade live (small live)).preserved bounded
  | dequeue live => exact (wellformed.internalDequeue_sound live (small live)).preserved bounded
  | writeData live =>
      exact (Sound.of_core wellformed (Table.core_replaceData _ _)).preserved bounded
  | repost _ free => exact (wellformed.repost free).preserved bounded
  | blockingAction active => exact (wellformed.blockingAction active).preserved bounded
  | cancelWait => exact (Sound.of_core wellformed (Table.core_postWakeup _)).preserved bounded
  | awake =>
      exact (Sound.of_core wellformed (Table.core_setOwner _ _ rfl rfl rfl)).preserved bounded
  | timeout live pending => exact (wellformed.reject live pending).preserved bounded
  | postBlockage live => exact (wellformed.postBlockage live).preserved bounded
  | deadlock live pending _ _ found =>
      have member := wellformed.mem_pendingRequests.mpr ⟨live, pending⟩
      obtain ⟨_, -, same⟩ := wellformed.deadlockScan_search member
      have scanned := Sound.of_core wellformed same
      have victim := wellformed.deadlockScan_pending member found
      have waits := scanned.wellformed.mem_pendingRequests.mp
        ((pendingRequests_of_core same).symm ▸ victim)
      exact (scanned.trans (scanned.wellformed.rejectVictim waits.1 waits.2)).preserved bounded
  | noDeadlock live pending _ _ _ =>
      have member := wellformed.mem_pendingRequests.mpr ⟨live, pending⟩
      obtain ⟨_, -, same⟩ := wellformed.deadlockScan_search member
      have scanned := Sound.of_core wellformed same
      have alive := ((Kept.of_core same).live _).mpr live
      exact (scanned.trans (scanned.wellformed.postBlockage alive)).preserved bounded

/-! ## Reachable tables -/

variable {allowed : Table → Prop}

theorem Reachable.last {table : Table} (reachable : Reachable allowed table) : allowed table := by
  cases reachable with
  | initial start => exact start
  | step _ _ after => exact after

theorem Reachable.wellformed {table : Table} (reachable : Reachable allowed table)
    (bounded : strict → ∀ other, allowed other → Bounded other) :
    Wellformed strict table ∧ (strict → Compatible table) := by
  induction reachable with
  | initial _ => exact ⟨.initial, fun _ _ member => absurd member List.not_mem_nil⟩
  | step before step _ ih =>
      have preserved := step.preserved ih.1 fun exactly => bounded exactly _ before.last
      exact ⟨preserved.wellformed, fun exactly => preserved.compatible exactly (ih.2 exactly)⟩

/-- What the lock table repeats about one of its locks, and what its granted requests have to do
with each other. -/
structure Consistent (table : Table) (lock : Nat) : Prop where
  queue : ∀ request, request ∈ (table.locks lock).lbl_requests ↔
    (table.requests request).Live ∧ (table.requests request).lrq_lock = lock
  compatible : ∀ first ∈ (table.locks lock).lbl_requests,
    ∀ second ∈ (table.locks lock).lbl_requests, first ≠ second →
      compatibility (table.requests first).lrq_state (table.requests second).lrq_state = true
  counts : ∀ level, level ≠ .none → ((table.locks lock).lbl_counts level).toNat =
    granted table.requests (table.locks lock).lbl_requests level
  state : (table.locks lock).lbl_state = lockState (table.locks lock).lbl_counts
  pending_count : (table.locks lock).lbl_pending_lrq_count.toNat =
    (table.locks lock).lbl_requests.countP fun request => (table.requests request).pending
  pending : ∀ request ∈ (table.locks lock).lbl_requests, (table.requests request).pending = true →
    request ∈ (table.owners (table.requests request).lrq_owner).own_pending

/-- As long as no lock has more than 65535 requests, every lock is consistent. -/
theorem Reachable.consistent {table : Table} (reachable : Reachable Bounded table) :
    ∀ lock ∈ table.lhb_hash, Consistent table lock := by
  obtain ⟨wellformed, compatible⟩ := @Reachable.wellformed True Bounded table reachable
    fun _ _ bounded => bounded
  intro lock used
  have small := reachable.last lock used
  constructor
  case queue =>
      intro request
      constructor
      · exact wellformed.queued lock used request
      · rintro ⟨live, rfl⟩
        exact (wellformed.on_lock request live).2
  case compatible => exact compatible trivial lock used
  case counts =>
      intro level nonempty
      rw [wellformed.counts lock used level nonempty, UInt16.toNat_ofNat']
      exact Nat.mod_eq_of_lt (Nat.lt_of_le_of_lt List.countP_le_length small)
  case state => exact wellformed.state trivial lock used
  case pending_count =>
      rw [wellformed.pending_count lock used, UInt16.toNat_ofNat']
      exact Nat.mod_eq_of_lt (Nat.lt_of_le_of_lt List.countP_le_length small)
  case pending =>
      intro request member waits
      exact wellformed.on_pending request (wellformed.queued lock used request member).1 waits

/-! ## Counters wrap -/

/-- `grant` of a new request without data whose owner does not wait. -/
theorem grant_plain {table : Table} {request : Nat} (data : (table.requests request).lrq_data = 0)
    (pending : (table.requests request).pending = false)
    (waits : (table.owners (table.requests request).lrq_owner).own_waits = 0) :
    table.grant request = ((table.setLock (table.requests request).lrq_lock fun block =>
      { block with
        lbl_counts := increment block.lbl_counts (table.requests request).lrq_requested }).setRequest
          request fun block =>
            { block with lrq_state := (table.requests request).lrq_requested }).setLock
              (table.requests request).lrq_lock fun block =>
                { block with lbl_state := lockState block.lbl_counts } := by
  simp [Table.grant, Table.grantData, Table.postWakeup, data, pending, waits]

/-- A table with one owner that holds one lock many times at `SR`. -/
structure Crowded (table : Table) (count : Nat) : Prop where
  active : table.lhb_owners = [0]
  own_count : (table.owners 0).own_count = 1
  own_waits : (table.owners 0).own_waits = 0
  hash : table.lhb_hash = [0]
  series : (table.locks 0).lbl_series = 0
  key : (table.locks 0).lbl_key = []
  queue : (table.locks 0).lbl_requests = List.range count
  no_pending : (table.locks 0).lbl_pending_lrq_count = 0
  states : ∀ request, request < count → (table.requests request).lrq_state = .SR
  free : ∀ request, count ≤ request → (table.requests request).in_use = false
  lbl_counts : ∀ level, level ≠ .SR → (table.locks 0).lbl_counts level = 0
  lbl_state : (table.locks 0).lbl_state = lockState (table.locks 0).lbl_counts

/-- The owner asks for the lock once more. -/
def crowdNext (table : Table) (count : Nat) : Table :=
  ((table.allocRequest none count .SR false 0).enqueueLock count 0 0 .noWait).1

theorem lockState_SR {lbl_counts : Level → UInt16}
    (others : ∀ level, level ≠ .SR → lbl_counts level = 0) :
    compatibility .SR (lockState lbl_counts) = true := by
  rw [lockState]
  simp only [others .EX (by decide), others .PW (by decide), others .SW (by decide),
    others .PR (by decide), others .null (by decide)]
  simp
  split <;> rfl

theorem Crowded.next {table : Table} {count : Nat} (crowded : Crowded table count) :
    Crowded (crowdNext table count) (count + 1) := by
  have fits := lockState_SR crowded.lbl_counts
  rw [← crowded.lbl_state] at fits
  rw [crowdNext, Table.enqueueLock, Table.grantOrQue]
  generalize queued : (Table.setRequest (Table.setRequest (Table.setLock
    (table.allocRequest none count .SR false 0) 0 _) count _) count _) = asking
  have request : asking.requests count =
      { Table.newRequest .SR false 0 with lrq_data := 0, lrq_lock := 0 } := by
    rw [← queued, Table.allocRequest]
    simp
  have others : ∀ other, other ≠ count → asking.requests other = table.requests other := by
    intro other differ
    rw [← queued, Table.allocRequest]
    simp [differ]
  have lock : asking.locks 0 = { table.locks 0 with lbl_requests := List.range (count + 1) } := by
    rw [← queued, Table.allocRequest]
    simp [crowded.queue, List.range_succ]
  have owner : asking.owners 0 =
      { table.owners 0 with own_requests := (table.owners 0).own_requests ++ [count] } := by
    rw [← queued, Table.allocRequest]
    simp
  have hash : asking.lhb_hash = [0] := by
    rw [← queued, ← crowded.hash]
    rfl
  have active : asking.lhb_owners = [0] := by
    rw [← queued, ← crowded.active]
    rfl
  rw [if_pos (by
    rw [request, lock]
    exact ⟨fits, .inr crowded.no_pending⟩)]
  have data : (asking.requests count).lrq_data = 0 := by rw [request]
  have idle : (asking.requests count).pending = false := by rw [request]; rfl
  have awake : (asking.owners (asking.requests count).lrq_owner).own_waits = 0 := by
    rw [request]
    exact (congrArg Owner.own_waits owner).trans crowded.own_waits
  have grants := grant_plain data idle awake
  rw [Table.postPending, if_pos]
  · dsimp only
    rw [grants, request]
    dsimp only [Table.newRequest]
    constructor
    case states =>
        intro other bound
        rcases eq_or_ne other count with rfl | differ
        · simp
        · simp [differ, others other differ, crowded.states other (by omega)]
    case free =>
        intro other bound
        have differ : other ≠ count := by omega
        simp [differ, others other differ, crowded.free other (by omega)]
    case lbl_counts =>
        intro level differ
        simp [lock, increment, differ, crowded.lbl_counts level differ]
    all_goals
      simp [active, owner, hash, lock, crowded.own_count, crowded.own_waits, crowded.series,
        crowded.key, crowded.no_pending]
  · rw [grants, request]
    dsimp only [Table.newRequest]
    simp [lock, crowded.no_pending]

/-- An owner that asks for one lock again and again. -/
def crowd : Nat → Table
  | 0 => ((Table.initial.createOwner 0).allocRequest none 0 .SR false 0).createLock 0 0 0 [] .SR 0
  | count + 1 => crowdNext (crowd count) (count + 1)

theorem crowded_crowd (count : Nat) : Crowded (crowd count) (count + 1) := by
  induction count with
  | zero =>
      have free : ∀ request, 1 ≤ request → ((crowd 0).requests request).in_use = false := by
        intro request bound
        have differ : request ≠ 0 := by omega
        simp [crowd, Table.createLock, Table.allocRequest, Table.grant, Table.grantData,
          Table.postWakeup, Table.newRequest, Table.createOwner, Table.initial, Table.setOwner,
          Table.setLock, Table.setRequest, Table.blankOwner, differ]
      have lbl_counts : ∀ level, level ≠ .SR → ((crowd 0).locks 0).lbl_counts level = 0 := by
        intro level differ
        cases level with
        | SR => exact absurd rfl differ
        | _ => rfl
      refine ⟨rfl, rfl, rfl, rfl, rfl, rfl, rfl, rfl, fun request bound => ?_, free, lbl_counts, rfl⟩
      obtain rfl : request = 0 := by omega
      rfl
  | succ count ih => exact ih.next

theorem crowd_reachable (count : Nat) (start : allowed .initial)
    (owner : allowed (Table.initial.createOwner 0))
    (crowds : ∀ other, other ≤ count → allowed (crowd other)) :
    Reachable allowed (crowd count) := by
  induction count with
  | zero =>
      have created : Reachable allowed (Table.initial.createOwner 0) :=
        (Reachable.initial start).step (.createOwner List.not_mem_nil) owner
      apply created.step _ (crowds 0 (Nat.le_refl 0))
      refine Step.createLock (List.mem_singleton_self 0) Nat.one_ne_zero (fun block impossible => ?_) rfl rfl
        List.not_mem_nil
      exact absurd impossible (Option.some_ne_none block).symm
  | succ count ih =>
      have crowded := crowded_crowd count
      have before := ih fun other bound => crowds other (Nat.le_succ_of_le bound)
      apply before.step _ (crowds (count + 1) (Nat.le_refl _))
      refine @Step.enqueueLock _ none _ _ _ 0 [] _ _ _ _ ?_ ?_ (fun block impossible => ?_) ?_ ?_
      · rw [crowded.active]
        exact List.mem_singleton_self 0
      · rw [crowded.own_count]
        exact Nat.one_ne_zero
      · exact absurd impossible (Option.some_ne_none block).symm
      · exact crowded.free _ (Nat.le_refl _)
      · have hash : ((crowd count).allocRequest none (count + 1) .SR false 0).lhb_hash = [0] :=
          crowded.hash
        have lock : ((crowd count).allocRequest none (count + 1) .SR false 0).locks 0 =
          (crowd count).locks 0 := rfl
        rw [Table.findLock, hash, List.find?_cons_of_pos]
        rw [lock, crowded.series, crowded.key]
        rfl

theorem crowd_bounded {count : Nat} (small : count < 65535) : Bounded (crowd count) := by
  have crowded := crowded_crowd count
  intro lock used
  rw [crowded.hash, List.mem_singleton] at used
  rw [used, crowded.queue, List.length_range]
  omega

theorem consistent_crowd :
    0 ∈ (crowd 2).lhb_hash ∧ ∀ lock ∈ (crowd 2).lhb_hash, Consistent (crowd 2) lock := by
  have reachable : Reachable Bounded (crowd 2) := by
    apply crowd_reachable
    · exact fun lock used => absurd used List.not_mem_nil
    · exact fun lock used => absurd used List.not_mem_nil
    · exact fun other bound => crowd_bounded (by omega)
  exact ⟨by rw [(crowded_crowd 2).hash]; exact List.mem_singleton_self 0, reachable.consistent⟩

/-- 65536 requests granted at one level are counted as none. -/
theorem not_consistent_crowd :
    Reachable (fun _ => True) (crowd 65535) ∧
      ¬∀ lock ∈ (crowd 65535).lhb_hash, Consistent (crowd 65535) lock := by
  refine ⟨crowd_reachable _ trivial trivial fun _ _ => trivial, fun consistent => ?_⟩
  have crowded := crowded_crowd 65535
  have counts := (consistent 0 (by rw [crowded.hash]; exact List.mem_singleton_self 0)).counts .SR
    (by decide)
  have all : granted (crowd 65535).requests ((crowd 65535).locks 0).lbl_requests .SR = 65536 := by
    rw [crowded.queue, granted, List.countP_eq_length.mpr, List.length_range]
    intro request member
    rw [decide_eq_true_eq]
    exact crowded.states request (List.mem_range.mp member)
  have bound := (((crowd 65535).locks 0).lbl_counts .SR).toNat_lt
  omega

end LockManager
end Firebird
