import Firebird.Lock.Invariant

/-!
# Releasing requests

`releaseRequest` takes a request off all queues before it gives its place to the pending ones, and
`purgeOwner` releases everything an owner has.
-/

namespace Firebird
namespace LockManager

variable {strict : Prop}

/-- The first part of `releaseRequest`: the request leaves all queues and its block is free. -/
structure Detached (table : Table) (request : Nat) (after : Table) : Prop where
  hash : after.lhb_hash = table.lhb_hash
  active : after.lhb_owners = table.lhb_owners
  free : (after.requests request).in_use = false
  requests : ∀ other, other ≠ request → after.requests other = table.requests other
  state : (after.requests request).lrq_state = (table.requests request).lrq_state
  queue : ∀ lock, (after.locks lock).lbl_requests =
    if lock = (table.requests request).lrq_lock then (table.locks lock).lbl_requests.erase request
    else (table.locks lock).lbl_requests
  lbl_counts : ∀ lock, (after.locks lock).lbl_counts = (table.locks lock).lbl_counts
  lbl_state : ∀ lock, (after.locks lock).lbl_state = (table.locks lock).lbl_state
  pending_count : ∀ lock, (after.locks lock).lbl_pending_lrq_count =
    if lock = (table.requests request).lrq_lock ∧ (table.requests request).pending = true then
      (table.locks lock).lbl_pending_lrq_count - 1
    else (table.locks lock).lbl_pending_lrq_count
  own_requests : ∀ owner, (after.owners owner).own_requests =
    if owner = (table.requests request).lrq_owner then
      (table.owners owner).own_requests.erase request
    else (table.owners owner).own_requests
  own_blocks : ∀ owner, (after.owners owner).own_blocks =
    if owner = (table.requests request).lrq_owner ∧ (table.requests request).blocking = true then
      (table.owners owner).own_blocks.erase request
    else (table.owners owner).own_blocks
  own_pending : ∀ owner, (after.owners owner).own_pending =
    if owner = (table.requests request).lrq_owner ∧ (table.requests request).pending = true then
      (table.owners owner).own_pending.erase request
    else (table.owners owner).own_pending

namespace Table

theorem detach_detached (table : Table) (request : Nat) :
    Detached table request (table.detach request) := by
  rw [detach]
  cases blocking : (table.requests request).blocking <;>
    cases pending : (table.requests request).pending <;> constructor <;>
      simp +contextual [blocking, pending, clearPending, apply_ite]

end Table

namespace Detached

variable {table after : Table} {request : Nat}

theorem live_iff (detached : Detached table request after) (other : Nat) :
    (after.requests other).Live ↔ other ≠ request ∧ (table.requests other).Live := by
  rcases eq_or_ne other request with rfl | differ
  · simp [Request.Live, detached.free]
  · simp [detached.requests other differ, differ]

theorem mem_queue (detached : Detached table request after) (queues : Queues table)
    {lock other : Nat} (used : lock ∈ table.lhb_hash)
    (member : other ∈ (after.locks lock).lbl_requests) :
    other ≠ request ∧ other ∈ (table.locks lock).lbl_requests := by
  rw [detached.queue] at member
  split at member
  · next same =>
      refine ⟨?_, List.mem_of_mem_erase member⟩
      rintro rfl
      exact (queues.queue_nodup lock used).not_mem_erase member
  · next differ =>
      refine ⟨?_, member⟩
      rintro rfl
      exact differ (queues.queued lock used other member).2.symm

theorem queues (detached : Detached table request after) (queues : Queues table)
    (live : (table.requests request).Live) : Queues after := by
  have active : ∀ {owner}, owner ∈ after.lhb_owners → owner ∈ table.lhb_owners := fun member =>
    detached.active ▸ member
  have used : ∀ {lock}, lock ∈ after.lhb_hash → lock ∈ table.lhb_hash := fun member =>
    detached.hash ▸ member
  constructor
  case hash_nodup => exact detached.hash ▸ queues.hash_nodup
  case owners_nodup => exact detached.active ▸ queues.owners_nodup
  case queue_nodup =>
      intro lock member
      rw [detached.queue]
      split
      · exact (queues.queue_nodup lock (used member)).erase request
      · exact queues.queue_nodup lock (used member)
  case queued =>
      intro lock member other found
      obtain ⟨differ, found⟩ := detached.mem_queue queues (used member) found
      rw [detached.live_iff, detached.requests other differ]
      exact ⟨⟨differ, (queues.queued lock (used member) other found).1⟩,
        (queues.queued lock (used member) other found).2⟩
  case on_lock =>
      intro other alive
      obtain ⟨differ, alive⟩ := (detached.live_iff other).mp alive
      obtain ⟨member, found⟩ := queues.on_lock other alive
      rw [detached.requests other differ, detached.hash, detached.queue]
      refine ⟨member, ?_⟩
      split
      · exact (List.mem_erase_of_ne differ).mpr found
      · exact found
  case own_nodup =>
      intro owner member
      rw [detached.own_requests]
      split
      · exact (queues.own_nodup owner (active member)).erase request
      · exact queues.own_nodup owner (active member)
  case owned =>
      intro owner member other found
      rw [detached.own_requests] at found
      have inside : other ∈ (table.owners owner).own_requests := by
        split at found
        · exact List.mem_of_mem_erase found
        · exact found
      obtain ⟨alive, owner_eq⟩ := queues.owned owner (active member) other inside
      have differ : other ≠ request := by
        rintro rfl
        rw [if_pos owner_eq.symm] at found
        exact (queues.own_nodup owner (active member)).not_mem_erase found
      rw [detached.live_iff, detached.requests other differ]
      exact ⟨⟨differ, alive⟩, owner_eq⟩
  case on_owner =>
      intro other alive
      obtain ⟨differ, alive⟩ := (detached.live_iff other).mp alive
      obtain ⟨member, found⟩ := queues.on_owner other alive
      rw [detached.requests other differ, detached.active, detached.own_requests]
      refine ⟨member, ?_⟩
      split
      · exact (List.mem_erase_of_ne differ).mpr found
      · exact found
  case pending_nodup =>
      intro owner member
      rw [detached.own_pending]
      split
      · exact (queues.pending_nodup owner (active member)).erase request
      · exact queues.pending_nodup owner (active member)
  case pending_owned =>
      intro owner member other found
      rw [detached.own_pending] at found
      have inside : other ∈ (table.owners owner).own_pending := by
        split at found
        · exact List.mem_of_mem_erase found
        · exact found
      obtain ⟨alive, owner_eq, pending⟩ := queues.pending_owned owner (active member) other inside
      have differ : other ≠ request := by
        rintro rfl
        rw [if_pos ⟨owner_eq.symm, pending⟩] at found
        exact (queues.pending_nodup owner (active member)).not_mem_erase found
      rw [detached.live_iff, detached.requests other differ]
      exact ⟨⟨differ, alive⟩, owner_eq, pending⟩
  case on_pending =>
      intro other alive pending
      obtain ⟨differ, alive⟩ := (detached.live_iff other).mp alive
      rw [detached.requests other differ] at pending ⊢
      have found := queues.on_pending other alive pending
      rw [detached.own_pending]
      split
      · exact (List.mem_erase_of_ne differ).mpr found
      · exact found
  case blocks_nodup =>
      intro owner member
      rw [detached.own_blocks]
      split
      · exact (queues.blocks_nodup owner (active member)).erase request
      · exact queues.blocks_nodup owner (active member)
  case blocks_owned =>
      intro owner member other found
      rw [detached.own_blocks] at found
      have inside : other ∈ (table.owners owner).own_blocks := by
        split at found
        · exact List.mem_of_mem_erase found
        · exact found
      obtain ⟨alive, owner_eq, reason⟩ := queues.blocks_owned owner (active member) other inside
      have differ : other ≠ request := by
        rintro rfl
        have blocking := reason.resolve_left (by simp [live.2])
        rw [if_pos ⟨owner_eq.symm, blocking⟩] at found
        exact (queues.blocks_nodup owner (active member)).not_mem_erase found
      rw [detached.requests other differ]
      exact ⟨alive, owner_eq, reason⟩
  case pending_count =>
      intro lock member
      have before := queues.pending_count lock (used member)
      have same : ∀ other ∈ (after.locks lock).lbl_requests,
          ((after.requests other).pending ↔ (table.requests other).pending) := by
        intro other found
        rw [detached.requests other (detached.mem_queue queues (used member) found).1]
      rw [detached.pending_count, List.countP_congr same, detached.queue, before]
      by_cases own : lock = (table.requests request).lrq_lock
      · have inside : request ∈ (table.locks lock).lbl_requests := by
          rw [own]
          exact (queues.on_lock request live).2
        rw [if_pos own, countP_erase_add inside Request.pending]
        by_cases pending : (table.requests request).pending = true
        · rw [if_pos ⟨own, pending⟩, if_pos pending]
          simp
        · rw [if_neg (fun both => pending both.2), if_neg pending, Nat.add_zero]
      · rw [if_neg (fun both => own both.1), if_neg own]

end Detached

/-! ## The lock that is left -/

theorem lockState_update {lbl_counts : Level → UInt16} {level : Level} {value : UInt16}
    (before : lbl_counts level ≠ 0) (after : value ≠ 0) :
    lockState (Function.update lbl_counts level value) = lockState lbl_counts := by
  cases level <;> simp [lockState, before, after]

/-- What a release leaves: the request is gone, everything else stays on its queue. -/
structure Released (before : Table) (request : Nat) (after : Table) : Prop where
  active : after.lhb_owners = before.lhb_owners
  hash : ∀ lock ∈ after.lhb_hash, lock ∈ before.lhb_hash
  queue : ∀ lock, (after.locks lock).lbl_requests =
    if lock = (before.requests request).lrq_lock then (before.locks lock).lbl_requests.erase request
    else (before.locks lock).lbl_requests
  live : ∀ other, (after.requests other).Live ↔ other ≠ request ∧ (before.requests other).Live
  lock : ∀ other, (after.requests other).lrq_lock = (before.requests other).lrq_lock
  owner : ∀ other, (after.requests other).lrq_owner = (before.requests other).lrq_owner

namespace Released

variable {before middle after : Table} {request : Nat}

theorem kept (released : Released before request middle) (kept : Kept middle after) :
    Released before request after := by
  refine ⟨kept.active.trans released.active, fun lock member => ?_, fun lock => ?_, fun other => ?_,
    fun other => (kept.lock other).trans (released.lock other),
    fun other => (kept.owner other).trans (released.owner other)⟩
  · exact released.hash lock (kept.hash ▸ member)
  · exact (kept.queue lock).trans (released.queue lock)
  · exact (kept.live other).trans (released.live other)

theorem of_kept (released : Released middle request after) (kept : Kept before middle) :
    Released before request after := by
  refine ⟨released.active.trans kept.active, fun lock member => ?_, fun lock => ?_,
    fun other => ?_, fun other => (released.lock other).trans (kept.lock other),
    fun other => (released.owner other).trans (kept.owner other)⟩
  · exact kept.hash ▸ released.hash lock member
  · rw [released.queue, kept.queue, kept.lock]
  · rw [released.live, kept.live]

theorem countable (released : Released before request after) (countable : Countable before) :
    Countable after := by
  intro lock used
  rw [released.queue]
  split
  · exact Nat.le_trans List.length_erase_le (countable lock (released.hash lock used))
  · exact countable lock (released.hash lock used)

end Released

namespace Detached

variable {table after : Table} {request : Nat}

theorem released (detached : Detached table request after)
    (lock : (after.requests request).lrq_lock = (table.requests request).lrq_lock)
    (owner : (after.requests request).lrq_owner = (table.requests request).lrq_owner) :
    Released table request after := by
  refine ⟨detached.active, fun lock member => detached.hash ▸ member, detached.queue,
    detached.live_iff, fun other => ?_, fun other => ?_⟩
  · rcases eq_or_ne other request with rfl | differ
    · exact lock
    · rw [detached.requests other differ]
  · rcases eq_or_ne other request with rfl | differ
    · exact owner
    · rw [detached.requests other differ]

theorem lrq_state (detached : Detached table request after) (other : Nat) :
    (after.requests other).lrq_state = (table.requests other).lrq_state := by
  rcases eq_or_ne other request with rfl | differ
  · exact detached.state
  · rw [detached.requests other differ]

theorem compatible (detached : Detached table request after) (queues : Queues table)
    (compatible : Compatible table) : Compatible after := by
  intro lock used first first_member second second_member differ
  rw [detached.hash] at used
  rw [detached.lrq_state, detached.lrq_state]
  exact compatible lock used first (detached.mem_queue queues used first_member).2 second
    (detached.mem_queue queues used second_member).2 differ

/-- The counts of the other locks do not know the request. -/
theorem counted (detached : Detached table request after) (wellformed : Wellformed strict table)
    {lock : Nat} (used : lock ∈ table.lhb_hash)
    (differ : lock ≠ (table.requests request).lrq_lock) :
    Counted (after.locks lock).lbl_counts after.requests (after.locks lock).lbl_requests := by
  intro level nonempty
  rw [detached.lbl_counts, detached.queue, if_neg differ,
    granted_congr fun other _ => detached.lrq_state other]
  exact wellformed.counts lock used level nonempty

/-- The table is in order again once the counts of the request's lock are. -/
theorem wellformed (detached : Detached table request after) (wellformed : Wellformed strict table)
    (live : (table.requests request).Live) {final : Table} (queues : final.queues = after.queues)
    (states : ∀ other, (final.requests other).lrq_state = (after.requests other).lrq_state)
    (others : ∀ lock, lock ≠ (table.requests request).lrq_lock →
      (final.locks lock).lbl_counts = (after.locks lock).lbl_counts ∧
        (final.locks lock).lbl_state = (after.locks lock).lbl_state)
    (counts : Counted (final.locks (table.requests request).lrq_lock).lbl_counts table.requests
      ((table.locks (table.requests request).lrq_lock).lbl_requests.erase request))
    (state : strict → (final.locks (table.requests request).lrq_lock).lbl_state =
      lockState (final.locks (table.requests request).lrq_lock).lbl_counts) :
    Wellformed strict final := by
  have kept := Kept.of_queues queues
  have same : ∀ queue level, granted final.requests queue level = granted after.requests queue level :=
    fun queue level => granted_congr (fun other _ => states other) level
  refine { (detached.queues wellformed.toQueues live).of_queues queues with
    counts := ?_, state := ?_ }
  · intro lock used level nonempty
    rw [kept.hash, detached.hash] at used
    rw [same, kept.queue]
    by_cases own : lock = (table.requests request).lrq_lock
    · rw [own, counts level nonempty, detached.queue, if_pos rfl,
        granted_congr fun other _ => detached.lrq_state other]
    · rw [(others lock own).1]
      exact detached.counted wellformed used own level nonempty
  · intro exactly lock used
    rw [kept.hash, detached.hash] at used
    by_cases own : lock = (table.requests request).lrq_lock
    · rw [own]
      exact state exactly
    · rw [(others lock own).1, (others lock own).2, detached.lbl_counts, detached.lbl_state]
      exact wellformed.state exactly lock used

theorem discount (detached : Detached table request after) (wellformed : Wellformed strict table)
    (live : (table.requests request).Live)
    (small : strict → (table.requests request).lrq_state = .none ∨
      (table.locks (table.requests request).lrq_lock).lbl_requests.length < 65536) :
    Wellformed strict (after.discount (table.requests request).lrq_lock request) := by
  obtain ⟨used, member⟩ := wellformed.on_lock request live
  have counts := wellformed.counts _ used
  rw [Table.discount]
  dsimp only
  split
  · next level =>
      rw [detached.state] at level
      have present : strict → (table.locks (table.requests request).lrq_lock).lbl_counts
          (table.requests request).lrq_state ≠ 0 := by
        intro exactly
        have bound := (small exactly).resolve_left level
        have positive : 0 < granted table.requests
            (table.locks (table.requests request).lrq_lock).lbl_requests
              (table.requests request).lrq_state :=
          List.countP_pos_iff.mpr ⟨request, member, by simp⟩
        have upper : granted table.requests
            (table.locks (table.requests request).lrq_lock).lbl_requests
              (table.requests request).lrq_state < 65536 :=
          Nat.lt_of_le_of_lt List.countP_le_length bound
        rw [counts _ level]
        intro zero
        have value := congrArg UInt16.toNat zero
        rw [UInt16.toNat_ofNat', Nat.mod_eq_of_lt upper, UInt16.toNat_zero] at value
        omega
      have own : ((after.withdraw (table.requests request).lrq_lock request).locks
          (table.requests request).lrq_lock).lbl_counts =
            decrement (table.locks (table.requests request).lrq_lock).lbl_counts
              (table.requests request).lrq_state := by
        rw [Table.withdraw, Table.locks_setLock, if_pos rfl]
        simp only [detached.lbl_counts, detached.state]
      have others : ∀ lock, lock ≠ (table.requests request).lrq_lock →
          (after.withdraw (table.requests request).lrq_lock request).locks lock =
            after.locks lock := by
        intro lock differ
        rw [Table.withdraw, Table.locks_setLock, if_neg differ]
      split
      · next zero =>
          apply detached.wellformed wellformed live
          · exact (Table.queues_setLock _ _ rfl rfl).trans (Table.queues_setLock _ _ rfl rfl)
          · exact fun other => rfl
          · intro lock differ
            rw [Table.locks_setLock, if_neg differ, others lock differ]
            exact ⟨rfl, rfl⟩
          · rw [Table.locks_setLock, if_pos rfl]
            dsimp only
            rw [own]
            exact counts.decrement member
          · intro _
            rw [Table.locks_setLock, if_pos rfl]
      · next nonzero =>
          apply detached.wellformed wellformed live
          · exact Table.queues_setLock _ _ rfl rfl
          · exact fun other => rfl
          · intro lock differ
            rw [others lock differ]
            exact ⟨rfl, rfl⟩
          · rw [own]
            exact counts.decrement member
          · intro exactly
            rw [own, detached.state] at nonzero
            rw [own, decrement, lockState_update (present exactly)]
            · rw [← wellformed.state exactly _ used, ← detached.lbl_state, Table.withdraw,
                Table.locks_setLock, if_pos rfl]
            · rwa [decrement, Function.update_self] at nonzero
  · next empty =>
      rw [detached.state, not_not] at empty
      apply detached.wellformed wellformed live rfl (fun _ => rfl) (fun _ _ => ⟨rfl, rfl⟩)
      · rw [detached.lbl_counts]
        exact counts.erase member empty
      · rw [detached.lbl_counts, detached.lbl_state]
        exact fun exactly => wellformed.state exactly _ used

end Detached

/-! ## Release -/

theorem Queues.forget {table : Table} {lock : Nat} (queues : Queues table)
    (empty : (table.locks lock).lbl_requests = []) :
    Queues { table with lhb_hash := table.lhb_hash.erase lock } := by
  have used : ∀ {other}, other ∈ table.lhb_hash.erase lock → other ∈ table.lhb_hash :=
    List.mem_of_mem_erase
  refine { queues with
    hash_nodup := queues.hash_nodup.erase lock
    queue_nodup := fun other member => queues.queue_nodup other (used member)
    queued := fun other member => queues.queued other (used member)
    on_lock := fun request alive => ?_
    pending_count := fun other member => queues.pending_count other (used member) }
  obtain ⟨member, found⟩ := queues.on_lock request alive
  refine ⟨(List.mem_erase_of_ne ?_).mpr member, found⟩
  intro same
  rw [same, empty] at found
  exact List.not_mem_nil found

theorem Compatible.of_kept {before after : Table} (compatible : Compatible before)
    (kept : Kept before after)
    (states : ∀ other, (after.requests other).lrq_state = (before.requests other).lrq_state) :
    Compatible after := by
  intro lock used first first_member second second_member differ
  rw [kept.hash] at used
  rw [kept.queue] at first_member second_member
  rw [states, states]
  exact compatible lock used first first_member second second_member differ

namespace Table

theorem discount_kept (table : Table) (lock request : Nat) :
    Kept table (table.discount lock request) := by
  rw [discount]
  dsimp only
  split
  · split
    · exact (Kept.withdraw table lock request).trans (.of_queues (queues_setLock _ _ rfl rfl))
    · exact Kept.withdraw table lock request
  · exact Kept.refl table

theorem discount_lrq_state (table : Table) (lock request other : Nat) :
    ((table.discount lock request).requests other).lrq_state =
      (table.requests other).lrq_state := by
  rw [discount]
  dsimp only
  split
  · split
    · rfl
    · rfl
  · rfl

theorem detach_released (table : Table) (request : Nat) :
    Released table request (table.detach request) := by
  apply (table.detach_detached request).released
  all_goals
    rw [detach]
    cases blocking : (table.requests request).blocking <;>
      cases pending : (table.requests request).pending <;>
        simp [blocking, pending, clearPending]

end Table

/-- The small queues on which the counters of a request's lock can tell it is the last one. -/
def Small (table : Table) (request : Nat) : Prop :=
  (table.requests request).lrq_state = .none ∨
    (table.locks (table.requests request).lrq_lock).lbl_requests.length < 65536

namespace Wellformed

variable {table : Table} {request : Nat}

theorem releaseRequest (wellformed : Wellformed strict table) (live : (table.requests request).Live)
    (small : strict → Small table request) :
    Wellformed strict (table.releaseRequest request) ∧
      (strict → Compatible table → Countable table →
        Compatible (table.releaseRequest request)) ∧
        Released table request (table.releaseRequest request) := by
  have detached := table.detach_detached request
  have released := table.detach_released request
  obtain ⟨used, member⟩ := wellformed.on_lock request live
  have queues := detached.queues wellformed.toQueues live
  rw [Table.releaseRequest]
  dsimp only
  split
  · next empty =>
      have others : ∀ lock ∈ table.lhb_hash.erase (table.requests request).lrq_lock,
          lock ≠ (table.requests request).lrq_lock ∧ lock ∈ table.lhb_hash := fun lock found =>
        ⟨by rintro rfl; exact wellformed.hash_nodup.not_mem_erase found,
          List.mem_of_mem_erase found⟩
      have forgotten : Queues ((table.detach request).removeDataQue
          (table.requests request).lrq_lock) := queues.of_queues rfl
      refine ⟨{ forgotten.forget empty with counts := ?_, state := ?_ }, ?_, ?_⟩
      · intro lock found
        obtain ⟨differ, active⟩ := others lock (detached.hash ▸ found)
        exact detached.counted wellformed active differ
      · intro exactly lock found
        obtain ⟨differ, active⟩ := others lock (detached.hash ▸ found)
        exact (detached.lbl_state lock).trans ((wellformed.state exactly lock active).trans
          (congrArg lockState (detached.lbl_counts lock).symm))
      · intro _ compatible _ lock found
        exact detached.compatible wellformed.toQueues compatible lock (List.mem_of_mem_erase found)
      · exact ⟨released.active, fun lock found => released.hash lock (List.mem_of_mem_erase found),
          released.queue, released.live, released.lock, released.owner⟩
  · have discounted := detached.discount wellformed live small
    have kept := (table.detach request).discount_kept (table.requests request).lrq_lock request
    have active : (table.requests request).lrq_lock ∈
        ((table.detach request).discount (table.requests request).lrq_lock request).lhb_hash := by
      rw [kept.hash, detached.hash]
      exact used
    obtain ⟨sound, agree⟩ := discounted.postPending active
    refine ⟨sound, fun exactly compatible countable => agree exactly ?_ ?_, ?_⟩
    · exact (detached.compatible wellformed.toQueues compatible).of_kept kept
        (Table.discount_lrq_state _ _ _)
    · exact kept.countable (released.countable countable)
    · exact (released.kept kept).kept (Kept.postPending _ _)

theorem internalDequeue (wellformed : Wellformed strict table) (live : (table.requests request).Live)
    (small : strict → Small table request) :
    Wellformed strict (table.internalDequeue request) ∧
      (strict → Compatible table → Countable table →
        Compatible (table.internalDequeue request)) ∧
        Released table request (table.internalDequeue request) := by
  have same : (table.setRequest request fun block =>
      { block with lrq_ast_routine := false }).core = table.core :=
    Table.core_setRequest request _ rfl rfl
  have kept := Kept.of_core same
  have alive := (kept.live request).mpr live
  have small_after : strict → Small (table.setRequest request fun block =>
      { block with lrq_ast_routine := false }) request := by
    intro exactly
    rw [Small, kept.queue, kept.lock, Table.requests_setRequest, if_pos rfl]
    exact small exactly
  obtain ⟨sound, agree, released⟩ := (wellformed.of_core same).releaseRequest alive small_after
  rw [Table.internalDequeue]
  exact ⟨sound, fun exactly compatible countable =>
    agree exactly (compatible.of_core same) (kept.countable countable), released.of_kept kept⟩

end Wellformed

/-! ## Purging an owner -/

/-- No queue of a lock is longer than the counters can tell. -/
def Bounded (table : Table) : Prop :=
  ∀ lock ∈ table.lhb_hash, (table.locks lock).lbl_requests.length < 65536

namespace Bounded

variable {table after : Table} {request : Nat}

theorem countable (bounded : Bounded table) : Countable table :=
  fun lock used => Nat.le_of_lt (bounded lock used)

theorem small (bounded : Bounded table) (queues : Queues table)
    (live : (table.requests request).Live) : Small table request :=
  .inr (bounded _ (queues.on_lock request live).1)

theorem released (bounded : Bounded table) (released : Released table request after) :
    Bounded after := by
  intro lock used
  have before := bounded lock (released.hash lock used)
  rw [released.queue]
  split
  · exact Nat.lt_of_le_of_lt List.length_erase_le before
  · exact before

end Bounded

/-- What the release of a list of requests leaves. -/
structure Purged (strict : Prop) (table : Table) (requests : List Nat) (after : Table) : Prop where
  wellformed : Wellformed strict after
  bounded : strict → Bounded after
  compatible : strict → Compatible table → Compatible after
  active : after.lhb_owners = table.lhb_owners
  live : ∀ other, (after.requests other).Live ↔ other ∉ requests ∧ (table.requests other).Live
  owner : ∀ other, (after.requests other).lrq_owner = (table.requests other).lrq_owner

theorem Wellformed.releaseRequests {table : Table} (requests : List Nat)
    (wellformed : Wellformed strict table) (bounded : strict → Bounded table) (nodup : requests.Nodup)
    (live : ∀ request ∈ requests, (table.requests request).Live) :
    Purged strict table requests (requests.foldl Table.releaseRequest table) := by
  induction requests generalizing table with
  | nil =>
      exact ⟨wellformed, bounded, fun _ => id, rfl, fun other => by simp, fun _ => rfl⟩
  | cons request requests ih =>
      obtain ⟨absent, nodup⟩ := List.nodup_cons.mp nodup
      have alive := live request List.mem_cons_self
      obtain ⟨sound, agree, released⟩ :=
        wellformed.releaseRequest alive fun exactly =>
          (bounded exactly).small wellformed.toQueues alive
      have purged := ih sound (fun exactly => (bounded exactly).released released) nodup fun other member =>
        (released.live other).mpr
          ⟨fun same => absent (same ▸ member), live other (List.mem_cons_of_mem _ member)⟩
      refine ⟨purged.wellformed, purged.bounded, fun exactly compatible => ?_,
        purged.active.trans released.active, fun other => ?_, fun other => ?_⟩
      · exact purged.compatible exactly (agree exactly compatible (bounded exactly).countable)
      · rw [List.foldl_cons, purged.live, released.live, List.mem_cons, not_or]
        tauto
      · exact (purged.owner other).trans (released.owner other)

/-! ## Blocking queues -/

/-- Only the blocking queues of the owners change. -/
structure Reblocked (before after : Table) : Prop extends Kept before after where
  locks : after.locks = before.locks
  own_requests : ∀ owner, (after.owners owner).own_requests = (before.owners owner).own_requests
  own_pending : ∀ owner, (after.owners owner).own_pending = (before.owners owner).own_pending
  pending : ∀ request, (after.requests request).pending = (before.requests request).pending
  lrq_state : ∀ request, (after.requests request).lrq_state = (before.requests request).lrq_state

theorem Reblocked.trans {before middle after : Table} (first : Reblocked before middle)
    (second : Reblocked middle after) : Reblocked before after :=
  ⟨first.toKept.trans second.toKept, second.locks.trans first.locks,
    fun owner => (second.own_requests owner).trans (first.own_requests owner),
    fun owner => (second.own_pending owner).trans (first.own_pending owner),
    fun request => (second.pending request).trans (first.pending request),
    fun request => (second.lrq_state request).trans (first.lrq_state request)⟩

theorem Reblocked.refl (table : Table) : Reblocked table table :=
  ⟨Kept.refl table, rfl, fun _ => rfl, fun _ => rfl, fun _ => rfl, fun _ => rfl⟩

/-- What the blocking queue of an owner holds. -/
structure Blocks (table : Table) (owner : Nat) (own_blocks : List Nat) : Prop where
  nodup : own_blocks.Nodup
  owned : ∀ request ∈ own_blocks,
    (table.requests request).in_use = true ∧ (table.requests request).lrq_owner = owner ∧
      ((table.requests request).repost = true ∨ (table.requests request).blocking = true)

theorem Queues.blocks {table : Table} (queues : Queues table) {owner : Nat}
    (active : owner ∈ table.lhb_owners) : Blocks table owner (table.owners owner).own_blocks :=
  ⟨queues.blocks_nodup owner active, queues.blocks_owned owner active⟩

theorem Wellformed.reblocked {before after : Table} (wellformed : Wellformed strict before)
    (reblocked : Reblocked before after)
    (blocks : ∀ owner ∈ before.lhb_owners, Blocks after owner (after.owners owner).own_blocks) :
    Wellformed strict after := by
  constructor
  case toQueues =>
      constructor
      case blocks_nodup => exact fun owner active => (blocks owner (reblocked.active ▸ active)).nodup
      case blocks_owned => exact fun owner active => (blocks owner (reblocked.active ▸ active)).owned
      all_goals
        simp only [reblocked.hash, reblocked.active, reblocked.locks, reblocked.live,
          reblocked.lock, reblocked.owner, reblocked.own_requests, reblocked.own_pending,
          reblocked.pending]
      · exact wellformed.hash_nodup
      · exact wellformed.owners_nodup
      · exact wellformed.queue_nodup
      · exact wellformed.queued
      · exact wellformed.on_lock
      · exact wellformed.own_nodup
      · exact wellformed.owned
      · exact wellformed.on_owner
      · exact wellformed.pending_nodup
      · exact wellformed.pending_owned
      · exact wellformed.on_pending
      · exact wellformed.pending_count
  case counts =>
      intro lock used level nonempty
      rw [reblocked.hash] at used
      rw [reblocked.locks, granted_congr fun other _ => reblocked.lrq_state other]
      exact wellformed.counts lock used level nonempty
  case state =>
      rw [reblocked.hash, reblocked.locks]
      exact wellformed.state

theorem Reblocked.compatible {before after : Table} (reblocked : Reblocked before after)
    (compatible : Compatible before) : Compatible after :=
  compatible.of_kept reblocked.toKept reblocked.lrq_state

namespace Table

variable {table : Table}

/-- A request enters or leaves a blocking queue. -/
theorem reblocked_setRequest (owner request : Nat) (blocks : List Nat) (assign : Request → Request)
    (live : (assign (table.requests request)).Live ↔ (table.requests request).Live)
    (lock : (assign (table.requests request)).lrq_lock = (table.requests request).lrq_lock)
    (own : (assign (table.requests request)).lrq_owner = (table.requests request).lrq_owner)
    (pending : (assign (table.requests request)).pending = (table.requests request).pending)
    (state : (assign (table.requests request)).lrq_state = (table.requests request).lrq_state) :
    Reblocked table ((table.setOwner owner fun block =>
      { block with own_blocks := blocks }).setRequest request assign) := by
  constructor
  case toKept =>
      refine ⟨rfl, rfl, fun _ => rfl, fun other => ?_,
        field_update Request.lrq_lock table.requests request _ lock,
        field_update Request.lrq_owner table.requests request _ own⟩
      rw [requests_setRequest]
      split
      · next same =>
          rw [same]
          exact live
      · rfl
  case locks => rfl
  case own_requests =>
      apply field_update Owner.own_requests
      rfl
  case own_pending =>
      apply field_update Owner.own_pending
      rfl
  case pending => exact field_update Request.pending table.requests request _ pending
  case lrq_state => exact field_update Request.lrq_state table.requests request _ state

end Table

/-- The last loop of `purgeOwner` only finds reposts on the blocking queue. -/
theorem Wellformed.freeRepost {table : Table} {owner request : Nat} (wellformed : Wellformed strict table)
    (active : owner ∈ table.lhb_owners) (dead : ¬(table.requests request).Live)
    (own : (table.requests request).lrq_owner = owner) :
    let after := (table.setOwner owner fun block =>
      { block with own_blocks := block.own_blocks.erase request }).setRequest request fun block =>
        { block with in_use := false }
    Wellformed strict after ∧ Reblocked table after := by
  intro after
  have reblocked : Reblocked table after := by
    apply Table.reblocked_setRequest
    · simp [Request.Live] at dead ⊢
      exact dead
    all_goals rfl
  refine ⟨wellformed.reblocked reblocked fun other used => ?_, reblocked⟩
  have blocks := wellformed.blocks used
  have inside : ∀ block ∈ (after.owners other).own_blocks,
      block ∈ (table.owners other).own_blocks ∧ block ≠ request := by
    intro block found
    simp only [after, Table.owners_setRequest, Table.owners_setOwner] at found
    split at found
    · next same =>
        subst same
        refine ⟨List.mem_of_mem_erase found, ?_⟩
        rintro rfl
        exact blocks.nodup.not_mem_erase found
    · next differ =>
        refine ⟨found, ?_⟩
        rintro rfl
        exact differ ((blocks.owned block found).2.1.symm.trans own)
  constructor
  case nodup =>
      simp only [after, Table.owners_setRequest, Table.owners_setOwner]
      split
      · next same => exact (same ▸ blocks.nodup).erase request
      · exact blocks.nodup
  case owned =>
      intro block found
      obtain ⟨found, differ⟩ := inside block found
      rw [Table.requests_setRequest, if_neg differ]
      exact blocks.owned block found

theorem Wellformed.freeReposts {owner : Nat} (requests : List Nat) {table : Table}
    (wellformed : Wellformed strict table) (active : owner ∈ table.lhb_owners)
    (dead : ∀ request ∈ requests, ¬(table.requests request).Live)
    (own : ∀ request ∈ requests, (table.requests request).lrq_owner = owner) :
    let after := requests.foldl (fun table request =>
      (table.setOwner owner fun block =>
        { block with own_blocks := block.own_blocks.erase request }).setRequest request fun block =>
          { block with in_use := false }) table
    Wellformed strict after ∧ Reblocked table after := by
  induction requests generalizing table with
  | nil =>
      exact ⟨wellformed, Reblocked.refl table⟩
  | cons request requests ih =>
      obtain ⟨sound, freed⟩ := wellformed.freeRepost active (dead request List.mem_cons_self)
        (own request List.mem_cons_self)
      obtain ⟨sound, rest⟩ := ih sound (freed.active ▸ active)
        (fun other member => (freed.live other).not.mpr (dead other (List.mem_cons_of_mem _ member)))
        (fun other member => (freed.owner other).trans (own other (List.mem_cons_of_mem _ member)))
      exact ⟨sound, freed.trans rest⟩

/-- An owner without requests can go. -/
theorem Wellformed.retire {table : Table} {owner : Nat} (wellformed : Wellformed strict table)
    (idle : ∀ request, (table.requests request).Live → (table.requests request).lrq_owner ≠ owner) :
    Wellformed strict { table with lhb_owners := table.lhb_owners.erase owner } := by
  have used : ∀ {other}, other ∈ table.lhb_owners.erase owner → other ∈ table.lhb_owners :=
    List.mem_of_mem_erase
  exact { wellformed with
    owners_nodup := wellformed.owners_nodup.erase owner
    own_nodup := fun other member => wellformed.own_nodup other (used member)
    owned := fun other member => wellformed.owned other (used member)
    on_owner := fun request live =>
      ⟨(List.mem_erase_of_ne (idle request live)).mpr (wellformed.on_owner request live).1,
        (wellformed.on_owner request live).2⟩
    pending_nodup := fun other member => wellformed.pending_nodup other (used member)
    pending_owned := fun other member => wellformed.pending_owned other (used member)
    blocks_nodup := fun other member => wellformed.blocks_nodup other (used member)
    blocks_owned := fun other member => wellformed.blocks_owned other (used member) }

theorem Wellformed.purgeOwner {table : Table} {owner : Nat} (wellformed : Wellformed strict table)
    (bounded : strict → Bounded table) (active : owner ∈ table.lhb_owners) :
    Wellformed strict (table.purgeOwner owner) ∧
      (strict → Compatible table → Compatible (table.purgeOwner owner)) := by
  have purged := wellformed.releaseRequests _ bounded (wellformed.own_nodup owner active)
    fun request member => (wellformed.owned owner active request member).1
  rw [Table.purgeOwner]
  generalize (table.owners owner).own_requests.foldl Table.releaseRequest table = middle at purged ⊢
  have active_middle : owner ∈ middle.lhb_owners := purged.active.symm ▸ active
  have idle : ∀ request, (middle.requests request).Live →
      (middle.requests request).lrq_owner ≠ owner := by
    intro request live same
    obtain ⟨released, alive⟩ := (purged.live request).mp live
    rw [purged.owner] at same
    exact released (same ▸ (wellformed.on_owner request alive).2)
  have blocks := purged.wellformed.blocks active_middle
  obtain ⟨sound, reblocked⟩ := purged.wellformed.freeReposts _ active_middle
    (fun request member live => idle request live (blocks.owned request member).2.1)
    (fun request member => (blocks.owned request member).2.1)
  refine ⟨sound.retire fun request live same => ?_, fun exactly compatible => ?_⟩
  · rw [reblocked.live] at live
    rw [reblocked.owner] at same
    exact idle request live same
  · exact reblocked.compatible (purged.compatible exactly compatible)

end LockManager
end Firebird
