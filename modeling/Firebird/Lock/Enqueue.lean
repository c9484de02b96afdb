import Firebird.Lock.Waiting

/-!
# New requests

`enqueue` takes a free request block, ties it to its owner and to a lock, and then grants it, lets it
wait or gives it back.  A lock that does not exist is created with the level of its first request.
-/

namespace Firebird
namespace LockManager

variable {strict : Prop}

/-- The lock table while the state of one lock is not known yet. -/
structure Nearly (strict : Prop) (table : Table) (lock : Nat) : Prop extends Queues table where
  counts : ∀ other ∈ table.lhb_hash,
    Counted (table.locks other).lbl_counts table.requests (table.locks other).lbl_requests
  state : strict → ∀ other ∈ table.lhb_hash, other ≠ lock →
    (table.locks other).lbl_state = lockState (table.locks other).lbl_counts

theorem Wellformed.nearly {table : Table} (wellformed : Wellformed strict table) (lock : Nat) :
    Nearly strict table lock :=
  { wellformed with state := fun exactly other used _ => wellformed.state exactly other used }

/-- A new request without a state comes last on the queue of its lock. -/
structure Admitted (before : Table) (request lock owner : Nat) (after : Table) : Prop where
  active : after.lhb_owners = before.lhb_owners
  hash : after.lhb_hash = before.lhb_hash
  others : ∀ other, other ≠ request → after.requests other = before.requests other
  live : (after.requests request).Live
  pending : (after.requests request).pending = false
  lrq_state : (after.requests request).lrq_state = .none
  lrq_lock : (after.requests request).lrq_lock = lock
  lrq_owner : (after.requests request).lrq_owner = owner
  own_requests : ∀ other, (after.owners other).own_requests =
    if other = owner then (before.owners other).own_requests ++ [request]
    else (before.owners other).own_requests
  own_blocks : ∀ other, (after.owners other).own_blocks = (before.owners other).own_blocks
  own_pending : ∀ other, (after.owners other).own_pending = (before.owners other).own_pending
  queue : ∀ other, (after.locks other).lbl_requests =
    if other = lock then (before.locks other).lbl_requests ++ [request]
    else (before.locks other).lbl_requests
  lbl_counts : ∀ other, (after.locks other).lbl_counts = (before.locks other).lbl_counts
  pending_count : ∀ other,
    (after.locks other).lbl_pending_lrq_count = (before.locks other).lbl_pending_lrq_count
  lbl_state : ∀ other, (after.locks other).lbl_state = (before.locks other).lbl_state

namespace Admitted

variable {before after : Table} {request lock owner : Nat}

theorem alive (admitted : Admitted before request lock owner after)
    (free : (before.requests request).in_use = false) {other : Nat} :
    (after.requests other).Live ↔ other = request ∨ (before.requests other).Live := by
  rcases eq_or_ne other request with rfl | differ
  · exact ⟨fun _ => .inl rfl, fun _ => admitted.live⟩
  · rw [admitted.others other differ, or_iff_right differ]

theorem ne_of_in_use (free : (before.requests request).in_use = false) {other : Nat}
    (used : (before.requests other).in_use = true) : other ≠ request := by
  rintro rfl
  rw [free] at used
  exact Bool.false_ne_true used

theorem queues (admitted : Admitted before request lock owner after) (queues : Queues before)
    (used : lock ∈ before.lhb_hash) (active : owner ∈ before.lhb_owners)
    (free : (before.requests request).in_use = false) : Queues after := by
  have absent : ∀ other ∈ before.lhb_hash, request ∉ (before.locks other).lbl_requests :=
    fun other member found => ne_of_in_use free (queues.queued other member request found).1.1 rfl
  constructor
  case hash_nodup => exact admitted.hash ▸ queues.hash_nodup
  case owners_nodup => exact admitted.active ▸ queues.owners_nodup
  case queue_nodup =>
      intro other member
      rw [admitted.hash] at member
      rw [admitted.queue]
      split
      · exact nodup_snoc (queues.queue_nodup other member) (absent other member)
      · exact queues.queue_nodup other member
  case queued =>
      intro other member block found
      rw [admitted.hash] at member
      rw [admitted.queue] at found
      rcases eq_or_ne block request with rfl | differ
      · refine ⟨admitted.live, admitted.lrq_lock.trans ?_⟩
        split at found
        · next same => exact same.symm
        · exact absurd found (absent other member)
      · rw [admitted.others block differ]
        apply queues.queued other member block
        split at found
        · exact (List.mem_append.mp found).resolve_right (by simpa using differ)
        · exact found
  case on_lock =>
      intro block alive
      rw [admitted.hash, admitted.queue]
      rcases eq_or_ne block request with rfl | differ
      · rw [admitted.lrq_lock, if_pos rfl]
        exact ⟨used, List.mem_append_right _ (List.mem_singleton_self block)⟩
      · rw [admitted.others block differ] at alive ⊢
        obtain ⟨member, found⟩ := queues.on_lock block alive
        refine ⟨member, ?_⟩
        split
        · exact List.mem_append_left _ found
        · exact found
  case own_nodup =>
      intro other member
      rw [admitted.active] at member
      rw [admitted.own_requests]
      split
      · exact nodup_snoc (queues.own_nodup other member) fun found =>
          ne_of_in_use free (queues.owned other member request found).1.1 rfl
      · exact queues.own_nodup other member
  case owned =>
      intro other member block found
      rw [admitted.active] at member
      rw [admitted.own_requests] at found
      rcases eq_or_ne block request with rfl | differ
      · refine ⟨admitted.live, admitted.lrq_owner.trans ?_⟩
        split at found
        · next same => exact same.symm
        · exact absurd rfl (ne_of_in_use free (queues.owned other member block found).1.1)
      · rw [admitted.others block differ]
        apply queues.owned other member block
        split at found
        · exact (List.mem_append.mp found).resolve_right (by simpa using differ)
        · exact found
  case on_owner =>
      intro block alive
      rw [admitted.active, admitted.own_requests]
      rcases eq_or_ne block request with rfl | differ
      · rw [admitted.lrq_owner, if_pos rfl]
        exact ⟨active, List.mem_append_right _ (List.mem_singleton_self block)⟩
      · rw [admitted.others block differ] at alive ⊢
        obtain ⟨member, found⟩ := queues.on_owner block alive
        refine ⟨member, ?_⟩
        split
        · exact List.mem_append_left _ found
        · exact found
  case pending_nodup =>
      intro other member
      rw [admitted.active] at member
      rw [admitted.own_pending]
      exact queues.pending_nodup other member
  case pending_owned =>
      intro other member block found
      rw [admitted.active] at member
      rw [admitted.own_pending] at found
      have owned := queues.pending_owned other member block found
      rw [admitted.others block (ne_of_in_use free owned.1.1)]
      exact owned
  case on_pending =>
      intro block alive waits
      rcases eq_or_ne block request with rfl | differ
      · rw [admitted.pending] at waits
        exact absurd waits Bool.false_ne_true
      · rw [admitted.others block differ] at alive waits ⊢
        rw [admitted.own_pending]
        exact queues.on_pending block alive waits
  case blocks_nodup =>
      intro other member
      rw [admitted.active] at member
      rw [admitted.own_blocks]
      exact queues.blocks_nodup other member
  case blocks_owned =>
      intro other member block found
      rw [admitted.active] at member
      rw [admitted.own_blocks] at found
      have owned := queues.blocks_owned other member block found
      rw [admitted.others block (ne_of_in_use free owned.1)]
      exact owned
  case pending_count =>
      intro other member
      rw [admitted.hash] at member
      have same : (before.locks other).lbl_requests.countP
          (fun block => (after.requests block).pending) =
            (before.locks other).lbl_requests.countP fun block =>
              (before.requests block).pending := by
        apply List.countP_congr
        intro block found
        rw [admitted.others block (by rintro rfl; exact absent other member found)]
      rw [admitted.pending_count, admitted.queue, queues.pending_count other member, ← same]
      split
      · rw [List.countP_append, List.countP_singleton, admitted.pending]
        simp
      · rfl

theorem counted (admitted : Admitted before request lock owner after) (nearly : Nearly strict before lock)
    (free : (before.requests request).in_use = false) {other : Nat}
    (member : other ∈ before.lhb_hash) :
    Counted (after.locks other).lbl_counts after.requests (before.locks other).lbl_requests := by
  intro level nonempty
  have same : granted after.requests (before.locks other).lbl_requests level =
      granted before.requests (before.locks other).lbl_requests level := by
    apply granted_congr
    intro block found
    rw [admitted.others block
      (ne_of_in_use free (nearly.queued other member block found).1.1)]
  rw [admitted.lbl_counts, same]
  exact nearly.counts other member level nonempty

theorem ready (admitted : Admitted before request lock owner after) (nearly : Nearly strict before lock)
    (used : lock ∈ before.lhb_hash) (active : owner ∈ before.lhb_owners)
    (free : (before.requests request).in_use = false) : Ready strict after request := by
  refine { admitted.queues nearly.toQueues used active free with
    live := admitted.live, counts := ?_, state := ?_ }
  · intro other member
    rw [admitted.hash] at member
    have counted := admitted.counted nearly free member
    rw [admitted.lrq_lock, admitted.queue]
    split
    · have absent : request ∉ (before.locks other).lbl_requests := fun found =>
        ne_of_in_use free (nearly.queued other member request found).1.1 rfl
      rw [List.erase_append_right _ absent, List.erase_cons_head, List.append_nil]
      exact counted
    · exact counted
  · intro exactly other member differ
    rw [admitted.hash] at member
    rw [admitted.lrq_lock] at differ
    rw [admitted.lbl_state, admitted.lbl_counts]
    exact nearly.state exactly other member differ

theorem wellformed (admitted : Admitted before request lock owner after)
    (wellformed : Wellformed strict before) (used : lock ∈ before.lhb_hash)
    (active : owner ∈ before.lhb_owners) (free : (before.requests request).in_use = false) :
    Wellformed strict after := by
  refine { admitted.queues wellformed.toQueues used active free with counts := ?_, state := ?_ }
  · intro other member level nonempty
    rw [admitted.hash] at member
    have counted := admitted.counted (wellformed.nearly lock) free member level nonempty
    rw [counted, admitted.queue]
    split
    · rw [granted, granted, List.countP_append, List.countP_singleton, admitted.lrq_state,
        if_neg (by simpa using nonempty.symm), Nat.add_zero]
    · rfl
  · intro exactly other member
    rw [admitted.hash] at member
    rw [admitted.lbl_state, admitted.lbl_counts]
    exact wellformed.state exactly other member

theorem compatible (admitted : Admitted before request lock owner after)
    (compatible : Compatible before) : Compatible after := by
  intro other used first first_member second second_member differ
  rw [admitted.hash] at used
  have inside : ∀ block ∈ (after.locks other).lbl_requests, block ≠ request →
      block ∈ (before.locks other).lbl_requests := by
    intro block member differ
    rw [admitted.queue] at member
    split at member
    · exact (List.mem_append.mp member).resolve_right (by simpa using differ)
    · exact member
  rcases eq_or_ne first request with rfl | first_differs
  · rw [admitted.lrq_state, compatibility_comm]
    exact compatibility_none _
  rcases eq_or_ne second request with rfl | second_differs
  · rw [admitted.lrq_state]
    exact compatibility_none _
  rw [admitted.others first first_differs, admitted.others second second_differs]
  exact compatible other used first (inside first first_member first_differs) second
    (inside second second_member second_differs) differ

theorem countable (admitted : Admitted before request lock owner after)
    (bounded : Bounded before) : Countable after := by
  intro other used
  rw [admitted.hash] at used
  have bound := bounded other used
  rw [admitted.queue]
  split
  · rw [List.length_append, List.length_singleton]
    omega
  · exact Nat.le_of_lt bound

end Admitted

/-! ## Enqueue -/

/-- A step that may add a request to a queue. -/
structure Preserved (strict : Prop) (before after : Table) : Prop where
  wellformed : Wellformed strict after
  compatible : strict → Compatible before → Compatible after

/-- A new request on the queue of a lock that exists. -/
theorem Table.enqueueLock_admitted (table : Table) (request lock owner : Nat) (type : Level)
    (ast_routine : Bool) (data : Int) :
    Admitted table request lock owner
      (((((table.allocRequest none request type ast_routine owner).setLock lock fun block =>
        { block with lbl_requests := block.lbl_requests ++ [request] }).setRequest request
          fun block => { block with lrq_data := data })).setRequest request fun block =>
            { block with lrq_lock := lock }) := by
  rw [Table.allocRequest]
  constructor
  case own_requests =>
      intro other
      rcases eq_or_ne other owner with rfl | differ
      · simp
      · simp [differ]
  case queue =>
      intro other
      rcases eq_or_ne other lock with rfl | differ
      · simp
      · simp [differ]
  all_goals simp +contextual [Table.newRequest, Request.Live, apply_ite]

namespace Wellformed

variable {table : Table} {request lock owner : Nat}

theorem grantOrQue {before : Table} (lck_wait : Wait)
    (admitted : Admitted before request lock owner
      (table.setRequest request fun block => { block with lrq_lock := lock }))
    (wellformed : Wellformed strict before) (bounded : strict → Bounded before)
    (used : lock ∈ before.lhb_hash) (active : owner ∈ before.lhb_owners) (free : (before.requests request).in_use = false) :
    Preserved strict before (table.grantOrQue request lock lck_wait).1 := by
  rw [Table.grantOrQue]
  generalize (table.setRequest request fun block => { block with lrq_lock := lock }) = after
    at admitted ⊢
  have sound := admitted.wellformed wellformed used active free
  have step : ∀ {final}, Sound strict after final → Preserved strict before final := fun final =>
    ⟨final.wellformed, fun exactly compatible => final.compatible exactly
      (admitted.compatible compatible) (admitted.countable (bounded exactly))⟩
  have ready := admitted.ready (wellformed.nearly lock) used active free
  split
  · next fits =>
      have kept := Kept.grant after request
      have grants : Sound strict after (after.grant request) := by
        apply Sound.of_kept ready.grant kept
        intro exactly compatible countable
        apply ready.grant_fits compatible countable
        rw [admitted.lrq_lock, ← sound.state exactly lock (admitted.hash ▸ used)]
        exact fits.1
      apply step
      exact grants.trans (grants.wellformed.postPending_sound
        (kept.hash ▸ admitted.hash ▸ used))
  split
  · exact step (sound.waitForRequest _ admitted.live admitted.pending)
  · exact step (sound.releaseRequest_sound admitted.live fun _ => .inl admitted.lrq_state)

theorem enqueueLock (type : Level) (ast_routine : Bool) (data : Int) (lck_wait : Wait)
    (wellformed : Wellformed strict table) (bounded : strict → Bounded table) (used : lock ∈ table.lhb_hash)
    (active : owner ∈ table.lhb_owners) (free : (table.requests request).in_use = false) :
    Preserved strict table ((table.allocRequest none request type ast_routine owner).enqueueLock request lock
      data lck_wait).1 := by
  rw [Table.enqueueLock]
  exact wellformed.grantOrQue _ (table.enqueueLock_admitted request lock owner type ast_routine data)
    bounded used active free

end Wellformed

namespace Table

variable {table : Table} {request lock owner : Nat}

theorem insertDataQue_eq (table : Table) (lock : Nat) :
    table.insertDataQue lock = { table with lhb_data := (table.insertDataQue lock).lhb_data } := by
  rw [insertDataQue]
  split
  · rfl
  · rfl

/-- The table with a new lock that has no request yet. -/
def openLock (table : Table) (lock series : Nat) (value : List UInt8) (type : Level) (data : Int) :
    Table :=
  ({ table with lhb_hash := table.lhb_hash ++ [lock] }).setLock lock fun _ =>
    newLock series value type data

theorem openLock_of_ne {other : Nat} (differ : other ≠ lock) (series : Nat) (value : List UInt8)
    (type : Level) (data : Int) :
    (table.openLock lock series value type data).locks other = table.locks other := by
  rw [openLock, locks_setLock, if_neg differ]

theorem openLock_self (series : Nat) (value : List UInt8) (type : Level) (data : Int) :
    (table.openLock lock series value type data).locks lock = newLock series value type data := by
  rw [openLock, locks_setLock, if_pos rfl]

theorem createLock_admitted (series : Nat) (value : List UInt8) (type : Level) (ast_routine : Bool)
    (data : Int) (owner : Nat) :
    ∃ after, Admitted (table.openLock lock series value type data) request lock owner after ∧
      (table.allocRequest none request type ast_routine owner).createLock request lock series value
        type data = after.grant request := by
  refine ⟨_, ?_, rfl⟩
  have queue : ∀ chosen : Table, ∃ lhb_data, (if data ≠ 0 then chosen.insertDataQue lock else chosen) =
      { chosen with lhb_data := lhb_data } := by
    intro chosen
    split
    · exact ⟨_, chosen.insertDataQue_eq lock⟩
    · exact ⟨chosen.lhb_data, rfl⟩
  obtain ⟨lhb_data, same⟩ := queue ((table.allocRequest none request type ast_routine owner).setLock
    lock fun _ => newLock series value type data)
  rw [same, allocRequest, openLock]
  constructor
  case own_requests =>
      intro other
      rcases eq_or_ne other owner with rfl | differ
      · simp
      · simp [differ]
  case queue =>
      intro other
      rcases eq_or_ne other lock with rfl | differ
      · simp
      · simp [differ]
  all_goals simp +contextual [newRequest, Request.Live, apply_ite]

end Table

namespace Wellformed

variable {table : Table} {request lock owner : Nat}

theorem openLock (series : Nat) (value : List UInt8) (type : Level) (data : Int)
    (wellformed : Wellformed strict table) (fresh : lock ∉ table.lhb_hash) :
    Nearly strict (table.openLock lock series value type data) lock := by
  have known : ∀ {other}, other ∈ table.lhb_hash ++ [lock] →
      other = lock ∨ other ∈ table.lhb_hash ∧ other ≠ lock := by
    intro other member
    rcases List.mem_append.mp member with found | added
    · exact .inr ⟨found, fun same => fresh (same ▸ found)⟩
    · exact .inl (List.mem_singleton.mp added)
  have on_lock : ∀ other, (table.requests other).Live →
      (table.requests other).lrq_lock ∈ table.lhb_hash ++ [lock] ∧
        other ∈ ((table.openLock lock series value type data).locks
          (table.requests other).lrq_lock).lbl_requests := by
    intro other live
    obtain ⟨used, found⟩ := wellformed.on_lock other live
    have differ : (table.requests other).lrq_lock ≠ lock := fun same => fresh (same ▸ used)
    rw [Table.openLock_of_ne differ]
    exact ⟨List.mem_append_left _ used, found⟩
  refine { wellformed with
    hash_nodup := nodup_snoc wellformed.hash_nodup fresh, on_lock := on_lock,
    queue_nodup := ?_, queued := ?_, pending_count := ?_, counts := ?_,
    state := fun exactly => ?_ }
  all_goals
    intro other member
    rcases known member with rfl | ⟨used, differ⟩
  · rw [Table.openLock_self]
    exact List.nodup_nil
  · rw [Table.openLock_of_ne differ]
    exact wellformed.queue_nodup other used
  · rw [Table.openLock_self]
    exact fun block found => absurd found List.not_mem_nil
  · rw [Table.openLock_of_ne differ]
    exact wellformed.queued other used
  · rw [Table.openLock_self]
    rfl
  · rw [Table.openLock_of_ne differ]
    exact wellformed.pending_count other used
  · rw [Table.openLock_self]
    exact fun level _ => rfl
  · rw [Table.openLock_of_ne differ]
    exact wellformed.counts other used
  · exact fun differ => absurd rfl differ
  · rw [Table.openLock_of_ne differ]
    exact fun _ => wellformed.state exactly other used

theorem createLock (series : Nat) (value : List UInt8) (type : Level) (ast_routine : Bool)
    (data : Int) (wellformed : Wellformed strict table) (bounded : strict → Bounded table)
    (fresh : lock ∉ table.lhb_hash) (active : owner ∈ table.lhb_owners)
    (free : (table.requests request).in_use = false) :
    Preserved strict table ((table.allocRequest none request type ast_routine owner).createLock request
      lock series value type data) := by
  obtain ⟨after, admitted, created⟩ :=
    @Table.createLock_admitted table request lock series value type ast_routine data owner
  rw [created]
  have nearly := wellformed.openLock series value type data fresh
  have used : lock ∈ (table.openLock lock series value type data).lhb_hash :=
    List.mem_append_right _ (List.mem_singleton_self lock)
  have ready := admitted.ready nearly used active free
  have others : ∀ other ∈ (table.openLock lock series value type data).lhb_hash,
      ((table.openLock lock series value type data).locks other).lbl_requests = [] ∨
        other ∈ table.lhb_hash ∧ (table.openLock lock series value type data).locks other =
          table.locks other := by
    intro other member
    rcases eq_or_ne other lock with rfl | differ
    · rw [Table.openLock_self]
      exact .inl rfl
    · exact .inr ⟨(List.mem_append.mp member).resolve_right (by simpa using differ),
        Table.openLock_of_ne differ _ _ _ _⟩
  refine ⟨ready.grant, fun exactly compatible => ready.grant_fits (admitted.compatible ?_)
    (admitted.countable ?_) ?_⟩
  · intro other member first first_member second second_member differ
    rcases others other member with empty | ⟨found, same⟩
    · rw [empty] at first_member
      exact absurd first_member List.not_mem_nil
    · rw [same] at first_member second_member
      exact compatible other found first first_member second second_member differ
  · intro other member
    rcases others other member with empty | ⟨found, same⟩
    · rw [empty]
      exact Nat.zero_lt_succ _
    · rw [same]
      exact bounded exactly other found
  · rw [admitted.lrq_lock, admitted.lbl_counts, Table.openLock_self]
    exact compatibility_none _

theorem enqueueWoken (wellformed : Wellformed strict table) (live : (table.requests request).Live)
    (small : strict → Small table request) : Sound strict table (table.enqueueWoken request).1 := by
  have same := table.core_endWait request
  have kept := Kept.of_core same
  have ended := Sound.of_core wellformed same
  have alive := (kept.live request).mpr live
  have small_after : strict → Small (table.endWait request) request := by
    intro exactly
    rw [Small, kept.queue, kept.lock]
    exact (small exactly).imp (congrFun (congrArg Core.lrq_state same) request).trans id
  rw [Table.enqueueWoken]
  split
  · exact ended.trans (ended.wellformed.releaseRequest_sound alive small_after)
  · exact ended

end Wellformed

/-! ## Blocks that are not requests for a lock -/

/-- A block that is not a request for a lock is set to another one that is not. -/
structure Unused (before : Table) (request : Nat) (after : Table) : Prop where
  active : after.lhb_owners = before.lhb_owners
  hash : after.lhb_hash = before.lhb_hash
  locks : after.locks = before.locks
  own_requests : ∀ owner, (after.owners owner).own_requests = (before.owners owner).own_requests
  own_pending : ∀ owner, (after.owners owner).own_pending = (before.owners owner).own_pending
  others : ∀ other, other ≠ request → after.requests other = before.requests other
  dead_before : ¬(before.requests request).Live
  dead_after : ¬(after.requests request).Live

namespace Unused

variable {before after : Table} {request : Nat}

theorem live (unused : Unused before request after) {other : Nat}
    (live : (before.requests other).Live) : after.requests other = before.requests other := by
  apply unused.others
  rintro rfl
  exact unused.dead_before live

theorem live_after (unused : Unused before request after) {other : Nat}
    (live : (after.requests other).Live) : after.requests other = before.requests other := by
  apply unused.others
  rintro rfl
  exact unused.dead_after live

theorem wellformed (unused : Unused before request after) (wellformed : Wellformed strict before)
    (blocks : ∀ owner ∈ before.lhb_owners, Blocks after owner (after.owners owner).own_blocks) :
    Wellformed strict after := by
  constructor
  case toQueues =>
      constructor
      case hash_nodup => exact unused.hash ▸ wellformed.hash_nodup
      case owners_nodup => exact unused.active ▸ wellformed.owners_nodup
      case queue_nodup =>
          rw [unused.hash, unused.locks]
          exact wellformed.queue_nodup
      case queued =>
          rw [unused.hash, unused.locks]
          intro lock used block found
          have queued := wellformed.queued lock used block found
          rw [unused.live queued.1]
          exact queued
      case on_lock =>
          intro block live
          have same := unused.live_after live
          rw [same] at live ⊢
          rw [unused.hash, unused.locks]
          exact wellformed.on_lock block live
      case own_nodup =>
          intro owner used
          rw [unused.active] at used
          rw [unused.own_requests]
          exact wellformed.own_nodup owner used
      case owned =>
          intro owner used block found
          rw [unused.active] at used
          rw [unused.own_requests] at found
          have owned := wellformed.owned owner used block found
          rw [unused.live owned.1]
          exact owned
      case on_owner =>
          intro block live
          have same := unused.live_after live
          rw [same] at live ⊢
          rw [unused.active, unused.own_requests]
          exact wellformed.on_owner block live
      case pending_nodup =>
          intro owner used
          rw [unused.active] at used
          rw [unused.own_pending]
          exact wellformed.pending_nodup owner used
      case pending_owned =>
          intro owner used block found
          rw [unused.active] at used
          rw [unused.own_pending] at found
          have owned := wellformed.pending_owned owner used block found
          rw [unused.live owned.1]
          exact owned
      case on_pending =>
          intro block live waits
          have same := unused.live_after live
          rw [same] at live waits ⊢
          rw [unused.own_pending]
          exact wellformed.on_pending block live waits
      case blocks_nodup => exact fun owner used => (blocks owner (unused.active ▸ used)).nodup
      case blocks_owned => exact fun owner used => (blocks owner (unused.active ▸ used)).owned
      case pending_count =>
          rw [unused.hash, unused.locks]
          intro lock used
          rw [wellformed.pending_count lock used]
          apply congrArg UInt16.ofNat
          apply List.countP_congr
          intro block found
          rw [unused.live (wellformed.queued lock used block found).1]
  case counts =>
      rw [unused.hash, unused.locks]
      intro lock used level nonempty
      rw [wellformed.counts lock used level nonempty]
      apply congrArg UInt16.ofNat
      apply granted_congr
      intro block found
      rw [unused.live (wellformed.queued lock used block found).1]
  case state =>
      rw [unused.hash, unused.locks]
      exact wellformed.state

theorem compatible (unused : Unused before request after) (queues : Queues before)
    (compatible : Compatible before) : Compatible after := by
  intro lock used first first_member second second_member differ
  rw [unused.hash] at used
  rw [unused.locks] at first_member second_member
  rw [unused.live (queues.queued lock used first first_member).1,
    unused.live (queues.queued lock used second second_member).1]
  exact compatible lock used first first_member second second_member differ

theorem countable (unused : Unused before request after) (countable : Countable before) :
    Countable after := by
  rw [Countable, unused.hash, unused.locks]
  exact countable

/-- The blocking queue of an owner that does not change. -/
theorem blocks (unused : Unused before request after) {owner : Nat}
    (free : (before.requests request).in_use = false)
    (blocks : Blocks before owner (before.owners owner).own_blocks) :
    Blocks after owner (before.owners owner).own_blocks := by
  refine ⟨blocks.nodup, fun block found => ?_⟩
  have owned := blocks.owned block found
  rw [unused.others block (Admitted.ne_of_in_use free owned.1)]
  exact owned

end Unused

namespace Wellformed

variable {table : Table} {request owner : Nat}

theorem dropRequest (type : Level) (ast_routine : Bool) (wellformed : Wellformed strict table)
    (active : owner ∈ table.lhb_owners) (free : (table.requests request).in_use = false) :
    Sound strict table ((table.allocRequest none request type ast_routine owner).dropRequest request) := by
  have absent : request ∉ (table.owners owner).own_requests := fun found =>
    Admitted.ne_of_in_use free (wellformed.owned owner active request found).1.1 rfl
  have unused : Unused table request
      ((table.allocRequest none request type ast_routine owner).dropRequest request) := by
    rw [Table.allocRequest, Table.dropRequest]
    constructor
    case own_requests =>
        intro other
        rcases eq_or_ne other owner with rfl | differ
        · simp [Table.newRequest, List.erase_append_right _ absent]
        · simp [Table.newRequest, differ]
    case dead_before => exact fun live => Admitted.ne_of_in_use free live.1 rfl
    case dead_after => simp [Request.Live]
    case own_pending =>
        intro other
        rcases eq_or_ne other owner with rfl | differ
        · simp [Table.newRequest]
        · simp [Table.newRequest, differ]
    case others =>
        intro other differ
        simp [differ]
    all_goals rfl
  have same : ∀ other, (((table.allocRequest none request type ast_routine owner).dropRequest
      request).owners other).own_blocks = (table.owners other).own_blocks := by
    intro other
    rw [Table.allocRequest, Table.dropRequest]
    rcases eq_or_ne other owner with rfl | differ
    · simp [Table.newRequest]
    · simp [Table.newRequest, differ]
  refine ⟨unused.wellformed wellformed fun other used => ?_, fun _ compatible _ =>
    unused.compatible wellformed.toQueues compatible, unused.countable⟩
  rw [same]
  exact unused.blocks free (wellformed.blocks used)

theorem repost (wellformed : Wellformed strict table) (free : (table.requests request).in_use = false) :
    Sound strict table (table.repost request owner) := by
  rw [Table.repost]
  generalize posted : Table.setOwner (Table.setRequest table request _) owner _ = after
  have unused : Unused table request after := by
    rw [← posted]
    constructor
    case dead_before => exact fun live => Admitted.ne_of_in_use free live.1 rfl
    case dead_after => simp [Request.Live]
    all_goals simp +contextual [apply_ite]
  have wellformed_after : Wellformed strict after := by
    apply unused.wellformed wellformed
    intro other used
    have blocks := unused.blocks free (wellformed.blocks used)
    have absent : request ∉ (table.owners other).own_blocks := fun found =>
      Admitted.ne_of_in_use free (wellformed.blocks_owned other used request found).1 rfl
    have added : (after.requests request).in_use = true ∧
        (after.requests request).lrq_owner = owner ∧
          (after.requests request).repost = true := by
      rw [← posted]
      simp [Table.newRequest]
    rcases eq_or_ne other owner with rfl | differ
    · have queue : (after.owners other).own_blocks =
          (table.owners other).own_blocks ++ [request] := by
        rw [← posted]
        simp
      rw [queue]
      refine ⟨nodup_snoc blocks.nodup absent, fun block member => ?_⟩
      rcases List.mem_append.mp member with found | last
      · exact blocks.owned block found
      · rw [List.mem_singleton.mp last]
        exact ⟨added.1, added.2.1, .inl added.2.2⟩
    · have queue : (after.owners other).own_blocks = (table.owners other).own_blocks := by
        rw [← posted]
        simp [differ]
      rw [queue]
      exact blocks
  have sound : Sound strict table after := ⟨wellformed_after, fun _ compatible _ =>
    unused.compatible wellformed.toQueues compatible, unused.countable⟩
  exact sound.trans (.of_core wellformed_after (Table.core_signalOwners _))

theorem blockingAction (wellformed : Wellformed strict table) (active : owner ∈ table.lhb_owners) :
    Sound strict table (table.blockingAction owner) := by
  rw [Table.blockingAction]
  split
  · exact .of_core wellformed (Table.core_setOwner owner _ rfl rfl rfl)
  · next request queue blocks_eq =>
      have blocks := wellformed.blocks active
      rw [blocks_eq] at blocks
      obtain ⟨in_use, own, reason⟩ := blocks.owned request List.mem_cons_self
      obtain ⟨absent, nodup⟩ := List.nodup_cons.mp blocks.nodup
      -- The block of the request may change as it likes, it is on no blocking queue any more.
      have rest : ∀ (assign : Request → Request), ∀ other ∈ table.lhb_owners,
          Blocks ((table.setOwner owner fun block =>
            { block with own_blocks := queue }).setRequest request assign) other
              (((table.setOwner owner fun block =>
                { block with own_blocks := queue }).setRequest request assign).owners
                  other).own_blocks := by
        intro assign other used
        rw [Table.owners_setRequest, Table.owners_setOwner]
        split
        · next same =>
            subst same
            refine ⟨nodup, fun block found => ?_⟩
            rw [Table.requests_setRequest, if_neg (by rintro rfl; exact absent found)]
            exact blocks.owned block (List.mem_cons_of_mem _ found)
        · next differ =>
            refine ⟨wellformed.blocks_nodup other used, fun block found => ?_⟩
            have owned := wellformed.blocks_owned other used block found
            rw [Table.requests_setRequest, if_neg]
            · exact owned
            · rintro rfl
              exact differ (owned.2.1.symm.trans own)
      dsimp only
      rw [Table.requests_setOwner]
      split
      · have reblocked := @Table.reblocked_setRequest table owner request queue
          (fun block => { block with blocking := false, blocking_seen := true }) Iff.rfl rfl rfl
            rfl rfl
        exact .of_reblocked (wellformed.reblocked reblocked (rest _)) reblocked
      split
      · next repost =>
          have dead : ¬(table.requests request).Live := fun live => by
            rw [live.2] at repost
            exact Bool.false_ne_true repost
          have reblocked := @Table.reblocked_setRequest table owner request queue
            (fun block => { block with in_use := false })
              ⟨fun live => absurd live.1 Bool.false_ne_true, fun live => absurd live dead⟩ rfl rfl
                rfl rfl
          exact .of_reblocked (wellformed.reblocked reblocked (rest _)) reblocked
      · next idle repost => exact absurd reason (not_or.mpr ⟨repost, idle⟩)

theorem createOwner (wellformed : Wellformed strict table) (fresh : owner ∉ table.lhb_owners) :
    Sound strict table (table.createOwner owner) := by
  have known : ∀ {other}, other ∈ table.lhb_owners ++ [owner] →
      other = owner ∨ other ∈ table.lhb_owners ∧ other ≠ owner := by
    intro other member
    rcases List.mem_append.mp member with found | added
    · exact .inr ⟨found, fun same => fresh (same ▸ found)⟩
    · exact .inl (List.mem_singleton.mp added)
  have own : ∀ other, other ≠ owner →
      (table.createOwner owner).owners other = table.owners other := by
    intro other differ
    rw [Table.createOwner]
    exact Function.update_of_ne differ _ _
  have differ : ∀ request, (table.requests request).Live →
      (table.requests request).lrq_owner ≠ owner := fun request live same =>
    fresh (same ▸ (wellformed.on_owner request live).1)
  have empty : (table.createOwner owner).owners owner = {
      own_count := 1
      own_requests := []
      own_blocks := []
      own_pending := []
      own_waits := 0
      scanned := false
      wakeup := false
      signaled := false } := Function.update_self _ _ _
  have on_owner : ∀ request, (table.requests request).Live →
      (table.requests request).lrq_owner ∈ table.lhb_owners ++ [owner] ∧ request ∈
        ((table.createOwner owner).owners (table.requests request).lrq_owner).own_requests := by
    intro request live
    rw [own _ (differ request live)]
    exact ⟨List.mem_append_left _ (wellformed.on_owner request live).1,
      (wellformed.on_owner request live).2⟩
  have on_pending : ∀ request, (table.requests request).Live →
      (table.requests request).pending = true → request ∈
        ((table.createOwner owner).owners (table.requests request).lrq_owner).own_pending := by
    intro request live waits
    rw [own _ (differ request live)]
    exact wellformed.on_pending request live waits
  have owners : ∀ other ∈ (table.createOwner owner).lhb_owners,
      (((table.createOwner owner).owners other).own_requests = [] ∧
        ((table.createOwner owner).owners other).own_pending = [] ∧
          ((table.createOwner owner).owners other).own_blocks = []) ∨
        other ∈ table.lhb_owners ∧ (table.createOwner owner).owners other = table.owners other := by
    intro other member
    rcases known member with rfl | ⟨used, distinct⟩
    · rw [empty]
      exact .inl ⟨rfl, rfl, rfl⟩
    · exact .inr ⟨used, own other distinct⟩
  refine ⟨{ wellformed with
    owners_nodup := nodup_snoc wellformed.owners_nodup fresh, on_owner := on_owner,
    on_pending := on_pending, own_nodup := ?_, owned := ?_, pending_nodup := ?_,
    pending_owned := ?_, blocks_nodup := ?_, blocks_owned := ?_ }, fun _ compatible _ => compatible,
    fun countable => countable⟩
  all_goals
    intro other member
    rcases owners other member with ⟨requests, pending, blocks⟩ | ⟨used, same⟩
  · exact requests ▸ List.nodup_nil
  · exact same ▸ wellformed.own_nodup other used
  · exact fun request found => absurd (requests ▸ found) List.not_mem_nil
  · exact same ▸ wellformed.owned other used
  · exact pending ▸ List.nodup_nil
  · exact same ▸ wellformed.pending_nodup other used
  · exact fun request found => absurd (pending ▸ found) List.not_mem_nil
  · exact same ▸ wellformed.pending_owned other used
  · exact blocks ▸ List.nodup_nil
  · exact same ▸ wellformed.blocks_nodup other used
  · exact fun request found => absurd (blocks ▸ found) List.not_mem_nil
  · exact same ▸ wellformed.blocks_owned other used

end Wellformed

end LockManager
end Firebird
