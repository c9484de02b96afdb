import Firebird.Lock.Release

/-!
# Waiting and conversion

A request that cannot be granted becomes pending: it joins the pending queue of its owner, and the
requests in its way join the blocking queues of theirs.  A conversion keeps its old level while it
waits.
-/

namespace Firebird
namespace LockManager

variable {strict : Prop}

/-- The bookkeeping holds afterwards, and granted requests stay compatible. -/
structure Sound (strict : Prop) (before after : Table) : Prop where
  wellformed : Wellformed strict after
  compatible : strict → Compatible before → Countable before → Compatible after
  countable : Countable before → Countable after

namespace Sound

variable {before middle after : Table}

theorem of_kept (wellformed : Wellformed strict after) (kept : Kept before after)
    (compatible : strict → Compatible before → Countable before → Compatible after) :
    Sound strict before after :=
  ⟨wellformed, compatible, kept.countable⟩

theorem of_core (wellformed : Wellformed strict before) (same : after.core = before.core) :
    Sound strict before after :=
  .of_kept (wellformed.of_core same) (.of_core same) fun _ compatible _ => compatible.of_core same

theorem refl (wellformed : Wellformed strict before) : Sound strict before before := .of_core wellformed rfl

theorem trans (first : Sound strict before middle) (second : Sound strict middle after) : Sound strict before after :=
  ⟨second.wellformed, fun exactly compatible small =>
    second.compatible exactly (first.compatible exactly compatible small) (first.countable small),
    fun small => second.countable (first.countable small)⟩

theorem of_reblocked (wellformed : Wellformed strict after) (reblocked : Reblocked before after) :
    Sound strict before after :=
  .of_kept wellformed reblocked.toKept fun _ compatible _ => reblocked.compatible compatible

end Sound

theorem nodup_snoc {queue : List Nat} {request : Nat} (nodup : queue.Nodup)
    (absent : request ∉ queue) : (queue ++ [request]).Nodup := by
  refine List.nodup_append.mpr ⟨nodup, List.pairwise_singleton _ request, ?_⟩
  rintro other found _ member rfl
  exact absent (List.mem_singleton.mp member ▸ found)

/-! ## Telling the owners in the way -/

/-- A granted request that blocks another one joins the blocking queue of its owner. -/
theorem Wellformed.block {table : Table} {request : Nat} (wellformed : Wellformed strict table)
    (live : (table.requests request).Live) (idle : (table.requests request).blocking = false) :
    let after := (table.setOwner (table.requests request).lrq_owner fun owner =>
      { owner with own_blocks := owner.own_blocks ++ [request] }).setRequest request fun block =>
        { block with blocking := true, blocking_seen := false, just_granted := false }
    Wellformed strict after ∧ Reblocked table after := by
  intro after
  have reblocked : Reblocked table after := by
    apply Table.reblocked_setRequest
    · exact Iff.rfl
    all_goals rfl
  refine ⟨wellformed.reblocked reblocked fun owner used => ?_, reblocked⟩
  have blocks := wellformed.blocks used
  have absent : request ∉ (table.owners owner).own_blocks := by
    intro found
    obtain ⟨-, -, repost | blocking⟩ := blocks.owned request found
    · rw [live.2] at repost
      exact Bool.false_ne_true repost
    · rw [idle] at blocking
      exact Bool.false_ne_true blocking
  simp only [after, Table.owners_setRequest, Table.owners_setOwner]
  have others : ∀ block ∈ (table.owners owner).own_blocks,
      (after.requests block).in_use = true ∧ (after.requests block).lrq_owner = owner ∧
        ((after.requests block).repost = true ∨ (after.requests block).blocking = true) := by
    intro block found
    have differ : block ≠ request := by
      rintro rfl
      exact absent found
    simp only [after, Table.requests_setRequest, if_neg differ]
    exact blocks.owned block found
  split
  · next same =>
      subst same
      constructor
      case nodup => exact nodup_snoc blocks.nodup absent
      case owned =>
          intro block member
          rcases List.mem_append.mp member with found | added
          · exact others block found
          · rw [List.mem_singleton] at added
            subst added
            simp only [Table.requests_setRequest, if_true]
            exact ⟨live.1, rfl, .inr trivial⟩
  · exact ⟨blocks.nodup, others⟩

theorem Wellformed.markBlocking {request : Nat} (queue : List Nat) {table : Table}
    (wellformed : Wellformed strict table) (live : ∀ block ∈ queue, (table.requests block).Live) :
    Wellformed strict (Table.markBlocking request queue table).1 ∧
      Reblocked table (Table.markBlocking request queue table).1 := by
  induction queue generalizing table with
  | nil => exact ⟨wellformed, Reblocked.refl table⟩
  | cons block queue ih =>
      have others : ∀ other ∈ queue, (table.requests other).Live := fun other member =>
        live other (List.mem_cons_of_mem _ member)
      rw [Table.markBlocking]
      dsimp only
      split
      · exact ih wellformed others
      · generalize step : (if (table.requests block).blocking = true then table else
          (table.setOwner (table.requests block).lrq_owner fun owner =>
            { owner with own_blocks := owner.own_blocks ++ [block] }).setRequest block fun block =>
              { block with blocking := true, blocking_seen := false, just_granted := false }) =
                marked
        have marks : Wellformed strict marked ∧ Reblocked table marked := by
          rw [← step]
          split
          · exact ⟨wellformed, Reblocked.refl table⟩
          · next idle =>
              exact wellformed.block (live block List.mem_cons_self) (Bool.eq_false_iff.mpr idle)
        obtain ⟨sound, reblocked⟩ := marks
        split
        · exact ⟨sound, reblocked⟩
        · obtain ⟨sound, rest⟩ := ih sound fun other member =>
            (reblocked.live other).mpr (others other member)
          exact ⟨sound, reblocked.trans rest⟩

theorem Kept.postBlockage {table : Table} (request : Nat) (wellformed : Wellformed strict table)
    (live : (table.requests request).Live) : Kept table (table.postBlockage request) := by
  obtain ⟨used, -⟩ := wellformed.on_lock request live
  obtain ⟨-, reblocked⟩ := @Wellformed.markBlocking strict request
    (table.locks (table.requests request).lrq_lock).lbl_requests table wellformed
      fun block member => (wellformed.queued _ used block member).1
  exact reblocked.toKept.trans (.of_core (Table.core_signalOwners _))

theorem Wellformed.postBlockage {table : Table} {request : Nat} (wellformed : Wellformed strict table)
    (live : (table.requests request).Live) : Sound strict table (table.postBlockage request) := by
  obtain ⟨used, -⟩ := wellformed.on_lock request live
  obtain ⟨sound, reblocked⟩ := @Wellformed.markBlocking strict request
    (table.locks (table.requests request).lrq_lock).lbl_requests table wellformed
      fun block member => (wellformed.queued _ used block member).1
  have signaled := fun owners => @Table.core_signalOwners (Table.markBlocking request
    (table.locks (table.requests request).lrq_lock).lbl_requests table).1 owners
  exact (Sound.of_reblocked sound reblocked).trans (.of_core sound (signaled _))

/-! ## Going to wait -/

/-- A request joins the pending queue of its owner. -/
structure Joined (table : Table) (request : Nat) (after : Table) : Prop extends
    Kept table after where
  blocks : ∀ owner, (after.owners owner).own_blocks = (table.owners owner).own_blocks
  own_requests : ∀ owner, (after.owners owner).own_requests = (table.owners owner).own_requests
  own_pending : ∀ owner, (after.owners owner).own_pending =
    if owner = (table.requests request).lrq_owner then (table.owners owner).own_pending ++ [request]
    else (table.owners owner).own_pending
  in_use : ∀ other, (after.requests other).in_use = (table.requests other).in_use
  repost : ∀ other, (after.requests other).repost = (table.requests other).repost
  blocking : ∀ other, (after.requests other).blocking = (table.requests other).blocking
  pending : ∀ other, (after.requests other).pending =
    if other = request then true else (table.requests other).pending
  lrq_state : ∀ other, (after.requests other).lrq_state = (table.requests other).lrq_state
  pending_count : ∀ lock, (after.locks lock).lbl_pending_lrq_count =
    if lock = (table.requests request).lrq_lock then (table.locks lock).lbl_pending_lrq_count + 1
    else (table.locks lock).lbl_pending_lrq_count
  lbl_counts : ∀ lock, (after.locks lock).lbl_counts = (table.locks lock).lbl_counts
  lbl_state : ∀ lock, (after.locks lock).lbl_state = (table.locks lock).lbl_state

theorem Joined.wellformed {table after : Table} {request : Nat}
    (joined : Joined table request after) (wellformed : Wellformed strict table)
    (live : (table.requests request).Live) (idle : (table.requests request).pending = false) :
    Wellformed strict after := by
  have absent : ∀ owner ∈ table.lhb_owners, request ∉ (table.owners owner).own_pending := by
    intro owner used found
    have waits := (wellformed.pending_owned owner used request found).2.2
    rw [idle] at waits
    exact Bool.false_ne_true waits
  constructor
  case toQueues =>
      constructor
      case pending_nodup =>
          intro owner used
          rw [joined.active] at used
          rw [joined.own_pending]
          split
          · exact nodup_snoc (wellformed.pending_nodup owner used) (absent owner used)
          · exact wellformed.pending_nodup owner used
      case pending_owned =>
          intro owner used other member
          rw [joined.active] at used
          rw [joined.live, joined.owner, joined.pending]
          rw [joined.own_pending] at member
          rcases eq_or_ne other request with rfl | differ
          · rw [if_pos rfl]
            refine ⟨live, ?_, rfl⟩
            split at member
            · next same => exact same.symm
            · exact absurd member (absent owner used)
          · rw [if_neg differ]
            apply wellformed.pending_owned owner used other
            split at member
            · exact (List.mem_append.mp member).resolve_right (by simpa using differ)
            · exact member
      case on_pending =>
          intro other alive waits
          rw [joined.live] at alive
          rw [joined.owner, joined.own_pending]
          rw [joined.pending] at waits
          rcases eq_or_ne other request with rfl | differ
          · rw [if_pos rfl]
            exact List.mem_append_right _ (List.mem_singleton_self other)
          · rw [if_neg differ] at waits
            have found := wellformed.on_pending other alive waits
            split
            · exact List.mem_append_left _ found
            · exact found
      case pending_count =>
          intro lock used
          rw [joined.hash] at used
          have before := wellformed.pending_count lock used
          have nodup := wellformed.queue_nodup lock used
          rw [joined.pending_count, joined.queue, before]
          have others : ∀ queue : List Nat, request ∉ queue →
              queue.countP (fun other => (after.requests other).pending) =
                queue.countP fun other => (table.requests other).pending := by
            intro queue missing
            apply List.countP_congr
            intro other found
            rw [joined.pending, if_neg (by rintro rfl; exact missing found)]
          split
          · next same =>
              have member : request ∈ (table.locks lock).lbl_requests :=
                same ▸ (wellformed.on_lock request live).2
              rw [countP_erase_add member Request.pending, countP_erase_add member Request.pending,
                others _ nodup.not_mem_erase, joined.pending, if_pos rfl, idle, UInt16.ofNat_add]
              simp
          · next differ =>
              rw [others]
              intro member
              exact differ (wellformed.queued lock used request member).2.symm
      all_goals
        simp only [joined.hash, joined.active, joined.queue, joined.live, joined.lock,
          joined.owner, joined.own_requests, joined.blocks, joined.in_use, joined.repost,
          joined.blocking]
      · exact wellformed.hash_nodup
      · exact wellformed.owners_nodup
      · exact wellformed.queue_nodup
      · exact wellformed.queued
      · exact wellformed.on_lock
      · exact wellformed.own_nodup
      · exact wellformed.owned
      · exact wellformed.on_owner
      · exact wellformed.blocks_nodup
      · exact wellformed.blocks_owned
  case counts =>
      intro lock used level nonempty
      rw [joined.hash] at used
      rw [joined.lbl_counts, joined.queue, granted_congr fun other _ => joined.lrq_state other]
      exact wellformed.counts lock used level nonempty
  case state =>
      simp only [joined.hash, joined.lbl_state, joined.lbl_counts]
      exact wellformed.state

/-- The order of a queue does not matter to the bookkeeping. -/
theorem Wellformed.reorder {table : Table} {lock : Nat} {queue : List Nat}
    (wellformed : Wellformed strict table) (same : queue.Perm (table.locks lock).lbl_requests) :
    Sound strict table (table.setLock lock fun block => { block with lbl_requests := queue }) := by
  have perm : ∀ other, (((table.setLock lock fun block =>
      { block with lbl_requests := queue }).locks other).lbl_requests).Perm
        (table.locks other).lbl_requests := by
    intro other
    rw [Table.locks_setLock]
    split
    · next equal => exact equal ▸ same
    · exact .refl _
  have counts := Table.field_update Lock.lbl_counts table.locks lock
    { table.locks lock with lbl_requests := queue } rfl
  have state := Table.field_update Lock.lbl_state table.locks lock
    { table.locks lock with lbl_requests := queue } rfl
  have pending := Table.field_update Lock.lbl_pending_lrq_count table.locks lock
    { table.locks lock with lbl_requests := queue } rfl
  refine ⟨{ wellformed with
    queue_nodup := fun other used => (perm other).nodup_iff.mpr (wellformed.queue_nodup other used)
    queued := fun other used request member =>
      wellformed.queued other used request ((perm other).mem_iff.mp member)
    on_lock := fun request live => ⟨(wellformed.on_lock request live).1,
      (perm _).mem_iff.mpr (wellformed.on_lock request live).2⟩
    pending_count := fun other used => (pending other).trans
      ((wellformed.pending_count other used).trans
        (congrArg UInt16.ofNat ((perm other).countP_eq _).symm))
    counts := fun other used level nonempty => (congrFun (counts other) level).trans
      ((wellformed.counts other used level nonempty).trans
        (congrArg UInt16.ofNat ((perm other).countP_eq _).symm))
    state := fun exactly other used => (state other).trans
      ((wellformed.state exactly other used).trans (congrArg lockState (counts other).symm)) }, ?_, ?_⟩
  · intro _ compatible _ other used first first_member second second_member differ
    exact compatible other used first ((perm other).mem_iff.mp first_member) second
      ((perm other).mem_iff.mp second_member) differ
  · exact fun countable other used =>
      Nat.le_trans (Nat.le_of_eq (perm other).length_eq) (countable other used)

theorem Wellformed.waitForRequest {table : Table} {request : Nat} (timeout : Bool)
    (wellformed : Wellformed strict table) (live : (table.requests request).Live)
    (idle : (table.requests request).pending = false) :
    Sound strict table (table.waitForRequest request timeout) := by
  rw [Table.waitForRequest]
  generalize entered : Table.setLock (Table.setRequest (Table.setOwner table _ _) request _) _ _ =
    waiting
  have joined : Joined table request waiting := by
    rw [← entered]
    constructor
    case toKept =>
        refine ⟨rfl, rfl, ?_, fun other => ?_, ?_, ?_⟩
        · simp [apply_ite]
        · rcases eq_or_ne other request with rfl | differ
          · simp [Request.Live]
          · simp [Request.Live, differ]
        · simp [apply_ite]
        · simp [apply_ite]
    case own_pending =>
        intro owner
        rcases eq_or_ne owner (table.requests request).lrq_owner with rfl | differ
        · simp
        · simp [differ]
    case pending_count =>
        intro lock
        rcases eq_or_ne lock (table.requests request).lrq_lock with rfl | differ
        · simp
        · simp [differ]
    all_goals simp [apply_ite]
  have sound : Sound strict table waiting := .of_kept (joined.wellformed wellformed live idle)
    joined.toKept fun _ compatible _ => compatible.of_kept joined.toKept joined.lrq_state
  have alive := (joined.live request).mpr live
  generalize queued : (if (waiting.requests request).lrq_state = .none then
    waiting.setLock (table.requests request).lrq_lock fun block =>
      { block with lbl_requests := block.lbl_requests.erase request ++ [request] } else waiting) =
        lined
  have line : Sound strict waiting lined ∧ lined.requests = waiting.requests := by
    rw [← queued]
    split
    · have member := (sound.wellformed.on_lock request alive).2
      rw [joined.lock] at member
      exact ⟨sound.wellformed.reorder
        (List.perm_append_comm.trans (List.perm_cons_erase member).symm), rfl⟩
    · exact ⟨.refl sound.wellformed, rfl⟩
  have timed : (if timeout = true then
      lined.setRequest request fun block => { block with wait_timeout := true } else lined).core =
        lined.core := by
    split
    · exact Table.core_setRequest request _ rfl rfl
    · rfl
  have lined_live := (Kept.of_core timed).live request
  rw [line.2] at lined_live
  have limited := Sound.of_core line.1.wellformed timed
  exact sound.trans (line.1.trans (limited.trans
    (limited.wellformed.postBlockage (lined_live.mpr alive))))

/-! ## Conversion -/

theorem Ready.of_core {before after : Table} {request : Nat} (ready : Ready strict before request)
    (same : after.core = before.core) : Ready strict after request := by
  have kept := Kept.of_core same
  have counts := congrFun (congrArg Core.lbl_counts same)
  have state := congrFun (congrArg Core.lbl_state same)
  simp only [Table.core] at counts state
  refine { ready.toQueues.of_queues (congrArg Core.queues same) with
    live := (kept.live request).mpr ready.live, counts := ?_, state := ?_ }
  · intro lock used level nonempty
    rw [kept.hash] at used
    rw [counts, granted_of_core same, kept.lock, kept.queue]
    exact ready.counts lock used level nonempty
  · intro exactly lock used differ
    rw [kept.hash] at used
    rw [kept.lock] at differ
    rw [state, counts]
    exact ready.state exactly lock used differ

theorem Wellformed.postPending_sound {table : Table} (wellformed : Wellformed strict table) {lock : Nat}
    (used : lock ∈ table.lhb_hash) : Sound strict table (table.postPending lock) :=
  .of_kept (wellformed.postPending used).1 (Kept.postPending table lock)
    (wellformed.postPending used).2

theorem Wellformed.releaseRequest_sound {table : Table} {request : Nat}
    (wellformed : Wellformed strict table) (live : (table.requests request).Live)
    (small : strict → Small table request) : Sound strict table (table.releaseRequest request) := by
  obtain ⟨sound, agree, released⟩ := wellformed.releaseRequest live small
  exact ⟨sound, agree, released.countable⟩

theorem Wellformed.internalDequeue_sound {table : Table} {request : Nat}
    (wellformed : Wellformed strict table) (live : (table.requests request).Live)
    (small : strict → Small table request) : Sound strict table (table.internalDequeue request) := by
  obtain ⟨sound, agree, released⟩ := wellformed.internalDequeue live small
  exact ⟨sound, agree, released.countable⟩

/-- A pending request can only be waited for once. -/
def Table.MayWait (table : Table) (request : Nat) (lck_wait : Wait) : Prop :=
  lck_wait ≠ .noWait → (table.requests request).pending = false

theorem Wellformed.internalConvert {table : Table} {request : Nat} (type : Level) (lck_wait : Wait)
    (ast_routine : Bool) (wellformed : Wellformed strict table) (live : (table.requests request).Live)
    (may_wait : table.MayWait request lck_wait) :
    Sound strict table (table.internalConvert request type lck_wait ast_routine).1 := by
  rw [Table.internalConvert]
  generalize asked : (table.setRequest request fun block =>
    { block with lrq_requested := type, blocking_seen := false }) = asking
  have same : asking.core = table.core := by
    rw [← asked]
    exact Table.core_setRequest request _ rfl rfl
  have kept := Kept.of_core same
  have start := Sound.of_core wellformed same
  have alive := (kept.live request).mpr live
  obtain ⟨used, -⟩ := start.wellformed.on_lock request alive
  rw [← kept.lock]
  split
  · next fits =>
      generalize converted : (asking.withdraw (asking.requests request).lrq_lock request).setRequest
        request (fun block => { block with lrq_ast_routine := ast_routine }) = converting
      have withdrawn := Kept.withdraw asking (asking.requests request).lrq_lock request
      have converting_core : converting.core =
          (asking.withdraw (asking.requests request).lrq_lock request).core := by
        rw [← converted]
        exact Table.core_setRequest request _ rfl rfl
      have ready := (start.wellformed.ready_conversion alive).of_core converting_core
      have kept := withdrawn.trans (.of_core converting_core)
      have requested : (converting.requests request).lrq_requested = type := by
        rw [← converted, ← asked]
        simp [Table.withdraw]
      have kept_grant := kept.trans (Kept.grant converting request)
      have grants : Sound strict asking (converting.grant request) := by
        apply Sound.of_kept ready.grant kept_grant
        intro _ compatible countable
        apply ready.grant_fits _ (kept.countable countable)
        · rw [requested, kept.lock, ← converted]
          exact fits
        · exact (compatible.withdraw _ request).of_core converting_core
      exact start.trans (grants.trans
        (grants.wellformed.postPending_sound (kept_grant.hash ▸ used)))
  split
  · next waits =>
      have idle : (asking.requests request).pending = false := by
        rw [← asked, Table.requests_setRequest, if_pos rfl]
        exact may_wait waits
      exact start.trans (start.wellformed.waitForRequest _ alive idle)
  · exact start.trans (.of_core start.wellformed (Table.core_setRequest request _ rfl rfl))

theorem Wellformed.reject {table : Table} {request : Nat} (wellformed : Wellformed strict table)
    (live : (table.requests request).Live) (pending : (table.requests request).pending = true) :
    Sound strict table (table.reject request) := by
  have same : (table.setRequest request fun block => { block with rejected := true }).core =
      table.core := Table.core_setRequest request _ rfl rfl
  have kept := Kept.of_core same
  have start := Sound.of_core wellformed same
  have alive := (kept.live request).mpr live
  have waits : ((table.setRequest request fun block =>
      { block with rejected := true }).requests request).pending = true := by
    rw [Table.requests_setRequest, if_pos rfl]
    exact pending
  exact start.trans (.of_kept (start.wellformed.clearPending alive waits)
    (Kept.clearPending _ request) fun _ compatible _ => compatible.clearPending)

theorem Wellformed.convertWoken {table : Table} {request : Nat} (ast_routine : Bool)
    (wellformed : Wellformed strict table) (live : (table.requests request).Live) :
    Sound strict table (table.convertWoken request ast_routine).1 := by
  have ended := Sound.of_core wellformed (table.core_endWait request)
  have alive := ((Kept.of_core (table.core_endWait request)).live request).mpr live
  rw [Table.convertWoken]
  split
  · have posted := ended.wellformed.postPending_sound (ended.wellformed.on_lock request alive).1
    exact ended.trans (posted.trans (.of_core posted.wellformed
      (Table.core_setRequest request _ rfl rfl)))
  · exact ended.trans (.of_core ended.wellformed (Table.core_setRequest request _ rfl rfl))

theorem Wellformed.downgrade {table : Table} {request : Nat} (wellformed : Wellformed strict table)
    (live : (table.requests request).Live) (small : strict → Small table request) :
    Sound strict table (table.downgrade request) := by
  rw [Table.downgrade]
  split
  · exact wellformed.internalDequeue_sound live small
  · exact wellformed.internalConvert _ _ _ live fun waits => absurd rfl waits

end LockManager
end Firebird
