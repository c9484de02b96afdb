import Firebird.Lock.Enqueue
import Firebird.Lock.Frame

/-!
# The line at a lock

The requests of a lock stand in line in the order of its queue.  `post_pending` serves the line from
the front, up to the first waiting request that is incompatible with what the others hold.
-/

namespace Firebird
namespace LockManager

/-- The requests of a lock in the order of its queue, and the counts of what they hold. -/
structure Line where
  queue : List (Nat × Vital)
  lbl_counts : Level → UInt16

namespace Line

variable (line : Line)

/-- The first request in line that waits. -/
def head : Option (Nat × Vital) := line.queue.find? fun entry => entry.2.pending

/-- What a request asks for is incompatible with the state of the lock without it. -/
def Blocks (block : Vital) : Prop :=
  compatibility block.lrq_requested (lockState (decrement line.lbl_counts block.lrq_state)) = false

/-- The first request in line cannot be granted. -/
def HeadWaits : Prop := ∀ entry, line.head = some entry → line.Blocks entry.2

end Line

/-- The line at a lock of the lock table. -/
def Table.line (table : Table) (lock : Nat) : Line :=
  { queue := (table.locks lock).lbl_requests.map fun request =>
      (request, (table.requests request).vital)
    lbl_counts := (table.locks lock).lbl_counts }

/-- Nobody in line is granted anything, released or brought to another level. -/
structure Untouched (before : Table) (lock : Nat) (after : Table) : Prop where
  stays : ∀ request ∈ (before.locks lock).lbl_requests, request ∈ (after.locks lock).lbl_requests
  level : ∀ request ∈ (after.locks lock).lbl_requests, (after.requests request).lrq_state =
    if request ∈ (before.locks lock).lbl_requests then (before.requests request).lrq_state else .none

namespace Table

variable {table before after : Table} {lock : Nat}

theorem line_ignores (lock : Nat) : Ignores fun table : Table => table.line lock := by
  refine ⟨fun _ _ _ => rfl, fun _ _ => rfl, fun table index assign same => ?_⟩
  simp only [line, setRequest, field_update Request.vital table.requests index _ same]

/-- Two lines agree if the queues, the requests on them and the counts do. -/
theorem line_congr (queue : (after.locks lock).lbl_requests = (before.locks lock).lbl_requests)
    (counts : (after.locks lock).lbl_counts = (before.locks lock).lbl_counts)
    (vital : ∀ request ∈ (before.locks lock).lbl_requests,
      (after.requests request).vital = (before.requests request).vital) :
    after.line lock = before.line lock := by
  rw [line, line, queue, counts]
  congr 1
  exact List.map_congr_left fun request member => by rw [vital request member]

theorem line_setLock_of_ne {other : Nat} (differ : other ≠ lock) (assign : Lock → Lock) :
    (table.setLock lock assign).line other = table.line other := by
  rw [line, line, locks_setLock, if_neg differ]
  rfl

theorem line_setRequest_of_notMem {request : Nat}
    (absent : request ∉ (table.locks lock).lbl_requests) (assign : Request → Request) :
    (table.setRequest request assign).line lock = table.line lock := by
  refine line_congr rfl rfl fun other member => ?_
  rw [requests_setRequest, if_neg]
  rintro rfl
  exact absent member

end Table

theorem Untouched.of_line {before after : Table} {lock : Nat}
    (same : after.line lock = before.line lock) : Untouched before lock after := by
  have queue := congrArg (fun line => line.queue.map Prod.fst) same
  simp only [Table.line, List.map_map, Function.comp_def, List.map_id'] at queue
  refine ⟨fun request member => queue ▸ member, fun request member => ?_⟩
  have entry : (request, (after.requests request).vital) ∈ (after.line lock).queue :=
    List.mem_map.mpr ⟨request, member, rfl⟩
  rw [same] at entry
  obtain ⟨other, found, equal⟩ := List.mem_map.mp entry
  obtain ⟨rfl, vital⟩ := Prod.mk.injEq _ _ _ _ ▸ equal
  rw [if_pos found]
  exact (congrArg Vital.lrq_state vital).symm

theorem Untouched.trans {before middle after : Table} {lock : Nat}
    (first : Untouched before lock middle) (second : Untouched middle lock after) :
    Untouched before lock after := by
  refine ⟨fun request member => second.stays request (first.stays request member),
    fun request member => ?_⟩
  rw [second.level request member]
  by_cases found : request ∈ (middle.locks lock).lbl_requests
  · rw [if_pos found, first.level request found]
  · rw [if_neg found, if_neg fun member => found (first.stays request member)]

/-! ## What a routine does to every line -/

/-- Every line that is still there has a head that must wait, or nobody in it was served and its head
waits if it did before. -/
def Attentive (before after : Table) : Prop :=
  ∀ lock ∈ after.lhb_hash, (after.line lock).HeadWaits ∨
    lock ∈ before.lhb_hash ∧ Untouched before lock after ∧
      ((before.line lock).HeadWaits → (after.line lock).HeadWaits)

theorem Attentive.trans {before middle after : Table} (first : Attentive before middle)
    (second : Attentive middle after) : Attentive before after := by
  intro lock used
  rcases second lock used with waits | ⟨used, untouched, kept⟩
  · exact .inl waits
  rcases first lock used with waits | ⟨used, earlier, kept_earlier⟩
  · exact .inl (kept waits)
  · exact .inr ⟨used, earlier.trans untouched, fun waits => kept (kept_earlier waits)⟩

theorem Attentive.of_lines {before after : Table}
    (same : ∀ lock ∈ after.lhb_hash, (after.line lock).HeadWaits ∨
      lock ∈ before.lhb_hash ∧ after.line lock = before.line lock) : Attentive before after := by
  intro lock used
  rcases same lock used with waits | ⟨known, line⟩
  · exact .inl waits
  · exact .inr ⟨known, .of_line line, fun waits => line ▸ waits⟩

/-! ## Granting what is pending -/

namespace Table

variable {table : Table} {lock request : Nat}

/-- Granting does not concern other locks. -/
theorem line_grant_of_ne {other : Nat} (differ : other ≠ (table.requests request).lrq_lock)
    (absent : request ∉ (table.locks other).lbl_requests) :
    (table.grant request).line other = table.line other := by
  have kept := Kept.grant table request
  obtain ⟨after, owner, settled, grant_eq⟩ := grant_settled table request
  refine line_congr (kept.queue other) ?_ fun block member => ?_
  · rw [grant_eq]
    have counts : ((if (after.requests request).pending then after.clearPending request
        else after).locks other).lbl_counts = (after.locks other).lbl_counts := by
      split
      · exact lbl_counts_clearPending _ _ _
      · rfl
    have woken := congrFun (congrArg Core.lbl_counts (@core_postWakeup (if
      (after.requests request).pending then after.clearPending request else after) owner)) other
    exact (woken.trans counts).trans ((settled.counts other).trans (if_neg differ))
  · rw [requests_grant_of_ne]
    rintro rfl
    exact absent member

theorem line_withdraw_of_ne {other : Nat} (differ : other ≠ lock) :
    (table.withdraw lock request).line other = table.line other := by
  rw [withdraw]
  exact line_setLock_of_ne differ _

/-- A line in which nobody waits. -/
theorem headWaits_of_idle
    (idle : ∀ block ∈ (table.locks lock).lbl_requests, (table.requests block).pending = false) :
    (table.line lock).HeadWaits := by
  intro entry found
  have waits := List.find?_some found
  obtain ⟨block, inside, rfl⟩ := List.mem_map.mp (List.mem_of_find?_eq_some found)
  exact absurd (idle block inside) (by simpa [Request.vital] using waits)

/-- `post_pending` does not concern other locks. -/
theorem line_grantPending_of_ne {other : Nat} (differ : other ≠ lock) (queue : List Nat)
    (housed : ∀ block ∈ queue, (table.requests block).lrq_lock = lock)
    (absent : ∀ block ∈ queue, block ∉ (table.locks other).lbl_requests) :
    (grantPending lock queue table).line other = table.line other := by
  induction queue generalizing table with
  | nil => rfl
  | cons block queue ih =>
      have own := housed block List.mem_cons_self
      have away := absent block List.mem_cons_self
      have granted : ∀ {before : Table}, Kept table before →
          (grantPending lock queue (before.grant block)).line other = before.line other := by
        intro before kept
        have after := kept.trans (Kept.grant before block)
        rw [ih, line_grant_of_ne]
        · rw [kept.lock, own]
          exact differ
        · rw [kept.queue]
          exact away
        · intro next member
          rw [after.lock]
          exact housed next (List.mem_cons_of_mem _ member)
        · intro next member
          rw [after.queue]
          exact absent next (List.mem_cons_of_mem _ member)
      rw [grantPending]
      dsimp only
      split
      · exact ih (fun next member => housed next (List.mem_cons_of_mem _ member))
          fun next member => absent next (List.mem_cons_of_mem _ member)
      split
      · split
        · exact (granted (Kept.withdraw table lock block)).trans (line_withdraw_of_ne differ)
        · exact (line_ignores other).postWakeup _ _
      · split
        · exact granted (.refl table)
        · exact (line_ignores other).postWakeup _ _

theorem line_postPending_of_ne {other : Nat} (queues : Queues table) (used : lock ∈ table.lhb_hash)
    (known : other ∈ table.lhb_hash) (differ : other ≠ lock) :
    (table.postPending lock).line other = table.line other := by
  have granted := @line_grantPending_of_ne table lock other differ (table.locks lock).lbl_requests
    (fun block member => (queues.queued lock used block member).2)
    fun block member found => differ ((queues.queued other known block found).2.symm.trans
      (queues.queued lock used block member).2)
  rw [postPending]
  split
  · rfl
  · dsimp only
    split
    · exact ((line_ignores other).markGranted _ _).trans granted
    · exact granted

theorem head_line (table : Table) (lock : Nat) : (table.line lock).head =
    ((table.locks lock).lbl_requests.find? fun request => (table.requests request).pending).map
      fun request => (request, (table.requests request).vital) := by
  rw [Line.head, line, List.find?_map]
  rfl

/-- A change to a request that does not wait. -/
theorem headWaits_setRequest {assign : Request → Request}
    (idle : (table.requests request).pending = false)
    (idle_after : (assign (table.requests request)).pending = false)
    (waits : (table.line lock).HeadWaits) :
    ((table.setRequest request assign).line lock).HeadWaits := by
  have pending : (fun other => ((table.setRequest request assign).requests other).pending) =
      fun other => (table.requests other).pending := by
    funext other
    rw [requests_setRequest]
    split
    · next same => rw [same, idle, idle_after]
    · rfl
  intro entry found
  rw [head_line, pending] at found
  obtain ⟨other, first, rfl⟩ := Option.map_eq_some_iff.mp found
  have differ : other ≠ request := by
    rintro rfl
    exact Bool.false_ne_true (idle.symm.trans (List.find?_some
      (p := fun other => (table.requests other).pending) first))
  have same : (table.setRequest request assign).requests other = table.requests other := by
    rw [requests_setRequest, if_neg differ]
  rw [same]
  refine waits _ ?_
  rw [head_line]
  exact Option.map_eq_some_iff.mpr ⟨other, first, rfl⟩

/-- What is granted holds what it asked for, and the lock is in the state of its counts. -/
theorem lbl_state_grant (table : Table) (request : Nat) :
    ((table.grant request).locks (table.requests request).lrq_lock).lbl_state =
      lockState ((table.grant request).locks (table.requests request).lrq_lock).lbl_counts := by
  obtain ⟨after, owner, settled, grant_eq⟩ := grant_settled table request
  have state := settled.state (table.requests request).lrq_lock
  rw [if_pos rfl] at state
  rw [grant_eq]
  have woken := @core_postWakeup (if (after.requests request).pending then
    after.clearPending request else after) owner
  have states := congrFun (congrArg Core.lbl_state woken) (table.requests request).lrq_lock
  have counts := congrFun (congrArg Core.lbl_counts woken) (table.requests request).lrq_lock
  simp only [core] at states counts
  rw [states, counts]
  split
  · rw [lbl_state_clearPending, lbl_counts_clearPending, state]
  · exact state

/-- The level of no lock is in no count that matters. -/
theorem lockState_decrement_none (lbl_counts : Level → UInt16) :
    lockState (decrement lbl_counts .none) = lockState lbl_counts := by
  simp [lockState, decrement]

theorem head_of_idle {queue front : List Nat} {requests : Nat → Request} {request : Nat}
    (idle : ∀ block ∈ front, (requests block).pending = false)
    (waits : (requests request).pending = true) (counts : Level → UInt16) :
    ({ queue := (front ++ request :: queue).map fun block => (block, (requests block).vital),
       lbl_counts := counts } : Line).head = some (request, (requests request).vital) := by
  rw [Line.head, List.map_append, List.find?_append, List.find?_eq_none.mpr, Option.none_or,
    List.map_cons, List.find?_cons_of_pos]
  · exact waits
  · intro entry member
    obtain ⟨block, found, rfl⟩ := List.mem_map.mp member
    simpa [Request.vital] using idle block found

/-- The first loop of `post_pending` stops at a request that must wait. -/
theorem headWaits_grantPending (front queue : List Nat)
    (line : (table.locks lock).lbl_requests = front ++ queue)
    (housed : ∀ block ∈ queue, (table.requests block).lrq_lock = lock)
    (idle : ∀ block ∈ front, (table.requests block).pending = false)
    (nodup : (front ++ queue).Nodup)
    (state : (table.locks lock).lbl_state = lockState (table.locks lock).lbl_counts) :
    ((grantPending lock queue table).line lock).HeadWaits := by
  induction queue generalizing front table with
  | nil =>
      refine headWaits_of_idle fun block inside => ?_
      rw [grantPending, line, List.append_nil] at inside
      exact idle block inside
  | cons request queue ih =>
      have regroup : front ++ request :: queue = (front ++ [request]) ++ queue := by simp
      have others := fun block member => housed block (List.mem_cons_of_mem request member)
      have own := housed request List.mem_cons_self
      have granted : ∀ {before : Table}, Kept table before →
          before.requests = table.requests →
            ((grantPending lock queue (before.grant request)).line lock).HeadWaits := by
        intro before kept same
        have after := kept.trans (Kept.grant before request)
        have lock_own : (before.requests request).lrq_lock = lock := by rw [kept.lock, own]
        refine ih (front ++ [request]) ?_ ?_ ?_ (regroup ▸ nodup) ?_
        · rw [after.queue, line, regroup]
        · intro block member
          rw [after.lock]
          exact others block member
        · intro block member
          rcases eq_or_ne block request with rfl | differ
          · rw [requests_grant, Function.update_self]
            rfl
          · rw [requests_grant_of_ne _ differ, same]
            exact idle block ((List.mem_append.mp member).resolve_right (by simpa using differ))
        · have settled := lbl_state_grant before request
          rw [lock_own] at settled
          exact settled
      have stops : ∀ owner, (table.requests request).pending = true →
          compatibility (table.requests request).lrq_requested (lockState (decrement
            (table.locks lock).lbl_counts (table.requests request).lrq_state)) = false →
          ((table.postWakeup owner).line lock).HeadWaits := by
        intro owner waits refused
        rw [(line_ignores lock).postWakeup]
        intro entry found
        have head : (table.line lock).head = some (request, (table.requests request).vital) := by
          rw [Table.line, line]
          exact head_of_idle idle waits _
        obtain rfl := Option.some.inj (head.symm.trans found)
        exact refused
      rw [grantPending]
      dsimp only
      split
      · next idles =>
          refine ih (front ++ [request]) (line.trans regroup) others ?_ (regroup ▸ nodup) state
          intro block member
          rcases List.mem_append.mp member with found | found
          · exact idle block found
          · rw [List.mem_singleton.mp found]
            simpa using idles
      next waits =>
        have pends : (table.requests request).pending = true := by simpa using waits
        split
        · split
          · exact granted (Kept.withdraw table lock request) rfl
          · next refused =>
              refine stops _ pends ?_
              simpa [withdraw] using refused
        · next none_held =>
            split
            · exact granted (.refl table) rfl
            · next refused =>
                refine stops _ pends ?_
                rw [not_not.mp none_held, lockState_decrement_none, ← state]
                simpa using refused

/-- After `post_pending` the head of the line must wait. -/
theorem headWaits_postPending (wellformed : Wellformed True table) (used : lock ∈ table.lhb_hash)
    (few : ((table.locks lock).lbl_requests.countP fun request =>
      (table.requests request).pending) < 65536) :
    ((table.postPending lock).line lock).HeadWaits := by
  have granted := @headWaits_grantPending table lock [] (table.locks lock).lbl_requests rfl
    (fun block member => (wellformed.queued lock used block member).2)
    (fun block member => absurd member List.not_mem_nil) (wellformed.queue_nodup lock used)
    (wellformed.state trivial lock used)
  have count := wellformed.pending_count lock used
  rw [postPending]
  split
  · next zero =>
      have none_waits : ((table.locks lock).lbl_requests.countP fun request =>
          (table.requests request).pending) = 0 := by
        have value := congrArg UInt16.toNat (count.symm.trans zero)
        rw [UInt16.toNat_ofNat', Nat.mod_eq_of_lt few] at value
        exact value
      refine headWaits_of_idle fun block inside => ?_
      simpa using List.countP_eq_zero.mp none_waits block inside
  · dsimp only
    split
    · rw [(line_ignores lock).markGranted]
      exact granted
    · exact granted

end Table

end LockManager
end Firebird
