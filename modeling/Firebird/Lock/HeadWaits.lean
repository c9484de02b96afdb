import Firebird.Lock.Line
import Firebird.Lock.Run

/-!
# No waiting request is forgotten

Whatever grants, releases or changes the level of a request calls `post_pending` for its lock before
it is done, so that the first waiting request in line is one that cannot be granted.
-/

namespace Firebird
namespace LockManager

namespace Table

variable {table : Table} {lock request : Nat}

theorem line_detach_of_ne {other : Nat} (queues : Queues table) (known : other ∈ table.lhb_hash)
    (differ : other ≠ (table.requests request).lrq_lock) :
    (table.detach request).line other = table.line other := by
  have detached := table.detach_detached request
  refine line_congr ?_ (detached.lbl_counts other) fun block member => ?_
  · rw [detached.queue, if_neg differ]
  · rw [detached.requests]
    rintro rfl
    exact differ (queues.queued other known block member).2.symm

theorem line_discount_of_ne {other : Nat} (differ : other ≠ lock) :
    (table.discount lock request).line other = table.line other := by
  have withdrawn := @line_withdraw_of_ne table lock request other differ
  rw [discount]
  dsimp only
  split
  · split
    · exact (line_setLock_of_ne differ _).trans withdrawn
    · exact withdrawn
  · rfl

theorem countP_pending_lt {queue : List Nat} {requests : Nat → Request} {bound : Nat}
    (short : queue.length < bound) :
    (queue.countP fun request => (requests request).pending) < bound :=
  Nat.lt_of_le_of_lt List.countP_le_length short

end Table

/-! ## Releasing -/

namespace Attentive

variable {table : Table} {request : Nat}

theorem releaseRequest (wellformed : Wellformed True table)
    (small : Small table request)
    (short : (table.locks (table.requests request).lrq_lock).lbl_requests.length ≤ 65536)
    (live : (table.requests request).Live) : Attentive table (table.releaseRequest request) := by
  obtain ⟨used, member⟩ := wellformed.on_lock request live
  have detached := table.detach_detached request
  have away : ∀ other ∈ table.lhb_hash, other ≠ (table.requests request).lrq_lock →
      (table.detach request).line other = table.line other := fun other known differ =>
    Table.line_detach_of_ne wellformed.toQueues known differ
  refine .of_lines fun lock active => ?_
  rw [Table.releaseRequest] at active ⊢
  dsimp only at active ⊢
  split at active
  · next empty =>
      rw [if_pos empty]
      have known := List.mem_of_mem_erase active
      change lock ∈ (table.detach request).lhb_hash at known
      rw [detached.hash] at known
      have differ : lock ≠ (table.requests request).lrq_lock := by
        rintro rfl
        refine List.Nodup.not_mem_erase ?_ active
        change (table.detach request).lhb_hash.Nodup
        rw [detached.hash]
        exact wellformed.hash_nodup
      exact .inr ⟨known, away lock known differ⟩
  · next full =>
      rw [if_neg full]
      have discounted := detached.discount wellformed live fun _ => small
      have kept := (table.detach request).discount_kept (table.requests request).lrq_lock request
      have hash : ((table.detach request).discount (table.requests request).lrq_lock
          request).lhb_hash = table.lhb_hash := kept.hash.trans detached.hash
      have known : lock ∈ table.lhb_hash := by
        rw [← hash, ← (Kept.postPending _ (table.requests request).lrq_lock).hash]
        exact active
      rcases eq_or_ne lock (table.requests request).lrq_lock with rfl | differ
      · refine .inl (Table.headWaits_postPending discounted (hash ▸ used)
          (Table.countP_pending_lt ?_))
        rw [kept.queue, detached.queue, if_pos rfl, List.length_erase_of_mem member]
        have positive := List.length_pos_of_mem member
        omega
      · refine .inr ⟨known, ?_⟩
        rw [Table.line_postPending_of_ne discounted.toQueues (hash ▸ used) (hash ▸ known) differ,
          Table.line_discount_of_ne differ]
        exact away lock known differ

theorem internalDequeue (wellformed : Wellformed True table) (bounded : Bounded table)
    (live : (table.requests request).Live) : Attentive table (table.internalDequeue request) := by
  have same : (table.setRequest request fun block =>
      { block with lrq_ast_routine := false }).core = table.core :=
    Table.core_setRequest request _ rfl rfl
  have kept := Kept.of_core same
  have quiet : Attentive table (table.setRequest request fun block =>
      { block with lrq_ast_routine := false }) :=
    .of_lines fun lock used => .inr ⟨used, (Table.line_ignores lock).flags _ _ _ rfl⟩
  have bounded_after : Bounded (table.setRequest request fun block =>
      { block with lrq_ast_routine := false }) := bounded
  have alive := (kept.live request).mpr live
  have sound := wellformed.of_core same
  rw [Table.internalDequeue]
  exact quiet.trans (releaseRequest sound (bounded_after.small sound.toQueues alive)
    (Nat.le_of_lt (bounded_after _ (sound.on_lock request alive).1)) alive)

theorem refl (table : Table) : Attentive table table :=
  .of_lines fun _ used => .inr ⟨used, rfl⟩

theorem giveBack {prior : Option Nat} (wellformed : Wellformed True table) (bounded : Bounded table)
    (live : ∀ block, prior = some block → (table.requests block).Live) :
    Attentive table (table.giveBack prior) := by
  cases prior with
  | none => exact refl table
  | some block => exact internalDequeue wellformed bounded (live block rfl)

theorem releaseRequests (requests : List Nat) {table : Table} (wellformed : Wellformed True table)
    (bounded : Bounded table) (nodup : requests.Nodup)
    (live : ∀ request ∈ requests, (table.requests request).Live) :
    Attentive table (requests.foldl Table.releaseRequest table) := by
  induction requests generalizing table with
  | nil => exact refl table
  | cons request requests ih =>
      obtain ⟨absent, nodup⟩ := List.nodup_cons.mp nodup
      have alive := live request List.mem_cons_self
      have small := bounded.small wellformed.toQueues alive
      obtain ⟨sound, -, released⟩ := wellformed.releaseRequest alive fun _ => small
      have first := releaseRequest wellformed small
        (Nat.le_of_lt (bounded _ (wellformed.on_lock request alive).1)) alive
      refine first.trans (ih sound (bounded.released released) nodup fun other member => ?_)
      exact (released.live other).mpr
        ⟨fun same => absent (same ▸ member), live other (List.mem_cons_of_mem _ member)⟩

theorem purgeOwner {owner : Nat} (wellformed : Wellformed True table) (bounded : Bounded table)
    (active : owner ∈ table.lhb_owners) : Attentive table (table.purgeOwner owner) := by
  have purged := releaseRequests _ wellformed bounded (wellformed.own_nodup owner active)
    fun request member => (wellformed.owned owner active request member).1
  rw [Table.purgeOwner]
  refine purged.trans (.of_lines fun lock used => .inr ?_)
  have hash (middle : Table) (blocks : List Nat) : (blocks.foldl (fun table request =>
      (table.setOwner owner fun block =>
        { block with own_blocks := block.own_blocks.erase request }).setRequest request fun block =>
          { block with in_use := false }) middle).lhb_hash = middle.lhb_hash := by
    refine @Ignores.foldl _ Table.lhb_hash _ (fun middle request => ?_) _ _
    rfl
  refine ⟨hash _ _ ▸ used, ((Table.line_ignores lock).active _ _).trans ?_⟩
  refine @Ignores.foldl _ (fun table => table.line lock) _ (fun middle request => ?_) _ _
  rw [(Table.line_ignores lock).flags _ _ _ rfl, (Table.line_ignores lock).owner]

end Attentive

/-! ## Waiting -/

/-- A request block while it waits. -/
def Vital.waiting (vital : Vital) : Vital := { vital with pending := true }

namespace Table

variable {table : Table} {lock request : Nat}

/-- A request that goes to wait is pending, at the end of the line if it holds nothing. -/
theorem line_waitForRequest (table : Table) (request lock : Nat) (timeout : Bool) :
    (table.waitForRequest request timeout).line lock =
      { queue := (if lock = (table.requests request).lrq_lock ∧
            (table.requests request).lrq_state = .none then
          (table.locks lock).lbl_requests.erase request ++ [request]
        else (table.locks lock).lbl_requests).map fun other =>
          (other, if other = request then (table.requests other).vital.waiting
            else (table.requests other).vital)
        lbl_counts := (table.locks lock).lbl_counts } := by
  have ignores := line_ignores lock
  have timed (middle : Table) : (if timeout then
      middle.setRequest request fun block => { block with wait_timeout := true }
        else middle).line lock = middle.line lock := by
    split
    · exact ignores.flags _ _ _ rfl
    · rfl
  have vital (other : Nat) : (if other = request then ({ table.requests request with
      rejected := false, pending := true } : Request) else table.requests other).vital =
        if other = request then (table.requests other).vital.waiting
          else (table.requests other).vital := by
    split
    · next same =>
        rw [same]
        rfl
    · rfl
  have state (middle : Table) : ((middle.setRequest request fun block =>
      { block with rejected := false, pending := true }).requests request).lrq_state =
        (middle.requests request).lrq_state := by
    rw [requests_setRequest, if_pos rfl]
  rw [waitForRequest, ignores.postBlockage, timed, requests_setLock, state, requests_setOwner]
  rcases eq_or_ne lock (table.requests request).lrq_lock with rfl | differ
  · by_cases held : (table.requests request).lrq_state = .none
    · have last : (table.requests request).lrq_lock = (table.requests request).lrq_lock ∧
          (table.requests request).lrq_state = .none := ⟨rfl, held⟩
      rw [if_pos held, if_pos last]
      simp only [line, locks_setLock, requests_setLock, requests_setRequest, locks_setRequest,
        locks_setOwner, requests_setOwner, if_true, vital]
    · have place : ¬((table.requests request).lrq_lock = (table.requests request).lrq_lock ∧
          (table.requests request).lrq_state = .none) := fun both => held both.2
      rw [if_neg held, if_neg place]
      simp only [line, locks_setLock, requests_setLock, requests_setRequest, locks_setRequest,
        locks_setOwner, requests_setOwner, if_true, vital]
  · have elsewhere : ¬(lock = (table.requests request).lrq_lock ∧
        (table.requests request).lrq_state = .none) := fun both => differ both.1
    have same (middle : Table) (assign : Lock → Lock) : (if (table.requests request).lrq_state =
        .none then middle.setLock (table.requests request).lrq_lock assign else middle).line lock =
          middle.line lock := by
      split
      · exact line_setLock_of_ne differ assign
      · rfl
    rw [if_neg elsewhere, same, line_setLock_of_ne differ]
    simp only [line, requests_setRequest, locks_setRequest, locks_setOwner, requests_setOwner,
      vital]

end Table

/-- A line is known when its requests and their blocks are. -/
theorem Table.line_entries {table : Table} {lock : Nat} {queue : List Nat} {block : Nat → Vital}
    {lbl_counts : Level → UInt16} (line : table.line lock =
      { queue := queue.map fun request => (request, block request), lbl_counts := lbl_counts }) :
    (table.locks lock).lbl_requests = queue ∧
      ∀ request ∈ queue, (table.requests request).vital = block request := by
  have entries : ((table.locks lock).lbl_requests.map fun request =>
      (request, (table.requests request).vital)) = queue.map fun request =>
        (request, block request) := congrArg Line.queue line
  have same : (table.locks lock).lbl_requests = queue := by
    simpa [Function.comp_def] using congrArg (List.map Prod.fst) entries
  refine ⟨same, fun request member => ?_⟩
  rw [same] at entries
  exact congrArg Prod.snd (List.map_inj_left.mp entries request member)

theorem Table.lhb_hash_ignores : Ignores Table.lhb_hash :=
  ⟨fun _ _ _ => rfl, fun _ _ => rfl, fun _ _ _ _ => rfl⟩

theorem Table.lhb_hash_waitForRequest (table : Table) (request : Nat) (timeout : Bool) :
    (table.waitForRequest request timeout).lhb_hash = table.lhb_hash := by
  rw [Table.waitForRequest, Table.lhb_hash_ignores.postBlockage]
  have timed (middle : Table) : (if timeout then
      middle.setRequest request fun block => { block with wait_timeout := true }
        else middle).lhb_hash = middle.lhb_hash := by
    split
    · rfl
    · rfl
  rw [timed]
  split
  · rfl
  · rfl

/-- Going to wait serves nobody. -/
theorem Untouched.waitForRequest {table : Table} {request lock : Nat} (timeout : Bool)
    (member : lock = (table.requests request).lrq_lock →
      request ∈ (table.locks lock).lbl_requests) :
    Untouched table lock (table.waitForRequest request timeout) := by
  obtain ⟨queue, vital⟩ := Table.line_entries (table.line_waitForRequest request lock timeout)
  have members : ∀ other, other ∈ ((table.waitForRequest request timeout).locks lock).lbl_requests ↔
      other ∈ (table.locks lock).lbl_requests := by
    intro other
    rw [queue]
    split
    · next last =>
        exact ((List.perm_append_singleton request _).trans
          (List.perm_cons_erase (member last.1)).symm).mem_iff
    · exact Iff.rfl
  refine ⟨fun other found => (members other).mpr found, fun other found => ?_⟩
  rw [if_pos ((members other).mp found)]
  rw [queue] at found
  have state := congrArg Vital.lrq_state (vital other found)
  refine state.trans ?_
  split
  · rfl
  · rfl

theorem Admitted.attentive {before after : Table} {request lock owner : Nat}
    (admitted : Admitted before request lock owner after) (queues : Queues before)
    (free : (before.requests request).in_use = false) : Attentive before after := by
  intro other used
  rw [admitted.hash] at used
  have absent : request ∉ (before.locks other).lbl_requests := fun found =>
    Bool.false_ne_true (free.symm.trans (queues.queued other used request found).1.1)
  have others : ∀ block ∈ (before.locks other).lbl_requests,
      after.requests block = before.requests block := fun block member =>
    admitted.others block (by rintro rfl; exact absent member)
  right
  refine ⟨used, ?_⟩
  rcases eq_or_ne other lock with rfl | differ
  · have queue := admitted.queue other
    rw [if_pos rfl] at queue
    constructor
    · refine ⟨fun block member => queue ▸ List.mem_append_left _ member, fun block member => ?_⟩
      rw [queue] at member
      rcases List.mem_append.mp member with found | found
      · rw [if_pos found, others block found]
      · rw [List.mem_singleton.mp found, if_neg absent]
        exact admitted.lrq_state
    · intro waits
      have head : (after.line other).head = (before.line other).head := by
        rw [Line.head, Line.head, Table.line, Table.line, queue, List.map_append,
          List.find?_append]
        have same : ((before.locks other).lbl_requests.map fun block =>
            (block, (after.requests block).vital)) = (before.locks other).lbl_requests.map
              fun block => (block, (before.requests block).vital) :=
          List.map_congr_left fun block member => by rw [others block member]
        have alone : ([request].map fun block => (block, (after.requests block).vital)).find?
            (fun entry => entry.2.pending) = none := by
          simp [Request.vital, admitted.pending]
        rw [same, alone, Option.or_none]
      intro entry found
      rw [head] at found
      have blocks := waits entry found
      rw [Line.Blocks, Table.line] at blocks ⊢
      rw [admitted.lbl_counts]
      exact blocks
  · have line : after.line other = before.line other := by
      refine Table.line_congr ?_ (admitted.lbl_counts other) fun block member => ?_
      · rw [admitted.queue, if_neg differ]
      · rw [others block member]
    exact ⟨.of_line line, fun waits => line ▸ waits⟩

namespace Attentive

/-- A new request joins the line: it is granted, it waits, or it is released again. -/
theorem grantOrQue {before table : Table} {request lock owner : Nat} (lck_wait : Wait)
    (admitted : Admitted before request lock owner
      (table.setRequest request fun block => { block with lrq_lock := lock }))
    (wellformed : Wellformed True before) (bounded : Bounded before) (used : lock ∈ before.lhb_hash)
    (active : owner ∈ before.lhb_owners) (free : (before.requests request).in_use = false) :
    Attentive before (table.grantOrQue request lock lck_wait).1 := by
  rw [Table.grantOrQue]
  generalize (table.setRequest request fun block => { block with lrq_lock := lock }) = after
    at admitted ⊢
  have entered := admitted.attentive wellformed.toQueues free
  have sound := admitted.wellformed wellformed used active free
  have ready := admitted.ready (wellformed.nearly lock) used active free
  have absent : ∀ other ∈ before.lhb_hash, request ∉ (before.locks other).lbl_requests :=
    fun other known found =>
      Bool.false_ne_true (free.symm.trans (wellformed.queued other known request found).1.1)
  have queue := admitted.queue lock
  rw [if_pos rfl] at queue
  have others : ∀ block ∈ (before.locks lock).lbl_requests,
      after.requests block = before.requests block := fun block member =>
    admitted.others block (by rintro rfl; exact absent lock used member)
  have used_after : lock ∈ after.lhb_hash := admitted.hash ▸ used
  have away : ∀ other ∈ before.lhb_hash, other ≠ lock →
      request ∉ (after.locks other).lbl_requests := by
    intro other known differ found
    rw [admitted.queue, if_neg differ] at found
    exact absent other known found
  split
  · have kept := Kept.grant after request
    have granted := ready.grant
    have block := admitted.lrq_lock
    refine .of_lines fun other known => ?_
    rw [(Kept.postPending _ lock).hash, kept.hash, admitted.hash] at known
    rcases eq_or_ne other lock with rfl | differ
    · refine .inl (Table.headWaits_postPending granted (kept.hash ▸ used_after) ?_)
      have settled : ((after.grant request).requests request).pending = false := by
        rw [Table.requests_grant, Function.update_self]
        rfl
      rw [kept.queue, queue, List.countP_append, List.countP_singleton, settled, if_neg (by decide)]
      exact Table.countP_pending_lt (bounded _ used)
    · refine .inr ⟨known, ?_⟩
      rw [Table.line_postPending_of_ne granted.toQueues (kept.hash ▸ used_after)
          (by rw [kept.hash, admitted.hash]; exact known) differ,
        Table.line_grant_of_ne (by rw [block]; exact differ) (away other known differ)]
      refine Table.line_congr ?_ (admitted.lbl_counts other) fun block member => ?_
      · rw [admitted.queue, if_neg differ]
      · rw [admitted.others]
        rintro rfl
        exact absent other known member
  next refused =>
    split
    · refine entered.trans fun other known => .inr ?_
      rw [Table.lhb_hash_waitForRequest] at known
      have line := after.line_waitForRequest request other (lck_wait = .timeout)
      refine ⟨known, .waitForRequest _ fun same => ?_, fun waits => ?_⟩
      · rw [same]
        exact (sound.on_lock request admitted.live).2
      rcases eq_or_ne other lock with rfl | differ
      · have last : other = (after.requests request).lrq_lock ∧
            (after.requests request).lrq_state = .none :=
          ⟨admitted.lrq_lock.symm, admitted.lrq_state⟩
        have rest : (after.locks other).lbl_requests.erase request =
            (before.locks other).lbl_requests := by
          rw [queue, List.erase_append_right _ (absent other used), List.erase_cons_head,
            List.append_nil]
        have entries : ((before.locks other).lbl_requests.map fun block =>
            (block, if block = request then (after.requests block).vital.waiting
              else (after.requests block).vital)) =
            (before.locks other).lbl_requests.map fun block =>
              (block, (after.requests block).vital) := by
          refine List.map_congr_left fun block member => ?_
          rw [if_neg]
          rintro rfl
          exact absent other used member
        intro entry found
        rw [line, if_pos last, rest, Line.head, List.map_append, List.find?_append, entries] at found
        rw [line, Line.Blocks]
        dsimp only
        cases front : ((before.locks other).lbl_requests.map fun block =>
            (block, (after.requests block).vital)).find? fun entry => entry.2.pending with
        | some first =>
            rw [front, Option.some_or] at found
            refine waits entry ?_
            rw [Line.head, Table.line, queue, List.map_append, List.find?_append, front,
              Option.some_or]
            exact found
        | none =>
            -- Nobody waits yet, so the request was refused for what the others hold.
            have idle : ∀ block ∈ (before.locks other).lbl_requests,
                (after.requests block).pending = false := by
              intro block member
              have quiet := List.find?_eq_none.mp front (block, (after.requests block).vital)
                (List.mem_map.mpr ⟨block, member, rfl⟩)
              simpa [Request.vital] using quiet
            have count : (after.locks other).lbl_pending_lrq_count = 0 := by
              rw [sound.pending_count other used_after, queue, List.countP_append,
                List.countP_singleton, admitted.pending, List.countP_eq_zero.mpr]
              · rfl
              · intro block member
                rw [idle block member]
                exact Bool.false_ne_true
            have incompatible : compatibility (after.requests request).lrq_requested
                (after.locks other).lbl_state = false := by
              refine Bool.eq_false_iff.mpr fun fits => ?_
              exact refused ⟨fits, .inr count⟩
            rw [front, Option.none_or, List.map_singleton, List.find?_cons_of_pos] at found
            · obtain rfl := Option.some.inj found
              rw [if_pos rfl]
              change compatibility (after.requests request).lrq_requested (lockState (decrement
                (after.locks other).lbl_counts (after.requests request).lrq_state)) = false
              rw [admitted.lrq_state, Table.lockState_decrement_none,
                ← sound.state trivial other used_after]
              exact incompatible
            · rw [if_pos rfl]
              rfl
      · have same : (after.waitForRequest request (lck_wait = .timeout)).line other =
            after.line other := by
          rw [line, if_neg fun last => differ (last.1.trans admitted.lrq_lock), Table.line]
          congr 1
          refine List.map_congr_left fun block member => ?_
          rw [if_neg]
          rintro rfl
          exact away other (admitted.hash ▸ known) differ member
        rw [same]
        exact waits
    · refine entered.trans (releaseRequest sound (.inl admitted.lrq_state) ?_ admitted.live)
      rw [admitted.lrq_lock, queue, List.length_append, List.length_singleton]
      exact bounded lock used

theorem enqueueLock {table : Table} {request lock owner : Nat} (type : Level) (ast_routine : Bool)
    (data : Int) (lck_wait : Wait) (wellformed : Wellformed True table) (bounded : Bounded table)
    (used : lock ∈ table.lhb_hash) (active : owner ∈ table.lhb_owners)
    (free : (table.requests request).in_use = false) :
    Attentive table ((table.allocRequest none request type ast_routine owner).enqueueLock request
      lock data lck_wait).1 := by
  rw [Table.enqueueLock]
  exact grantOrQue lck_wait (table.enqueueLock_admitted request lock owner type ast_routine data)
    wellformed bounded used active free

theorem createLock {table : Table} {request lock owner series : Nat} {value : List UInt8}
    (type : Level) (ast_routine : Bool) (data : Int) (wellformed : Wellformed True table)
    (fresh : lock ∉ table.lhb_hash) (free : (table.requests request).in_use = false) :
    Attentive table ((table.allocRequest none request type ast_routine owner).createLock request lock
      series value type data) := by
  obtain ⟨after, admitted, created⟩ :=
    @Table.createLock_admitted table request lock series value type ast_routine data owner
  rw [created]
  have kept := Kept.grant after request
  have queue := admitted.queue lock
  rw [if_pos rfl, Table.openLock_self] at queue
  refine .of_lines fun other known => ?_
  rw [kept.hash, admitted.hash] at known
  rcases eq_or_ne other lock with rfl | differ
  · refine .inl (Table.headWaits_of_idle fun block member => ?_)
    rw [kept.queue, queue] at member
    rw [List.mem_singleton.mp member, Table.requests_grant, Function.update_self]
    rfl
  · have known : other ∈ table.lhb_hash :=
      (List.mem_append.mp known).resolve_right (by simpa using differ)
    have absent : request ∉ (table.locks other).lbl_requests := fun found =>
      Bool.false_ne_true (free.symm.trans (wellformed.queued other known request found).1.1)
    have same : (after.locks other).lbl_requests = (table.locks other).lbl_requests := by
      rw [admitted.queue, if_neg differ, Table.openLock_of_ne differ]
    refine .inr ⟨known, ?_⟩
    rw [Table.line_grant_of_ne (by rw [admitted.lrq_lock]; exact differ) (same ▸ absent)]
    refine Table.line_congr same ?_ fun block member => ?_
    · rw [admitted.lbl_counts, Table.openLock_of_ne differ]
    · rw [admitted.others]
      · rfl
      · rintro rfl
        exact absent member

theorem dropRequest {table : Table} {request owner : Nat} (type : Level) (ast_routine : Bool)
    (wellformed : Wellformed True table) (free : (table.requests request).in_use = false) :
    Attentive table ((table.allocRequest none request type ast_routine owner).dropRequest
      request) := by
  refine .of_lines fun lock used => .inr ⟨used, ?_⟩
  have absent : request ∉ (table.locks lock).lbl_requests := fun found =>
    Bool.false_ne_true (free.symm.trans (wellformed.queued lock used request found).1.1)
  refine Table.line_congr rfl rfl fun block member => ?_
  have differ : block ≠ request := by
    rintro rfl
    exact absent member
  simp [Table.dropRequest, Table.allocRequest, differ]

theorem enqueueWoken {table : Table} {request : Nat} (wellformed : Wellformed True table)
    (bounded : Bounded table) (live : (table.requests request).Live) :
    Attentive table (table.enqueueWoken request).1 := by
  have same := table.core_endWait request
  have kept := Kept.of_core same
  have ended : Attentive table (table.endWait request) := .of_lines fun lock used =>
    .inr ⟨kept.hash ▸ used, (Table.line_ignores lock).endWait _ _⟩
  have alive := (kept.live request).mpr live
  have sound := wellformed.of_core same
  have bounded_after : Bounded (table.endWait request) := fun lock used => by
    rw [kept.queue]
    exact bounded lock (kept.hash ▸ used)
  rw [Table.enqueueWoken]
  split
  · exact ended.trans (releaseRequest sound (bounded_after.small sound.toQueues alive)
      (Nat.le_of_lt (bounded_after _ (sound.on_lock request alive).1)) alive)
  · exact ended

end Attentive

/-! ## Conversion -/

theorem Untouched.of_core {before after : Table} (same : after.core = before.core) (lock : Nat) :
    Untouched before lock after := by
  have queue := (Kept.of_core same).queue
  have state := congrFun (congrArg Core.lrq_state same)
  simp only [Table.core] at state
  refine ⟨fun request member => (queue lock).symm ▸ member, fun request member => ?_⟩
  rw [queue] at member
  rw [if_pos member]
  exact state request

theorem Untouched.reject (table : Table) (request lock : Nat) :
    Untouched table lock (table.reject request) := by
  have queue : ((table.reject request).locks lock).lbl_requests = (table.locks lock).lbl_requests :=
    Table.lbl_requests_clearPending _ _ _
  refine ⟨fun other member => queue.symm ▸ member, fun other member => ?_⟩
  rw [queue] at member
  rw [if_pos member, Table.reject, Table.requests_clearPending,
    Table.field_clearPending Request.lrq_state other fun _ => rfl]
  rw [Table.requests_setRequest]
  split
  · next same => rw [same]
  · rfl

/-- A request of the lock is released, granted or brought to another level. -/
def Served (before : Table) (lock : Nat) (after : Table) : Prop :=
  ∃ request,
    request ∈ (before.locks lock).lbl_requests ∧ request ∉ (after.locks lock).lbl_requests ∨
    request ∈ (after.locks lock).lbl_requests ∧ (after.requests request).lrq_state ≠
      if request ∈ (before.locks lock).lbl_requests then (before.requests request).lrq_state
      else .none

theorem Untouched.not_served {before after : Table} {lock : Nat}
    (untouched : Untouched before lock after) : ¬Served before lock after := by
  rintro ⟨request, ⟨member, gone⟩ | ⟨member, moved⟩⟩
  · exact gone (untouched.stays request member)
  · exact moved (untouched.level request member)

/-- Whoever was served, the head of the line must wait. -/
def Answered (before after : Table) : Prop :=
  ∀ lock ∈ after.lhb_hash, Served before lock after → (after.line lock).HeadWaits

namespace Answered

variable {table : Table} {request : Nat}

theorem of_attentive {before after : Table} (attentive : Attentive before after) :
    Answered before after := by
  intro lock used served
  rcases attentive lock used with waits | ⟨-, untouched, -⟩
  · exact waits
  · exact absurd served untouched.not_served

theorem of_untouched {before after : Table}
    (untouched : ∀ lock ∈ after.lhb_hash, Untouched before lock after) : Answered before after :=
  fun lock used served => absurd served (untouched lock used).not_served

theorem of_core {before after : Table} (same : after.core = before.core) :
    Answered before after :=
  of_untouched fun lock _ => .of_core same lock

theorem internalConvert (type : Level) (lck_wait : Wait) (ast_routine : Bool)
    (wellformed : Wellformed True table) (bounded : Bounded table)
    (live : (table.requests request).Live) :
    Answered table (table.internalConvert request type lck_wait ast_routine).1 := by
  obtain ⟨used, member⟩ := wellformed.on_lock request live
  have asked : (table.setRequest request fun block =>
      { block with lrq_requested := type, blocking_seen := false }).core = table.core :=
    Table.core_setRequest request _ rfl rfl
  have sound := wellformed.of_core asked
  have alive := ((Kept.of_core asked).live request).mpr live
  rw [Table.internalConvert]
  dsimp only
  split
  · generalize converted : ((table.setRequest request fun block =>
      { block with lrq_requested := type, blocking_seen := false }).withdraw
        (table.requests request).lrq_lock request).setRequest request
          (fun block => { block with lrq_ast_routine := ast_routine }) = converting
    have same : converting.core = ((table.setRequest request fun block =>
        { block with lrq_requested := type, blocking_seen := false }).withdraw
          (table.requests request).lrq_lock request).core := by
      rw [← converted]
      exact Table.core_setRequest request _ rfl rfl
    have own : ((table.setRequest request fun block =>
        { block with lrq_requested := type, blocking_seen := false }).requests request).lrq_lock =
          (table.requests request).lrq_lock := (Kept.of_core asked).lock request
    have ready := (own ▸ sound.ready_conversion alive).of_core same
    have kept : Kept table converting := (Kept.of_core asked).trans
      ((Kept.withdraw _ _ request).trans (.of_core same))
    have kept_grant := kept.trans (Kept.grant converting request)
    have granted := ready.grant
    have requests : ∀ other, other ≠ request → converting.requests other = table.requests other := by
      intro other differ
      rw [← converted]
      simp [Table.withdraw, differ]
    have counts : ∀ other, other ≠ (table.requests request).lrq_lock →
        (converting.locks other).lbl_counts = (table.locks other).lbl_counts := by
      intro other differ
      rw [← converted]
      simp [Table.withdraw, differ]
    refine of_attentive (.of_lines fun other known => ?_)
    rw [(Kept.postPending _ _).hash, kept_grant.hash] at known
    rcases eq_or_ne other (table.requests request).lrq_lock with rfl | differ
    · refine .inl (Table.headWaits_postPending granted (kept_grant.hash ▸ used)
        (Table.countP_pending_lt ?_))
      rw [kept_grant.queue]
      exact bounded _ used
    · have absent : request ∉ (table.locks other).lbl_requests := fun found =>
        differ (wellformed.queued other known request found).2.symm
      refine .inr ⟨known, ?_⟩
      rw [Table.line_postPending_of_ne granted.toQueues (kept_grant.hash ▸ used)
          (kept_grant.hash ▸ known) differ,
        Table.line_grant_of_ne (by rw [kept.lock]; exact differ) (kept.queue other ▸ absent)]
      refine Table.line_congr (kept.queue other) (counts other differ) fun block found => ?_
      rw [requests]
      rintro rfl
      exact absent found
  split
  · refine of_untouched fun other known => ?_
    refine (Untouched.of_core asked other).trans (.waitForRequest _ ?_)
    rintro rfl
    exact (sound.on_lock request alive).2
  · exact of_core ((Table.core_setRequest request _ rfl rfl).trans asked)

theorem downgrade (wellformed : Wellformed True table) (bounded : Bounded table)
    (live : (table.requests request).Live) : Answered table (table.downgrade request) := by
  rw [Table.downgrade]
  split
  · exact of_attentive (.internalDequeue wellformed bounded live)
  · exact internalConvert _ _ _ wellformed bounded live

theorem convertWoken (ast_routine : Bool) (wellformed : Wellformed True table)
    (bounded : Bounded table) (live : (table.requests request).Live)
    (idle : (table.requests request).pending = false) :
    Answered table (table.convertWoken request ast_routine).1 := by
  have ended := table.core_endWait request
  have kept := Kept.of_core ended
  have sound := wellformed.of_core ended
  have alive := (kept.live request).mpr live
  obtain ⟨used, member⟩ := sound.on_lock request alive
  rw [Table.convertWoken]
  dsimp only
  split
  · have kept_posted := Kept.postPending (table.endWait request)
      ((table.endWait request).requests request).lrq_lock
    have idle_ended : ((table.endWait request).requests request).pending = false := by
      rw [Table.endWait]
      simpa using idle
    have idle_posted := (Table.field_postPending Request.pending (fun _ => rfl) idle_ended
      ((table.endWait request).requests request).lrq_lock).trans idle_ended
    refine of_attentive (.of_lines fun other known => ?_)
    change other ∈ (Table.postPending _ _).lhb_hash at known
    rw [kept_posted.hash] at known
    rcases eq_or_ne other ((table.endWait request).requests request).lrq_lock with rfl | differ
    · left
      dsimp only
      refine Table.headWaits_setRequest idle_posted idle_posted
        (Table.headWaits_postPending sound used (Table.countP_pending_lt ?_))
      rw [kept.queue]
      exact bounded _ (kept.hash ▸ used)
    · have absent : request ∉ ((table.endWait request).locks other).lbl_requests := fun found =>
        differ (sound.queued other known request found).2.symm
      refine .inr ⟨kept.hash ▸ known, ?_⟩
      rw [Table.line_setRequest_of_notMem (by rw [kept_posted.queue]; exact absent),
        Table.line_postPending_of_ne sound.toQueues used known differ]
      exact (Table.line_ignores other).endWait _ _
  · exact of_core ((Table.core_setRequest request _ rfl rfl).trans ended)

theorem rejectVictim {scanned : Table} (same : scanned.core = table.core) (request victim : Nat) :
    Answered table (scanned.rejectVictim request victim) := by
  refine of_untouched fun lock _ =>
    (Untouched.of_core same lock).trans ((Untouched.reject scanned victim lock).trans (.of_line ?_))
  have ignores := Table.line_ignores lock
  rw [Table.rejectVictim]
  split
  · exact ignores.owner _ _ _
  · exact (ignores.postWakeup _ _).trans (ignores.owner _ _ _)

/-- Steps that change neither queues nor what requests wait for and hold. -/
theorem of_lines {before after : Table} (hash : after.lhb_hash = before.lhb_hash)
    (same : ∀ lock ∈ before.lhb_hash, after.line lock = before.line lock) :
    Answered before after :=
  of_attentive (.of_lines fun lock used => .inr ⟨hash ▸ used, same lock (hash ▸ used)⟩)

end Answered

/-! ## Runs -/

/-- A step that serves somebody in line leaves a head that must wait. -/
theorem Step.answered {before after : Table} (step : Step before after)
    (wellformed : Wellformed True before) (bounded : Bounded before) : Answered before after := by
  have strict : True → Bounded before := fun _ => bounded
  have ignores_hash := Table.lhb_hash_ignores
  cases step with
  | createOwner fresh => exact .of_lines rfl fun _ _ => rfl
  | useOwner => exact .of_core (Table.core_setOwner _ _ rfl rfl rfl)
  | leaveOwner => exact .of_core (Table.core_setOwner _ _ rfl rfl rfl)
  | purgeOwner active => exact .of_attentive (.purgeOwner wellformed bounded active)
  | noRequest live => exact .of_attentive (.internalDequeue wellformed bounded live)
  | enqueueLock active _ live free found =>
      have known := Table.allocRequest_giveBack _ _ _ _ _ _ ▸ found
      obtain ⟨first, bound, owners⟩ := wellformed.giveBack strict live
      rw [Table.allocRequest_giveBack]
      exact .of_attentive ((Attentive.giveBack wellformed bounded live).trans
        (.enqueueLock _ _ _ _ first.wellformed (bound trivial) (List.mem_of_find?_eq_some known)
          (owners ▸ active) free))
  | createLock active _ live free _ fresh =>
      obtain ⟨first, -, -⟩ := wellformed.giveBack strict live
      rw [Table.allocRequest_giveBack]
      exact .of_attentive ((Attentive.giveBack wellformed bounded live).trans
        (.createLock _ _ _ first.wellformed fresh free))
  | dropRequest active _ live free =>
      obtain ⟨first, -, -⟩ := wellformed.giveBack strict live
      rw [Table.allocRequest_giveBack]
      exact .of_attentive ((Attentive.giveBack wellformed bounded live).trans
        (.dropRequest _ _ first.wellformed free))
  | enqueueWoken live => exact .of_attentive (.enqueueWoken wellformed bounded live)
  | convert live => exact .internalConvert _ _ _ wellformed bounded live
  | convertWoken live idle => exact .convertWoken _ wellformed bounded live idle
  | downgrade live => exact .downgrade wellformed bounded live
  | dequeue live => exact .of_attentive (.internalDequeue wellformed bounded live)
  | writeData => exact .of_core (Table.core_replaceData _ _)
  | repost active free =>
      refine .of_lines (ignores_hash.signalOwners _ _) fun lock used => ?_
      refine ((Table.line_ignores lock).signalOwners _ _).trans
        (((Table.line_ignores lock).owner _ _ _).trans (Table.line_setRequest_of_notMem ?_ _))
      exact fun found =>
        Bool.false_ne_true (free.symm.trans (wellformed.queued lock used _ found).1.1)
  | blockingAction =>
      exact .of_lines (ignores_hash.blockingAction _ _) fun lock _ =>
        (Table.line_ignores lock).blockingAction _ _
  | cancelWait => exact .of_core (Table.core_postWakeup _)
  | awake => exact .of_core (Table.core_setOwner _ _ rfl rfl rfl)
  | timeout => exact .of_untouched fun lock _ => .reject _ _ lock
  | postBlockage =>
      exact .of_lines (ignores_hash.postBlockage _ _) fun lock _ =>
        (Table.line_ignores lock).postBlockage _ _
  | deadlock live pending _ _ found =>
      have member := wellformed.mem_pendingRequests.mpr ⟨live, pending⟩
      obtain ⟨_, -, same⟩ := wellformed.deadlockScan_search member
      exact .rejectVictim same _ _
  | noDeadlock =>
      exact .of_lines ((ignores_hash.postBlockage _ _).trans (ignores_hash.deadlockScan _ _))
        fun lock _ => ((Table.line_ignores lock).postBlockage _ _).trans
          ((Table.line_ignores lock).deadlockScan _ _)

/-- The first waiting request of a lock is incompatible with what another request of it holds. -/
def HeadBlocked (table : Table) (lock : Nat) : Prop :=
  ∀ request, ((table.locks lock).lbl_requests.find? fun request =>
      (table.requests request).pending) = some request →
    ∃ other ∈ (table.locks lock).lbl_requests, other ≠ request ∧
      compatibility (table.requests request).lrq_requested (table.requests other).lrq_state = false

theorem Line.HeadWaits.blocked {table : Table} {lock : Nat} (waits : (table.line lock).HeadWaits)
    (wellformed : Wellformed True table) (used : lock ∈ table.lhb_hash) : HeadBlocked table lock := by
  intro request first
  have member := List.mem_of_find?_eq_some first
  have blocks := waits (request, (table.requests request).vital) (by
    rw [Table.head_line, first]
    rfl)
  have counted := (wellformed.counts lock used).decrement member
  rw [Line.Blocks, Table.line] at blocks
  dsimp only [Request.vital] at blocks
  generalize without : decrement (table.locks lock).lbl_counts (table.requests request).lrq_state =
    lbl_counts at counted blocks
  have held : lockState lbl_counts ≠ .none := by
    intro empty
    rw [empty, compatibility_none] at blocks
    exact Bool.false_ne_true blocks.symm
  have present := (lockState_present lbl_counts).resolve_left held
  rw [counted _ held] at present
  have positive : 0 < granted table.requests ((table.locks lock).lbl_requests.erase request)
      (lockState lbl_counts) := by
    refine Nat.pos_of_ne_zero fun zero => present ?_
    rw [zero]
    rfl
  obtain ⟨other, inside, level⟩ := List.countP_pos_iff.mp positive
  refine ⟨other, List.mem_of_mem_erase inside, ?_, ?_⟩
  · rintro rfl
    exact (wellformed.queue_nodup lock used).not_mem_erase inside
  · rw [of_decide_eq_true level]
    exact blocks

/-- As long as no lock has more than 65535 requests, a step that grants or releases a request of a
lock, or brings one to another level, leaves a first waiting request that cannot be granted. -/
theorem Step.headBlocked {before after : Table} (reachable : Reachable Bounded before)
    (step : Step before after) (bounded : Bounded after) :
    ∀ lock ∈ after.lhb_hash, Served before lock after → HeadBlocked after lock := by
  obtain ⟨wellformed, -⟩ := @Reachable.wellformed True Bounded _ reachable fun _ _ bounded => bounded
  obtain ⟨sound, -⟩ := @Reachable.wellformed True Bounded _ (reachable.step step bounded)
    fun _ _ bounded => bounded
  intro lock used served
  exact (step.answered wellformed reachable.last lock used served).blocked sound used

end LockManager
end Firebird
