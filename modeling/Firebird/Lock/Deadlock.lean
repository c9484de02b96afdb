import Firebird.Library.DepthFirst
import Firebird.Lock.Invariant

/-!
# The deadlock scan

`deadlock_walk` follows a waiting request to the owners in its way and to the requests they wait for
themselves.  The marks it leaves on the requests are those of a depth-first search, so it ends, and
its answer is that of the search.
-/

namespace Firebird
namespace LockManager

/-- The answer of a walk, the table with its marks, and `maybe_deadlock`. -/
structure Walk where
  victim : Option Nat
  table : Table
  maybe_deadlock : Bool

namespace Table

/-- `deadlock_clear`. -/
def deadlockClear (table : Table) : Table :=
  let clear := fun (table : Table) (request : Nat) =>
    table.setRequest request fun block => { block with deadlock := false, scanned := false }
  table.lhb_owners.foldl (fun table owner => (table.owners owner).own_pending.foldl clear table) table

/-- An owner that has still to process its ASTs, or to see the lock it was granted. -/
def busy (table : Table) (block : Nat) : Bool :=
  let owner := table.owners (table.requests block).lrq_owner
  owner.signaled || owner.wakeup || !owner.own_blocks.isEmpty ||
    (table.requests block).just_granted

/-- The tests of `deadlock_walk` that skip a request that does not block `request`. -/
def skips (table : Table) (conversion : Bool) (request block : Nat) : Bool :=
  let requested := (table.requests request).lrq_requested
  let candidate := table.requests block
  if conversion then
    request = block || compatibility requested candidate.lrq_state
  else
    compatibility requested (candidate.lrq_state.max candidate.lrq_requested)

/-- The inner loop of `deadlock_walk`, over the pending requests of an owner. -/
def walkPending (walk : Nat → Table → Bool → Option Walk) :
    List Nat → Table → Bool → Option Walk
  | [], table, maybe_deadlock => some ⟨none, table, maybe_deadlock⟩
  | target :: pending, table, maybe_deadlock =>
      if (table.requests target).wait_timeout then
        walkPending walk pending table maybe_deadlock
      else
        match walk target table maybe_deadlock with
        | some ⟨none, table, maybe_deadlock⟩ => walkPending walk pending table maybe_deadlock
        | other => other

/-- The outer loop of `deadlock_walk`, over the requests of the lock. -/
def walkQueue (walk : Nat → Table → Bool → Option Walk) (conversion : Bool) (request : Nat) :
    List Nat → Table → Bool → Option Walk
  | [], table, maybe_deadlock => some ⟨none, table, maybe_deadlock⟩
  | block :: queue, table, maybe_deadlock =>
      if !conversion && request = block then
        some ⟨none, table, maybe_deadlock⟩
      else if table.skips conversion request block then
        walkQueue walk conversion request queue table maybe_deadlock
      else if table.busy block then
        walkQueue walk conversion request queue table true
      else
        match walkPending walk (table.owners (table.requests block).lrq_owner).own_pending table
          maybe_deadlock with
        | some ⟨none, table, maybe_deadlock⟩ =>
            walkQueue walk conversion request queue table maybe_deadlock
        | other => other

/-- `deadlock_walk`; `none` when the fuel runs out. -/
def deadlockWalk : Nat → Nat → Table → Bool → Option Walk
  | 0, _, _, _ => none
  | fuel + 1, request, table, maybe_deadlock =>
      if (table.requests request).scanned then
        some ⟨none, table, maybe_deadlock⟩
      else if (table.requests request).deadlock then
        some ⟨some request, table, maybe_deadlock⟩
      else
        let conversion := Level.null.code < (table.requests request).lrq_state.code
        let queue := (table.locks (table.requests request).lrq_lock).lbl_requests
        let marked := table.setRequest request fun block => { block with deadlock := true }
        match walkQueue (deadlockWalk fuel) conversion request queue marked maybe_deadlock with
        | some ⟨none, table, maybe_deadlock⟩ =>
            some ⟨none, table.setRequest request fun block =>
              { block with deadlock := false, scanned := true }, maybe_deadlock⟩
        | other => other

/-- The requests that wait. -/
def pendingRequests (table : Table) : List Nat :=
  table.lhb_owners.flatMap fun owner => (table.owners owner).own_pending

/-- `deadlock_scan`: the victim, and the table with the marks of the scan. -/
def deadlockScan (table : Table) (request : Nat) : Option Nat × Table :=
  let cleared := table.deadlockClear
  match deadlockWalk (table.pendingRequests.length + 1) request cleared false with
  | none => (none, cleared)
  | some walk =>
      if walk.victim.isNone && !walk.maybe_deadlock then
        (walk.victim, walk.table.setOwner (table.requests request).lrq_owner fun owner =>
          { owner with scanned := true })
      else
        (walk.victim, walk.table)

/-- The rejection of the victim of a deadlock scan by a waiting request. -/
def rejectVictim (table : Table) (request victim : Nat) : Table :=
  let owner := (table.requests victim).lrq_owner
  let table := (table.reject victim).setOwner owner fun block => { block with scanned := false }
  if victim = request then table else table.postWakeup owner

/-! ## Refinement -/

/-- The requests of a queue that the walk follows to their owners. -/
def followed (table : Table) (conversion : Bool) (request : Nat) (queue : List Nat) : List Nat :=
  (if conversion then queue else queue.takeWhile fun block => request ≠ block).filter fun block =>
    !table.skips conversion request block && !table.busy block

/-- The requests that the walk goes on to, from one of those in the way. -/
def targets (table : Table) (block : Nat) : List Nat :=
  (table.owners (table.requests block).lrq_owner).own_pending.filter fun target =>
    !(table.requests target).wait_timeout

/-- The requests that the walk goes on to. -/
def pursued (table : Table) (request : Nat) : List Nat :=
  (table.followed (Level.null.code < (table.requests request).lrq_state.code) request
    (table.locks (table.requests request).lrq_lock).lbl_requests).flatMap table.targets

/-- The table with the marks of a search. -/
def mark (table : Table) (marks : DepthFirst.Marks Nat) : Table :=
  { table with
    requests := fun request =>
      { table.requests request with
        deadlock := (table.requests request).deadlock || decide (request ∈ marks.path)
        scanned := (table.requests request).scanned || decide (request ∈ marks.done) } }

section Refinement

open DepthFirst

variable {table : Table}

theorem mark_empty (table : Table) : table.mark ⟨[], []⟩ = table := by
  simp [mark]

theorem mark_push (table : Table) (marks : Marks Nat) (request : Nat) :
    (table.mark marks).setRequest request (fun block => { block with deadlock := true }) =
      table.mark { marks with path := request :: marks.path } := by
  rw [mark, setRequest, mark]
  congr 1
  funext other
  rcases eq_or_ne other request with rfl | differ
  · simp
  · simp [differ]

theorem mark_finish (table : Table) (marks : Marks Nat) {request : Nat}
    (clear : (table.requests request).deadlock = false) (nodup : marks.path.Nodup) :
    (table.mark marks).setRequest request (fun block =>
      { block with deadlock := false, scanned := true }) =
        table.mark { path := marks.path.erase request, done := request :: marks.done } := by
  rw [mark, setRequest, mark]
  congr 1
  funext other
  rcases eq_or_ne other request with rfl | differ
  · simp [clear, nodup.not_mem_erase]
  · simp [differ, List.mem_erase_of_ne differ]

/-- The walk that a search stands for. -/
def walked (table : Table) (maybe_deadlock : Bool) (result : Option Nat × Marks Nat) : Walk :=
  ⟨result.1, table.mark result.2, maybe_deadlock⟩

/-- A walk does what a search does, whatever it says about `maybe_deadlock`. -/
def Refines (table : Table) (walk : Nat → Table → Bool → Option Walk)
    (visit : Nat → Marks Nat → Option (Option Nat × Marks Nat)) (path : List Nat) (target : Nat) :
    Prop :=
  ∀ marks : Marks Nat, marks.path = path → ∀ maybe_deadlock, ∃ maybe_after,
    walk target (table.mark marks) maybe_deadlock =
      (visit target marks).map (table.walked maybe_after)

variable {walk : Nat → Table → Bool → Option Walk}
  {visit : Nat → Marks Nat → Option (Option Nat × Marks Nat)} {path : List Nat}

theorem walkPending_refines
    (visited_path : ∀ {node marks after}, visit node marks = some (none, after) →
      after.path = marks.path) (pending : List Nat)
    (refines : ∀ target ∈ pending, Refines table walk visit path target)
    {marks : Marks Nat} (same : marks.path = path) (maybe_deadlock : Bool) :
    ∃ maybe_after, walkPending walk pending (table.mark marks) maybe_deadlock =
      (searchAll visit (pending.filter fun target => !(table.requests target).wait_timeout)
        marks).map (table.walked maybe_after) := by
  induction pending generalizing marks maybe_deadlock with
  | nil => exact ⟨maybe_deadlock, rfl⟩
  | cons target pending ih =>
      have others : ∀ other ∈ pending, Refines table walk visit path other :=
        fun other member => refines other (List.mem_cons_of_mem _ member)
      have timeout : ((table.mark marks).requests target).wait_timeout =
          (table.requests target).wait_timeout := rfl
      rw [walkPending, timeout]
      cases waits : (table.requests target).wait_timeout with
      | true =>
          rw [if_pos rfl, List.filter_cons_of_neg (by simp [waits])]
          exact ih others same maybe_deadlock
      | false =>
          rw [if_neg Bool.false_ne_true, List.filter_cons_of_pos (by simp [waits]), searchAll]
          obtain ⟨maybe_middle, step⟩ := refines target List.mem_cons_self marks same maybe_deadlock
          rw [step]
          cases found : visit target marks with
          | none => exact ⟨maybe_middle, rfl⟩
          | some result =>
              obtain ⟨answer, middle⟩ := result
              cases answer with
              | some victim => exact ⟨maybe_middle, rfl⟩
              | none => exact ih others ((visited_path found).trans same) maybe_middle

theorem followed_cons (table : Table) (conversion : Bool) (request block : Nat) (queue : List Nat) :
    table.followed conversion request (block :: queue) =
      if !conversion && request = block then []
      else if table.skips conversion request block || table.busy block then
        table.followed conversion request queue
      else block :: table.followed conversion request queue := by
  cases conversion with
  | true =>
      simp only [followed, if_true, Bool.not_true, Bool.false_and, Bool.false_eq_true, if_false]
      split
      · next skipped => exact List.filter_cons_of_neg (by simpa [or_iff_not_imp_left] using skipped)
      · next kept => exact List.filter_cons_of_pos (by simpa using kept)
  | false =>
      rcases eq_or_ne request block with rfl | differ
      · simp [followed]
      · simp only [followed, Bool.false_eq_true, if_false, Bool.not_false, Bool.true_and,
          decide_eq_true_eq, if_neg differ]
        rw [List.takeWhile_cons_of_pos (by simpa using differ)]
        split
        · next skipped => exact List.filter_cons_of_neg (by simpa [or_iff_not_imp_left] using skipped)
        · next kept => exact List.filter_cons_of_pos (by simpa using kept)

theorem walkQueue_refines
    (visited_path : ∀ {node marks after}, visit node marks = some (none, after) →
      after.path = marks.path) (conversion : Bool) (request : Nat) (queue : List Nat)
    (refines : ∀ block ∈ table.followed conversion request queue,
      ∀ target ∈ (table.owners (table.requests block).lrq_owner).own_pending,
        Refines table walk visit path target)
    {marks : Marks Nat} (same : marks.path = path) (maybe_deadlock : Bool) :
    ∃ maybe_after, walkQueue walk conversion request queue (table.mark marks) maybe_deadlock =
      (searchAll visit ((table.followed conversion request queue).flatMap table.targets)
        marks).map (table.walked maybe_after) := by
  induction queue generalizing marks maybe_deadlock with
  | nil =>
      refine ⟨maybe_deadlock, ?_⟩
      cases conversion <;> rfl
  | cons block queue ih =>
      have skips : (table.mark marks).skips conversion request block =
          table.skips conversion request block := rfl
      have busy : (table.mark marks).busy block = table.busy block := rfl
      rw [walkQueue, skips, busy]
      rw [followed_cons] at refines ⊢
      split
      · exact ⟨maybe_deadlock, rfl⟩
      · next further =>
          rw [if_neg further] at refines
          cases skipped : table.skips conversion request block with
          | true =>
              rw [skipped, Bool.true_or, if_pos rfl] at refines
              rw [if_pos rfl, Bool.true_or, if_pos rfl]
              exact ih refines same maybe_deadlock
          | false =>
              cases engaged : table.busy block with
              | true =>
                  rw [skipped, engaged, Bool.false_or, if_pos rfl] at refines
                  rw [if_neg Bool.false_ne_true, if_pos rfl, Bool.false_or, if_pos rfl]
                  exact ih refines same true
              | false =>
                  rw [skipped, engaged, Bool.false_or, if_neg Bool.false_ne_true] at refines
                  rw [if_neg Bool.false_ne_true, if_neg Bool.false_ne_true, Bool.false_or,
                    if_neg Bool.false_ne_true, List.flatMap_cons, searchAll_append]
                  obtain ⟨maybe_middle, step⟩ := walkPending_refines visited_path
                    (table.owners (table.requests block).lrq_owner).own_pending
                    (refines block List.mem_cons_self) same maybe_deadlock
                  rw [show ((table.mark marks).owners
                    ((table.mark marks).requests block).lrq_owner).own_pending =
                      (table.owners (table.requests block).lrq_owner).own_pending from rfl, step,
                    targets]
                  cases found : searchAll visit ((table.owners
                    (table.requests block).lrq_owner).own_pending.filter fun target =>
                      !(table.requests target).wait_timeout) marks with
                  | none => exact ⟨maybe_middle, rfl⟩
                  | some result =>
                      obtain ⟨answer, middle⟩ := result
                      cases answer with
                      | some victim => exact ⟨maybe_middle, rfl⟩
                      | none =>
                          exact ih (fun other member =>
                            refines other (List.mem_cons_of_mem _ member))
                              ((searchAll_path visited_path _ found).trans same) maybe_middle

theorem mem_of_followed {conversion : Bool} {request block : Nat} {queue : List Nat}
    (member : block ∈ table.followed conversion request queue) :
    block ∈ queue ∧ table.skips conversion request block = false ∧ table.busy block = false := by
  obtain ⟨inside, kept⟩ := List.mem_filter.mp member
  refine ⟨?_, by simpa using kept⟩
  split at inside
  · exact inside
  · exact (List.takeWhile_sublist _).subset inside

/-- The requests that wait, with their marks cleared and nobody else to walk to. -/
structure Walkable (table : Table) (nodes : List Nat) : Prop where
  clear : ∀ request ∈ nodes,
    (table.requests request).deadlock = false ∧ (table.requests request).scanned = false
  closed : ∀ request ∈ nodes, ∀ block ∈
    (table.locks (table.requests request).lrq_lock).lbl_requests, ∀ target ∈
      (table.owners (table.requests block).lrq_owner).own_pending, target ∈ nodes

theorem deadlockWalk_refines {nodes : List Nat} (walkable : Walkable table nodes) {fuel request : Nat}
    (member : request ∈ nodes) {marks : Marks Nat} (nodup : marks.path.Nodup)
    (maybe_deadlock : Bool) :
    ∃ maybe_after, deadlockWalk fuel request (table.mark marks) maybe_deadlock =
      (search table.pursued fuel request marks).map (table.walked maybe_after) := by
  induction fuel generalizing request marks maybe_deadlock with
  | zero => exact ⟨maybe_deadlock, rfl⟩
  | succ fuel ih =>
      obtain ⟨no_deadlock, not_scanned⟩ := walkable.clear request member
      have scanned : ((table.mark marks).requests request).scanned =
          decide (request ∈ marks.done) := by
        rw [mark]
        dsimp only
        rw [not_scanned, Bool.false_or]
      have deadlock : ((table.mark marks).requests request).deadlock =
          decide (request ∈ marks.path) := by
        rw [mark]
        dsimp only
        rw [no_deadlock, Bool.false_or]
      rw [deadlockWalk, search]
      simp only [scanned, deadlock, decide_eq_true_eq]
      split
      · exact ⟨maybe_deadlock, rfl⟩
      split
      · exact ⟨maybe_deadlock, rfl⟩
      · next fresh off_path =>
          have pushed : (request :: marks.path).Nodup := List.nodup_cons.mpr ⟨off_path, nodup⟩
          have queue : ((table.mark marks).locks ((table.mark marks).requests request).lrq_lock) =
              table.locks (table.requests request).lrq_lock := rfl
          have state : ((table.mark marks).requests request).lrq_state =
              (table.requests request).lrq_state := rfl
          rw [mark_push, queue, state]
          obtain ⟨maybe_middle, step⟩ := @walkQueue_refines table (deadlockWalk fuel)
            (search table.pursued fuel) (request :: marks.path) search_path
            (Level.null.code < (table.requests request).lrq_state.code) request
            (table.locks (table.requests request).lrq_lock).lbl_requests (by
              intro block followed target waits current same maybe_current
              have inside := (mem_of_followed followed).1
              exact ih (walkable.closed request member block inside target waits)
                (same ▸ pushed) maybe_current)
            { marks with path := request :: marks.path } rfl maybe_deadlock
          rw [step, ← pursued]
          cases found : searchAll (search table.pursued fuel) (table.pursued request)
              { marks with path := request :: marks.path } with
          | none => exact ⟨maybe_middle, rfl⟩
          | some result =>
              obtain ⟨answer, middle⟩ := result
              cases answer with
              | some victim => exact ⟨maybe_middle, rfl⟩
              | none =>
                  have path := searchAll_path search_path _ found
                  refine ⟨maybe_middle, ?_⟩
                  simp only [walked, Option.map_some]
                  rw [mark_finish _ _ no_deadlock (path ▸ pushed)]

end Refinement

/-! ## Clearing the marks -/

/-- The table without the marks on some requests. -/
def unmark (table : Table) (requests : List Nat) : Table :=
  { table with
    requests := fun request =>
      if request ∈ requests then
        { table.requests request with deadlock := false, scanned := false }
      else table.requests request }

theorem unmark_nil (table : Table) : table.unmark [] = table := by
  simp [unmark]

theorem unmark_append (table : Table) (requests others : List Nat) :
    (table.unmark requests).unmark others = table.unmark (requests ++ others) := by
  rw [unmark, unmark, unmark]
  congr 1
  funext request
  by_cases first : request ∈ requests <;> by_cases second : request ∈ others <;>
    simp [first, second]

theorem foldl_clear (requests : List Nat) (table : Table) :
    requests.foldl (fun (table : Table) (request : Nat) => table.setRequest request fun block =>
      { block with deadlock := false, scanned := false }) table = table.unmark requests := by
  induction requests generalizing table with
  | nil => exact (table.unmark_nil).symm
  | cons request requests ih =>
      have first : (table.setRequest request fun block =>
          { block with deadlock := false, scanned := false }) = table.unmark [request] := by
        rw [setRequest, unmark]
        congr 1
        funext other
        rcases eq_or_ne other request with rfl | differ
        · simp
        · simp [differ]
      rw [List.foldl_cons, ih, first, unmark_append]
      rfl

theorem deadlockClear_eq (table : Table) :
    table.deadlockClear = table.unmark table.pendingRequests := by
  have loop : ∀ (owners : List Nat) (current : Table), current.owners = table.owners →
      owners.foldl (fun (current : Table) owner => (current.owners owner).own_pending.foldl
        (fun (table : Table) (request : Nat) => table.setRequest request fun block =>
          { block with deadlock := false, scanned := false }) current) current =
            current.unmark (owners.flatMap fun owner => (table.owners owner).own_pending) := by
    intro owners
    induction owners with
    | nil => exact fun current _ => current.unmark_nil.symm
    | cons owner owners ih =>
        intro current same
        rw [List.foldl_cons, foldl_clear, ih (current.unmark _) same, unmark_append,
          List.flatMap_cons, same]
  exact loop table.lhb_owners table rfl

theorem field_unmark {α : Type*} (field : Request → α) (table : Table) (requests : List Nat)
    (kept : ∀ block : Request, field { block with deadlock := false, scanned := false } = field block)
    (request : Nat) :
    field ((table.unmark requests).requests request) = field (table.requests request) := by
  rw [unmark]
  dsimp only
  split
  · exact kept _
  · rfl

theorem core_unmark (table : Table) (requests : List Nat) :
    (table.unmark requests).core = table.core := by
  have placement := funext (field_unmark Request.placement table requests fun _ => rfl)
  have state := funext (field_unmark Request.lrq_state table requests fun _ => rfl)
  simp only [core, queues, placement, state]
  rfl

theorem core_mark (table : Table) (marks : DepthFirst.Marks Nat) :
    (table.mark marks).core = table.core :=
  rfl

theorem pursued_unmark (table : Table) (requests : List Nat) :
    (table.unmark requests).pursued = table.pursued := by
  have requested := field_unmark Request.lrq_requested table requests fun _ => rfl
  have state := field_unmark Request.lrq_state table requests fun _ => rfl
  have lock := field_unmark Request.lrq_lock table requests fun _ => rfl
  have owner := field_unmark Request.lrq_owner table requests fun _ => rfl
  have granted := field_unmark Request.just_granted table requests fun _ => rfl
  have timeout := field_unmark Request.wait_timeout table requests fun _ => rfl
  have same : (table.unmark requests).targets = table.targets := by
    funext block
    simp only [targets, owner, timeout]
    rfl
  funext request
  simp only [pursued, followed, skips, busy, same, requested, state, lock, owner, granted]
  rfl

end Table

theorem pendingRequests_of_core {before after : Table} (same : after.core = before.core) :
    after.pendingRequests = before.pendingRequests := by
  have active := congrArg QueueCore.lhb_owners (congrArg Core.queues same)
  have pending := congrFun (congrArg QueueCore.own_pending (congrArg Core.queues same))
  simp only [Table.core, Table.queues] at active pending
  simp only [Table.pendingRequests, active, pending]

/-! ## The scan -/

namespace Queues

variable {table : Table} {request : Nat}

theorem mem_pendingRequests (queues : Queues table) :
    request ∈ table.pendingRequests ↔
      (table.requests request).Live ∧ (table.requests request).pending = true := by
  rw [Table.pendingRequests, List.mem_flatMap]
  constructor
  · rintro ⟨owner, active, waits⟩
    obtain ⟨live, -, pending⟩ := queues.pending_owned owner active request waits
    exact ⟨live, pending⟩
  · rintro ⟨live, pending⟩
    exact ⟨_, (queues.on_owner request live).1, queues.on_pending request live pending⟩

theorem closed (queues : Queues table) (member : request ∈ table.pendingRequests) {block : Nat}
    (inside : block ∈ (table.locks (table.requests request).lrq_lock).lbl_requests) {target : Nat}
    (waits : target ∈ (table.owners (table.requests block).lrq_owner).own_pending) :
    target ∈ table.pendingRequests := by
  obtain ⟨live, -⟩ := queues.mem_pendingRequests.mp member
  obtain ⟨used, -⟩ := queues.on_lock request live
  obtain ⟨block_live, -⟩ := queues.queued _ used block inside
  exact List.mem_flatMap.mpr ⟨_, (queues.on_owner block block_live).1, waits⟩

theorem walkable (queues : Queues table) :
    Table.Walkable (table.unmark table.pendingRequests) table.pendingRequests := by
  constructor
  case clear =>
      intro request member
      simp only [Table.unmark, if_pos member, and_self]
  case closed =>
      intro request member block inside target waits
      rw [Table.field_unmark Request.lrq_lock table _ fun _ => rfl] at inside
      rw [Table.field_unmark Request.lrq_owner table _ fun _ => rfl] at waits
      exact queues.closed member inside waits

theorem pursued_pending (queues : Queues table) (member : request ∈ table.pendingRequests)
    {target : Nat} (edge : target ∈ table.pursued request) : target ∈ table.pendingRequests := by
  obtain ⟨block, followed, target_of⟩ := List.mem_flatMap.mp edge
  exact queues.closed member (Table.mem_of_followed followed).1 (List.mem_of_mem_filter target_of)

/-- The scan is a depth-first search that never runs out of fuel. -/
theorem deadlockScan_search (queues : Queues table) (member : request ∈ table.pendingRequests) :
    ∃ after, DepthFirst.search table.pursued (table.pendingRequests.length + 1) request ⟨[], []⟩ =
      some ((table.deadlockScan request).1, after) ∧
        (table.deadlockScan request).2.core = table.core := by
  have clear := table.core_unmark table.pendingRequests
  obtain ⟨maybe_after, walk⟩ := @Table.deadlockWalk_refines _ _ queues.walkable
    (table.pendingRequests.length + 1) request member ⟨[], []⟩ List.nodup_nil false
  have enough : (DepthFirst.search table.pursued (table.pendingRequests.length + 1) request
      ⟨[], []⟩).isSome := by
    apply DepthFirst.search_isSome
      (fun node (inside : node ∈ table.pendingRequests) next edge =>
        queues.pursued_pending inside edge) member
    exact Nat.lt_succ_of_le (List.length_filter_le _ _)
  obtain ⟨⟨answer, after⟩, run⟩ := Option.isSome_iff_exists.mp enough
  rw [Table.mark_empty, Table.pursued_unmark, run, Option.map_some, ← Table.deadlockClear_eq] at walk
  rw [Table.deadlockScan, walk]
  dsimp only
  have marked : ((table.unmark table.pendingRequests).mark after).core = table.core := clear
  rw [← Table.deadlockClear_eq] at marked
  split
  · exact ⟨after, run, (Table.core_setOwner _ _ rfl rfl rfl).trans marked⟩
  · exact ⟨after, run, marked⟩

/-- The victim of a scan waits itself. -/
theorem deadlockScan_pending (queues : Queues table) (member : request ∈ table.pendingRequests)
    {victim : Nat} (found : (table.deadlockScan request).1 = some victim) :
    victim ∈ table.pendingRequests := by
  obtain ⟨after, run, -⟩ := queues.deadlockScan_search member
  obtain ⟨-, reach⟩ := (DepthFirst.search_start run).1 victim found
  clear found
  induction reach with
  | refl => exact member
  | tail _ edge ih => exact queues.pursued_pending ih edge

end Queues

end LockManager
end Firebird
