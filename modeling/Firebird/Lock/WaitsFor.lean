import Firebird.Lock.Run

/-!
# Cycles of waiting requests

A request waits for the owners of the requests in its way, and with them for every request such an
owner waits for itself.  When no owner has anything left to process, the deadlock scan answers with
a request on a cycle of this relation.
-/

namespace Firebird
namespace LockManager

/-- One request is before another on a queue. -/
def Before (queue : List Nat) (first second : Nat) : Prop := queue.idxOf first < queue.idxOf second

instance (queue : List Nat) (first second : Nat) : Decidable (Before queue first second) :=
  Nat.decLt _ _

namespace Table

variable (table : Table)

/-- A request for a lock that has not been granted or rejected yet. -/
def Waiting (request : Nat) : Prop :=
  (table.requests request).Live ∧ (table.requests request).pending = true

/-- `block` stands in the way of `request` on the queue of its lock.  A request that is held above
null waits for what is granted; any other request also waits for what is asked for before it. -/
def Obstructs (request block : Nat) : Prop :=
  let queue := (table.locks (table.requests request).lrq_lock).lbl_requests
  let waiting := table.requests request
  let candidate := table.requests block
  block ∈ queue ∧ block ≠ request ∧
    if waiting.lrq_state.code ≤ Level.null.code ∧ Before queue block request then
      compatibility waiting.lrq_requested (candidate.lrq_state.max candidate.lrq_requested) = false
    else
      compatibility waiting.lrq_requested candidate.lrq_state = false

/-- `request` waits for the owner of a request in its way, which waits for `target` without a
timeout. -/
def WaitsFor (request target : Nat) : Prop :=
  table.Waiting request ∧ table.Waiting target ∧
    (table.requests target).wait_timeout = false ∧
      ∃ block, table.Obstructs request block ∧
        (table.requests target).lrq_owner = (table.requests block).lrq_owner

/-- A request that waits for itself in the end. -/
def Deadlocked (request : Nat) : Prop := Relation.TransGen table.WaitsFor request request

/-- No owner has blocking ASTs, wakeups or just granted locks outstanding. -/
structure Quiet : Prop where
  signaled : ∀ owner ∈ table.lhb_owners, (table.owners owner).signaled = false
  wakeup : ∀ owner ∈ table.lhb_owners, (table.owners owner).wakeup = false
  own_blocks : ∀ owner ∈ table.lhb_owners, (table.owners owner).own_blocks = []
  just_granted : ∀ lock ∈ table.lhb_hash, ∀ request ∈ (table.locks lock).lbl_requests,
    (table.requests request).just_granted = false

/-- A request that waits in line, held at null or not at all, has nothing behind it that is granted
at a level incompatible with what it asks for. -/
def Ordered : Prop :=
  ∀ lock ∈ table.lhb_hash, ∀ request ∈ (table.locks lock).lbl_requests,
    (table.requests request).pending = true →
      (table.requests request).lrq_state.code ≤ Level.null.code →
        ∀ block ∈ (table.locks lock).lbl_requests,
          Before (table.locks lock).lbl_requests request block →
            compatibility (table.requests request).lrq_requested
              (table.requests block).lrq_state = true

end Table

theorem mem_takeWhile_iff {queue : List Nat} {request block : Nat} :
    block ∈ queue.takeWhile (fun other => request ≠ other) ↔ Before queue block request := by
  rw [Before]
  induction queue with
  | nil => simp
  | cons head queue ih =>
      rcases eq_or_ne request head with rfl | differ
      · simp
      · rw [List.takeWhile_cons_of_pos (by simpa using differ), List.mem_cons,
          List.idxOf_cons_ne _ differ.symm]
        rcases eq_or_ne block head with rfl | other
        · simp
        · rw [List.idxOf_cons_ne _ other.symm, or_iff_right other, ih, Nat.succ_lt_succ_iff]

theorem Before.ne {queue : List Nat} {first second : Nat} (before : Before queue first second) :
    first ≠ second := by
  rintro rfl
  exact Nat.lt_irrefl _ before

theorem Before.mem {queue : List Nat} {first second : Nat} (before : Before queue first second) :
    first ∈ queue := by
  apply List.idxOf_lt_length_iff.mp
  exact Nat.lt_of_lt_of_le before List.idxOf_le_length

/-- Two requests of a queue are in some order. -/
theorem before_or {queue : List Nat} {first second : Nat} (first_member : first ∈ queue)
    (differ : first ≠ second) : Before queue first second ∨ Before queue second first := by
  rcases Nat.lt_trichotomy (queue.idxOf first) (queue.idxOf second) with before | same | behind
  · exact .inl before
  · exact absurd (List.idxOf_inj first_member |>.mp same) differ
  · exact .inr behind

section Scan

variable {table : Table} {request target : Nat}

theorem Table.Quiet.idle (quiet : table.Quiet) (queues : Queues table) {lock block : Nat}
    (used : lock ∈ table.lhb_hash) (member : block ∈ (table.locks lock).lbl_requests) :
    table.busy block = false := by
  obtain ⟨live, -⟩ := queues.queued lock used block member
  have active := (queues.on_owner block live).1
  rw [Table.busy, quiet.signaled _ active, quiet.wakeup _ active, quiet.own_blocks _ active,
    quiet.just_granted lock used block member]
  rfl

/-- What the walk follows stands in the way of the request. -/
theorem obstructs_of_followed {block : Nat}
    (followed : block ∈ table.followed (Level.null.code < (table.requests request).lrq_state.code)
      request (table.locks (table.requests request).lrq_lock).lbl_requests) :
    table.Obstructs request block := by
  obtain ⟨member, kept, -⟩ := Table.mem_of_followed followed
  rcases Nat.lt_or_ge Level.null.code (table.requests request).lrq_state.code with held | line
  · rw [decide_eq_true held] at kept
    simp only [Table.skips, if_true, Bool.or_eq_false_iff, decide_eq_false_iff_not] at kept
    refine ⟨member, Ne.symm kept.1, ?_⟩
    rw [if_neg fun both => Nat.not_le_of_lt held both.1]
    exact kept.2
  · rw [decide_eq_false (Nat.not_lt_of_le line)] at kept followed
    simp only [Table.skips, Bool.false_eq_true, if_false] at kept
    have before := mem_takeWhile_iff.mp (List.mem_of_mem_filter followed)
    refine ⟨member, before.ne, ?_⟩
    rw [if_pos ⟨line, before⟩]
    exact kept

theorem followed_of_obstructs (queues : Queues table) (quiet : table.Quiet) (ordered : table.Ordered)
    (waiting : table.Waiting request) {block : Nat} (obstructs : table.Obstructs request block) :
    block ∈ table.followed (Level.null.code < (table.requests request).lrq_state.code)
      request (table.locks (table.requests request).lrq_lock).lbl_requests := by
  obtain ⟨used, own_place⟩ := queues.on_lock request waiting.1
  obtain ⟨member, differ, incompatible⟩ := obstructs
  have idle := quiet.idle queues used member
  apply List.mem_filter.mpr
  rw [idle]
  rcases Nat.lt_or_ge Level.null.code (table.requests request).lrq_state.code with held | line
  · rw [if_neg fun both => Nat.not_le_of_lt held both.1] at incompatible
    rw [decide_eq_true held, if_pos rfl]
    exact ⟨member, by simp [Table.skips, differ.symm, incompatible]⟩
  · rw [decide_eq_false (Nat.not_lt_of_le line), if_neg Bool.false_ne_true]
    rcases before_or member differ with before | behind
    · rw [if_pos ⟨line, before⟩] at incompatible
      exact ⟨mem_takeWhile_iff.mpr before, by simp [Table.skips, incompatible]⟩
    · rw [if_neg fun both => Nat.lt_asymm behind both.2] at incompatible
      rw [ordered _ used request own_place waiting.2 line block member behind] at incompatible
      exact absurd incompatible.symm Bool.false_ne_true

theorem waitsFor_of_edge (queues : Queues table) (waiting : table.Waiting request)
    (edge : DepthFirst.Edge table.pursued request target) : table.WaitsFor request target := by
  obtain ⟨block, followed, found⟩ := List.mem_flatMap.mp edge
  obtain ⟨pending, no_timeout⟩ := List.mem_filter.mp found
  obtain ⟨used, -⟩ := queues.on_lock request waiting.1
  obtain ⟨block_live, -⟩ := queues.queued _ used block (Table.mem_of_followed followed).1
  obtain ⟨live, owner, waits⟩ := queues.pending_owned _ (queues.on_owner block block_live).1 target
    pending
  exact ⟨waiting, ⟨live, waits⟩, by simpa using no_timeout, block, obstructs_of_followed followed,
    owner⟩

theorem edge_of_waitsFor (queues : Queues table) (quiet : table.Quiet) (ordered : table.Ordered)
    (waits : table.WaitsFor request target) :
    DepthFirst.Edge table.pursued request target := by
  obtain ⟨waiting, ⟨live, pending⟩, no_timeout, block, obstructs, owner⟩ := waits
  apply List.mem_flatMap.mpr
  refine ⟨block, followed_of_obstructs queues quiet ordered waiting obstructs, ?_⟩
  apply List.mem_filter.mpr
  rw [← owner, no_timeout]
  exact ⟨queues.on_pending target live pending, rfl⟩

theorem waitsFor_of_reaches (queues : Queues table) (waiting : table.Waiting request)
    (reach : Relation.ReflTransGen (DepthFirst.Edge table.pursued) request target) :
    Relation.ReflTransGen table.WaitsFor request target ∧ table.Waiting target := by
  induction reach with
  | refl => exact ⟨.refl, waiting⟩
  | tail _ edge ih =>
      have step := waitsFor_of_edge queues ih.2 edge
      exact ⟨ih.1.tail step, step.2.1⟩

theorem deadlocked_of_onCycle (queues : Queues table) (waiting : table.Waiting request)
    (cycle : DepthFirst.OnCycle table.pursued request) : table.Deadlocked request := by
  obtain ⟨middle, reach, edge⟩ := Relation.TransGen.tail'_iff.mp cycle
  obtain ⟨path, middle_waits⟩ := waitsFor_of_reaches queues waiting reach
  exact Relation.TransGen.tail' path (waitsFor_of_edge queues middle_waits edge)

end Scan

/-- Two owners hold a lock each and ask for the other one. -/
def crossing : Table :=
  let owners := (Table.initial.createOwner 0).createOwner 1
  let one := (owners.allocRequest none 0 .EX false 0).createLock 0 0 0 [0] .EX 0
  let two := (one.allocRequest none 1 .EX false 1).createLock 1 1 0 [1] .EX 0
  let waits := ((two.allocRequest none 2 .EX false 0).enqueueLock 2 1 0 .wait).1
  ((waits.allocRequest none 3 .EX false 1).enqueueLock 3 0 0 .wait).1

theorem crossing_reachable : Reachable (fun _ => True) crossing := by
  have no_prior : ∀ {table : Table} block, none = some block → (table.requests block).Live :=
    fun block impossible => absurd impossible (Option.some_ne_none block).symm
  have first : Reachable (fun _ => True) (Table.initial.createOwner 0) :=
    (Reachable.initial trivial).step (.createOwner List.not_mem_nil) trivial
  have fresh : 1 ∉ (Table.initial.createOwner 0).lhb_owners := by decide
  have owners := first.step (.createOwner fresh) trivial
  have one := owners.step (@Step.createLock _ none 0 0 0 0 [0] .EX false 0 (by decide)
    (by decide) no_prior rfl rfl List.not_mem_nil) trivial
  have two := one.step (@Step.createLock _ none 1 1 1 0 [1] .EX false 0 (by decide) (by decide)
    no_prior rfl (by decide +kernel) (by decide)) trivial
  have waits := two.step (@Step.enqueueLock _ none 2 0 1 0 [1] .EX false 0 .wait (by decide)
    (by decide) no_prior rfl (by decide +kernel)) trivial
  exact waits.step (@Step.enqueueLock _ none 3 1 0 0 [0] .EX false 0 .wait (by decide +kernel)
    (by decide +kernel) no_prior (by decide +kernel) (by decide +kernel)) trivial

/-- One owner holds a lock at null, and another one is granted it behind. -/
def behindNull : Table :=
  let owners := (Table.initial.createOwner 0).createOwner 1
  let null := (owners.allocRequest none 0 .null false 0).createLock 0 0 0 [0] .null 0
  ((null.allocRequest none 1 .EX false 1).enqueueLock 1 0 0 .noWait).1

/-- Each owner holds a lock and waits for the other one, the first by a conversion from null. -/
def standoff : Table :=
  let other := (behindNull.allocRequest none 2 .EX false 0).createLock 2 1 0 [1] .EX 0
  let waits := ((other.allocRequest none 3 .EX false 1).enqueueLock 3 1 0 .wait).1
  (waits.internalConvert 0 .EX .wait false).1

theorem behindNull_reachable : Reachable (fun _ => True) behindNull := by
  have no_prior : ∀ {table : Table} block, none = some block → (table.requests block).Live :=
    fun block impossible => absurd impossible (Option.some_ne_none block).symm
  have first : Reachable (fun _ => True) (Table.initial.createOwner 0) :=
    (Reachable.initial trivial).step (.createOwner List.not_mem_nil) trivial
  have fresh : 1 ∉ (Table.initial.createOwner 0).lhb_owners := by decide
  have owners := first.step (.createOwner fresh) trivial
  have null := owners.step (@Step.createLock _ none 0 0 0 0 [0] .null false 0 (by decide)
    (by decide) no_prior rfl rfl List.not_mem_nil) trivial
  exact null.step (@Step.enqueueLock _ none 1 1 0 0 [0] .EX false 0 .noWait (by decide) (by decide)
    no_prior rfl rfl) trivial

theorem standoff_reachable : Reachable (fun _ => True) standoff := by
  have no_prior : ∀ {table : Table} block, none = some block → (table.requests block).Live :=
    fun block impossible => absurd impossible (Option.some_ne_none block).symm
  have other := behindNull_reachable.step (@Step.createLock _ none 2 0 1 0 [1] .EX false 0
    (by decide) (by decide) no_prior rfl (by decide +kernel) (by decide)) trivial
  have waits := other.step (@Step.enqueueLock _ none 3 1 1 0 [1] .EX false 0 .wait (by decide)
    (by decide) no_prior rfl (by decide +kernel)) trivial
  exact waits.step (@Step.convert _ 0 .EX .wait false ⟨by decide +kernel, by decide +kernel⟩
    (by decide +kernel) fun _ => by decide +kernel) trivial

end LockManager
end Firebird
