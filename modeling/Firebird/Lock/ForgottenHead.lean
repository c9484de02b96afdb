import Firebird.Lock.HeadWaits

/-!
# A head that is forgotten

`lbl_pending_lrq_count` has 16 bits.  When 65536 requests wait, `post_pending` finds no pending
request and leaves all of them where they are.
-/

namespace Firebird
namespace LockManager

/-- Two owners, the first of which holds a lock exclusively. -/
def exclusive : Table :=
  (((Table.initial.createOwner 0).createOwner 1).allocRequest none 0 .EX false 0).createLock 0 0 0 []
    .EX 0

/-- The second owner asks for the lock once more, and waits. -/
def lineNext (table : Table) (request : Nat) (type : Level) : Table :=
  ((table.allocRequest none request type false 1).enqueueLock request 0 0 .wait).1

/-- The second owner waits for the lock many times. -/
def lineup : Nat → Table
  | 0 => exclusive
  | count + 1 => lineNext (lineup count) (count + 1) .SR

/-- A table in which one owner holds a lock exclusively and the other waits for it many times. -/
structure Lined (table : Table) (count : Nat) : Prop where
  active : table.lhb_owners = [0, 1]
  own_count : ∀ owner ≤ 1, (table.owners owner).own_count = 1
  hash : table.lhb_hash = [0]
  series : (table.locks 0).lbl_series = 0
  key : (table.locks 0).lbl_key = []
  queue : (table.locks 0).lbl_requests = List.range (count + 1)
  pending_count : (table.locks 0).lbl_pending_lrq_count = UInt16.ofNat count
  lbl_state : (table.locks 0).lbl_state = .EX
  lbl_counts : (table.locks 0).lbl_counts = increment (fun _ => 0) .EX
  holder : table.requests 0 = { Table.newRequest .EX false 0 with lrq_state := .EX }
  waiting : ∀ request, 0 < request → request ≤ count →
    table.requests request = { Table.newRequest .SR false 1 with pending := true }
  free : ∀ request, count < request → (table.requests request).in_use = false

namespace Table

/-- Requests without a blocking routine cannot be told. -/
theorem postBlockage_silent {table : Table} {request : Nat}
    (silent : ∀ block ∈ (table.locks (table.requests request).lrq_lock).lbl_requests,
      (table.requests block).lrq_ast_routine = false) : table.postBlockage request = table := by
  have skipped : ∀ queue : List Nat,
      (∀ block ∈ queue, (table.requests block).lrq_ast_routine = false) →
        markBlocking request queue table = (table, []) := by
    intro queue
    induction queue with
    | nil => exact fun _ => rfl
    | cons block queue ih =>
        intro silent
        rw [markBlocking]
        dsimp only
        rw [if_pos (.inr (.inr (.inr (.inl (silent block List.mem_cons_self)))))]
        exact ih fun other member => silent other (List.mem_cons_of_mem _ member)
  rw [postBlockage]
  dsimp only
  rw [skipped _ silent]
  rfl

/-- `wait_for_request` without a limit, for a request that holds nothing and that nobody in its way
can be told of. -/
theorem waitForRequest_plain {table : Table} {request : Nat}
    (held : (table.requests request).lrq_state = .none)
    (silent : ∀ block ∈ (table.locks (table.requests request).lrq_lock).lbl_requests,
      (table.requests block).lrq_ast_routine = false)
    (member : request ∈ (table.locks (table.requests request).lrq_lock).lbl_requests) :
    table.waitForRequest request false =
      ((((table.setOwner (table.requests request).lrq_owner fun block =>
        { block with
          scanned := false
          wakeup := false
          own_waits := block.own_waits + 1
          own_pending := block.own_pending ++ [request] }).setRequest request fun block =>
            { block with rejected := false, pending := true }).setLock
              (table.requests request).lrq_lock fun block =>
                { block with lbl_pending_lrq_count := block.lbl_pending_lrq_count + 1 }).setLock
                  (table.requests request).lrq_lock fun block =>
                    { block with lbl_requests := block.lbl_requests.erase request ++ [request] }) := by
  have state (middle : Table) : ((middle.setRequest request fun block =>
      { block with rejected := false, pending := true }).requests request).lrq_state =
        (middle.requests request).lrq_state := by
    rw [requests_setRequest, if_pos rfl]
  rw [waitForRequest, requests_setLock, state, requests_setOwner]
  rw [if_pos held, if_neg Bool.false_ne_true, postBlockage_silent]
  intro block found
  have inside : block ∈ (table.locks (table.requests request).lrq_lock).lbl_requests := by
    have listed : block ∈ (table.locks (table.requests request).lrq_lock).lbl_requests.erase
        request ++ [request] := by simpa using found
    exact ((List.perm_append_singleton request _).trans
      (List.perm_cons_erase member).symm).mem_iff.mp listed
  have mute := silent block inside
  rcases eq_or_ne block request with rfl | differ
  · simpa using mute
  · simpa [differ] using mute

end Table

theorem Lined.next {table : Table} {count : Nat} (lined : Lined table count) :
    Lined (lineNext table (count + 1) .SR) (count + 1) := by
  rw [lineNext, Table.enqueueLock, Table.grantOrQue]
  generalize queued : (Table.setRequest (Table.setRequest (Table.setLock
    (table.allocRequest none (count + 1) .SR false 1) 0 _) (count + 1) _) (count + 1) _) = asking
  have request : asking.requests (count + 1) = Table.newRequest .SR false 1 := by
    rw [← queued, Table.allocRequest]
    simp [Table.newRequest]
  have others : ∀ other, other ≠ count + 1 → asking.requests other = table.requests other := by
    intro other differ
    rw [← queued, Table.allocRequest]
    simp [differ]
  have lock : asking.locks 0 = { table.locks 0 with lbl_requests := List.range (count + 2) } := by
    rw [← queued, Table.allocRequest]
    simp [lined.queue, List.range_succ (n := count + 1)]
  have owner : ∀ other, (asking.owners other).own_count = (table.owners other).own_count := by
    intro other
    rw [← queued, Table.allocRequest]
    rcases eq_or_ne other 1 with rfl | differ
    · simp
    · simp [differ]
  have hash : asking.lhb_hash = [0] := by
    rw [← queued, ← lined.hash]
    rfl
  have active : asking.lhb_owners = [0, 1] := by
    rw [← queued, ← lined.active]
    rfl
  have refused : ¬(compatibility (asking.requests (count + 1)).lrq_requested
      (asking.locks 0).lbl_state = true ∧ ((asking.requests (count + 1)).lrq_requested = .null ∨
        (asking.locks 0).lbl_pending_lrq_count = 0)) := by
    rw [request, lock]
    dsimp only
    rw [lined.lbl_state]
    exact fun both => absurd both.1 (by decide)
  have block : ∀ other, 0 < other → other ≤ count + 1 →
      (if other = count + 1 then { Table.newRequest .SR false 1 with pending := true }
        else asking.requests other) = { Table.newRequest .SR false 1 with pending := true } := by
    intro other positive bound
    split
    · rfl
    · next differ => rw [others other differ, lined.waiting other positive (by omega)]
  have first : asking.requests 0 = { Table.newRequest .EX false 0 with lrq_state := .EX } := by
    rw [others 0 (by omega), lined.holder]
  have queue : (asking.locks (asking.requests (count + 1)).lrq_lock).lbl_requests =
      List.range (count + 2) := by
    rw [request]
    exact congrArg Lock.lbl_requests lock
  rw [if_neg refused, if_pos (by decide)]
  rw [show decide (Wait.wait = Wait.timeout) = false from rfl, Table.waitForRequest_plain, request]
  · constructor
    case own_count =>
        intro other bound
        have counts := (owner other).trans (lined.own_count other bound)
        rcases eq_or_ne other 1 with rfl | differ
        · simpa [Table.newRequest] using counts
        · simpa [differ, Table.newRequest] using counts
    case queue =>
        have erased : (List.range (count + 1) ++ [count + 1]).erase (count + 1) =
            List.range (count + 1) := by
          rw [List.erase_append_right _ (by simp), List.erase_cons_head, List.append_nil]
        simp [lock, Table.newRequest, List.range_succ (n := count + 1), erased]
    case waiting =>
        intro other positive bound
        simpa [request, Table.newRequest] using block other positive bound
    case holder => simpa using first
    case free =>
        intro other bound
        have differ : other ≠ count + 1 := by omega
        simp [differ, others other differ, lined.free other (by omega)]
    case pending_count => simp [lock, lined.pending_count, Table.newRequest]
    all_goals
      simp [active, hash, lock, lined.series, lined.key, lined.lbl_state, lined.lbl_counts,
        Table.newRequest]
  · rw [request]
    rfl
  · intro block found
    rw [queue] at found
    have bound := List.mem_range.mp found
    rcases Nat.eq_zero_or_pos block with rfl | positive
    · rw [first]
      rfl
    · rcases eq_or_ne block (count + 1) with rfl | differ
      · rw [request]
        rfl
      · rw [others block differ, lined.waiting block positive (by omega)]
        rfl
  · rw [queue]
    exact List.mem_range.mpr (by omega)

theorem lined_lineup (count : Nat) : Lined (lineup count) count := by
  induction count with
  | zero =>
      refine ⟨rfl, fun owner bound => ?_, rfl, rfl, rfl, rfl, rfl, rfl, rfl, rfl, fun request positive
        bound => absurd positive (Nat.not_lt.mpr bound), fun request positive => ?_⟩
      · rcases Nat.le_one_iff_eq_zero_or_eq_one.mp bound with rfl | rfl
        · rfl
        · rfl
      · have differ : request ≠ 0 := by omega
        simp [lineup, exclusive, Table.createLock, Table.allocRequest, Table.grant, Table.grantData,
          Table.postWakeup, Table.newRequest, Table.createOwner, Table.initial, Table.setOwner,
          Table.setLock, Table.setRequest, Table.blankOwner, differ]
  | succ count ih => exact ih.next

theorem exclusive_reachable {allowed : Table → Prop} (start : allowed .initial)
    (one : allowed (Table.initial.createOwner 0))
    (both : allowed ((Table.initial.createOwner 0).createOwner 1)) (held : allowed exclusive) :
    Reachable allowed exclusive := by
  have owners : Reachable allowed ((Table.initial.createOwner 0).createOwner 1) :=
    ((Reachable.initial start).step (.createOwner List.not_mem_nil) one).step
      (.createOwner (by decide)) both
  exact owners.step (.createLock (by decide) (by decide) (fun block found => nomatch found) rfl rfl
    (by decide)) held

theorem lineup_reachable {allowed : Table → Prop} (held : Reachable allowed exclusive) (count : Nat)
    (lines : ∀ other, other ≤ count → allowed (lineup other)) :
    Reachable allowed (lineup count) := by
  induction count with
  | zero => exact held
  | succ count ih =>
      have lined := lined_lineup count
      have before := ih fun other bound => lines other (Nat.le_succ_of_le bound)
      refine before.step ?_ (lines (count + 1) (Nat.le_refl _))
      refine @Step.enqueueLock _ none _ _ _ 0 [] _ _ _ _ ?_ ?_ (fun block found => nomatch found) ?_ ?_
      · rw [lined.active]
        exact List.mem_cons_of_mem _ (List.mem_singleton_self 1)
      · rw [lined.own_count 1 (Nat.le_refl 1)]
        exact Nat.one_ne_zero
      · exact lined.free _ (Nat.lt_succ_self _)
      · have hash : ((lineup count).allocRequest none (count + 1) .SR false 1).lhb_hash = [0] :=
          lined.hash
        have lock : ((lineup count).allocRequest none (count + 1) .SR false 1).locks 0 =
            (lineup count).locks 0 := rfl
        rw [Table.findLock, hash, List.find?_cons_of_pos]
        rw [lock, lined.series, lined.key]
        rfl

theorem Lined.dequeue {table : Table} {count : Nat} (lined : Lined table count) :
    Step table (table.internalDequeue 0) := by
  have owner : (table.requests 0).lrq_owner = 0 := congrArg Request.lrq_owner lined.holder
  refine .dequeue ?_ ?_
  · rw [lined.holder]
    exact ⟨rfl, rfl⟩
  · rw [owner, lined.own_count 0 (Nat.zero_le 1)]
    exact Nat.one_ne_zero

/-- Nobody is granted anything when the count of the waiting requests has wrapped. -/
theorem Lined.forgets {table : Table} {count : Nat} (lined : Lined table count)
    (wrapped : UInt16.ofNat count = 0) (positive : 0 < count) :
    0 ∈ (table.internalDequeue 0).lhb_hash ∧ Served table 0 (table.internalDequeue 0) ∧
      ¬HeadBlocked (table.internalDequeue 0) 0 := by
  rw [Table.internalDequeue]
  generalize silenced_eq : (table.setRequest 0 fun block =>
    { block with lrq_ast_routine := false }) = silenced
  have lock_zero : (silenced.requests 0).lrq_lock = 0 := by
    rw [← silenced_eq, Table.requests_setRequest, if_pos rfl, lined.holder]
    rfl
  have idle : (silenced.requests 0).pending = false := by
    rw [← silenced_eq, Table.requests_setRequest, if_pos rfl, lined.holder]
    rfl
  have locks : silenced.locks = table.locks := by
    rw [← silenced_eq]
    rfl
  have others : ∀ other, other ≠ 0 → silenced.requests other = table.requests other := by
    intro other differ
    rw [← silenced_eq, Table.requests_setRequest, if_neg differ]
  have hash : silenced.lhb_hash = [0] := by
    rw [← silenced_eq]
    exact lined.hash
  have detached := silenced.detach_detached 0
  have kept := (silenced.detach 0).discount_kept 0 0
  have queue : ((silenced.detach 0).locks 0).lbl_requests = (List.range (count + 1)).erase 0 := by
    rw [detached.queue, if_pos lock_zero.symm, locks, lined.queue]
  have member : ∀ other, other ∈ (List.range (count + 1)).erase 0 ↔ other ≠ 0 ∧ other ≤ count := by
    intro other
    rw [List.nodup_range.mem_erase_iff, List.mem_range, Nat.lt_succ_iff]
  have full : ((silenced.detach 0).locks 0).lbl_requests ≠ [] := by
    intro empty
    rw [queue] at empty
    have found := (member 1).mpr ⟨Nat.one_ne_zero, positive⟩
    rw [empty] at found
    exact List.not_mem_nil found
  have zero : (((silenced.detach 0).discount 0 0).locks 0).lbl_pending_lrq_count = 0 := by
    have same : (((silenced.detach 0).discount 0 0).locks 0).lbl_pending_lrq_count =
        ((silenced.detach 0).locks 0).lbl_pending_lrq_count := by
      rw [Table.discount]
      dsimp only
      split
      · split
        · simp [Table.withdraw]
        · simp [Table.withdraw]
      · rfl
    rw [same, detached.pending_count, if_neg (by rw [idle]; exact fun both => absurd both.2 (by decide)),
      locks, lined.pending_count, wrapped]
  have released : silenced.releaseRequest 0 = (silenced.detach 0).discount 0 0 := by
    rw [Table.releaseRequest]
    dsimp only
    rw [lock_zero, if_neg full, Table.postPending, if_pos zero]
  have queue_after : (((silenced.detach 0).discount 0 0).locks 0).lbl_requests =
      (List.range (count + 1)).erase 0 := (kept.queue 0).trans queue
  have waiting : ∀ other ∈ (List.range (count + 1)).erase 0,
      ((silenced.detach 0).discount 0 0).requests other =
        { Table.newRequest .SR false 1 with pending := true } := by
    intro other found
    obtain ⟨differ, bound⟩ := (member other).mp found
    rw [Table.requests_discount, detached.requests other differ, others other differ,
      lined.waiting other (Nat.pos_of_ne_zero differ) bound]
  rw [released]
  refine ⟨?_, ⟨0, .inl ⟨?_, ?_⟩⟩, fun blocked => ?_⟩
  · rw [kept.hash, detached.hash, hash]
    exact List.mem_singleton_self 0
  · rw [lined.queue]
    exact List.mem_range.mpr (Nat.succ_pos count)
  · rw [queue_after]
    exact fun found => ((member 0).mp found).1 rfl
  · have first : 1 ∈ (List.range (count + 1)).erase 0 := (member 1).mpr ⟨Nat.one_ne_zero, positive⟩
    have some_waits : (((((silenced.detach 0).discount 0 0).locks 0).lbl_requests.find? fun request =>
        (((silenced.detach 0).discount 0 0).requests request).pending)).isSome := by
      rw [List.find?_isSome, queue_after]
      exact ⟨1, first, by rw [waiting 1 first]⟩
    obtain ⟨request, found⟩ := Option.isSome_iff_exists.mp some_waits
    obtain ⟨other, inside, -, refused⟩ := blocked request found
    rw [queue_after] at inside
    rw [waiting other inside, Table.newRequest, compatibility_none] at refused
    exact Bool.false_ne_true refused.symm

/-- With 65536 requests waiting for it, an exclusive lock is released and stays free. -/
theorem lineup_forgotten : ¬∀ before after, Reachable (fun _ => True) before → Step before after →
    ∀ lock ∈ after.lhb_hash, Served before lock after → HeadBlocked after lock := by
  intro blocks
  have lined := lined_lineup 65536
  have reachable : Reachable (fun _ => True) (lineup 65536) :=
    lineup_reachable (exclusive_reachable trivial trivial trivial trivial) _ fun _ _ => trivial
  have wrapped : UInt16.ofNat 65536 = 0 := rfl
  have positive : 0 < 65536 := by omega
  obtain ⟨used, served, forgotten⟩ := lined.forgets wrapped positive
  exact forgotten (blocks _ _ reachable lined.dequeue 0 used served)

/-- The second owner waits for protected read, and then for shared write. -/
def twoWait : Table :=
  lineNext (lineNext exclusive 1 .PR) 2 .SW

theorem twoWait_headBlocked : HeadBlocked (twoWait.internalDequeue 0) 0 := by
  have bounded : ∀ table : Table, table.lhb_hash = [0] →
      (table.locks 0).lbl_requests.length < 65536 → Bounded table := by
    intro table hash short lock used
    rw [hash, List.mem_singleton] at used
    rw [used]
    exact short
  have empty : ∀ table : Table, table.lhb_hash = [] → Bounded table := by
    intro table hash lock used
    rw [hash] at used
    exact absurd used List.not_mem_nil
  have held : Reachable Bounded exclusive :=
    exclusive_reachable (empty _ rfl) (empty _ rfl) (empty _ rfl) (bounded _ rfl (by decide))
  have one : Reachable Bounded (lineNext exclusive 1 .PR) :=
    held.step (@Step.enqueueLock _ none _ _ _ 0 [] _ _ _ _ (by decide) (by decide)
      (fun block found => nomatch found) rfl rfl) (bounded _ rfl (by decide))
  have two : Reachable Bounded twoWait :=
    one.step (@Step.enqueueLock _ none _ _ _ 0 [] _ _ _ _ (by decide) (by decide)
      (fun block found => nomatch found) rfl rfl) (bounded _ rfl (by decide))
  have step : Step twoWait (twoWait.internalDequeue 0) := .dequeue ⟨rfl, rfl⟩ (by decide)
  exact step.headBlocked two (bounded _ rfl (by decide)) 0 (by decide)
    ⟨0, .inl ⟨by decide, by decide⟩⟩

end LockManager
end Firebird
