import Firebird.Lock.Release

/-!
# What granting does to the requests

`grant` changes one request block, and `post_pending` only blocks that are pending; both leave the
series, the key and the queue of every lock alone.
-/

namespace Firebird
namespace LockManager

/-- A request block after `grant`. -/
def Request.afterGrant (block : Request) : Request :=
  { block with lrq_state := block.lrq_requested, lrq_data := 0, pending := false }

namespace Table

variable (table : Table)

theorem requests_replaceData (lock : Nat) (data : Int) :
    (table.replaceData lock data).requests = table.requests := by
  rw [replaceData]
  split
  · rw [insertDataQue]
    split
    · rfl
    · rfl
  · rfl

theorem requests_postWakeup (owner : Nat) : (table.postWakeup owner).requests = table.requests := by
  rw [postWakeup]
  split
  · rfl
  · rfl

theorem requests_grantData (request : Nat) : (table.grantData request).requests =
    Function.update table.requests request { table.requests request with lrq_data := 0 } := by
  rw [grantData]
  split
  · rw [setRequest, requests_replaceData]
  · next empty =>
      have same : { table.requests request with lrq_data := 0 } = table.requests request := by
        rw [← not_not.mp empty]
      rw [same, Function.update_eq_self]

theorem requests_grant (request : Nat) : (table.grant request).requests =
    Function.update table.requests request (table.requests request).afterGrant := by
  obtain ⟨middle, owner, granted, grant_eq⟩ : ∃ (middle : Table) (owner : Nat),
      middle.requests = Function.update table.requests request
        { table.requests request with
          lrq_state := (table.requests request).lrq_requested
          lrq_data := 0 } ∧
      table.grant request =
        (if (middle.requests request).pending then middle.clearPending request
          else middle).postWakeup owner := by
    refine ⟨_, _, ?_, rfl⟩
    rw [requests_setLock, requests_grantData, setRequest, requests_setLock]
    simp only [Function.update_self, Function.update_idem]
  rw [grant_eq, requests_postWakeup]
  split
  · rw [requests_clearPending, granted, Function.update_self, Function.update_idem]
    rfl
  · next idle =>
      rw [granted, Function.update_self] at idle
      have block : { table.requests request with
          lrq_state := (table.requests request).lrq_requested
          lrq_data := 0 } = (table.requests request).afterGrant := by
        rw [Request.afterGrant, ← Bool.eq_false_iff.mpr idle]
      rw [granted, block]

theorem requests_grant_of_ne {request other : Nat} (differ : other ≠ request) :
    (table.grant request).requests other = table.requests other := by
  rw [requests_grant, Function.update_of_ne differ]

@[simp] theorem requests_withdraw (lock request : Nat) :
    (table.withdraw lock request).requests = table.requests :=
  rfl

variable {table}

/-- Only pending requests are granted. -/
theorem requests_grantPending {lock request : Nat} (queue : List Nat)
    (idle : (table.requests request).pending = false) :
    (grantPending lock queue table).requests request = table.requests request := by
  induction queue generalizing table with
  | nil => rfl
  | cons other queue ih =>
      rw [grantPending]
      dsimp only
      split
      · exact ih idle
      next waits =>
        have differ : request ≠ other := by
          rintro rfl
          rw [idle] at waits
          exact waits rfl
        split
        · split
          · rw [ih, requests_grant_of_ne _ differ, requests_withdraw]
            rw [requests_grant_of_ne _ differ, requests_withdraw]
            exact idle
          · rw [requests_postWakeup]
        · split
          · rw [ih, requests_grant_of_ne _ differ]
            rw [requests_grant_of_ne _ differ]
            exact idle
          · rw [requests_postWakeup]

/-- A field that `LRQ_just_granted` is no part of stays as it is when granted requests are marked. -/
theorem field_markGranted {α : Type*} (field : Request → α)
    (same : ∀ block : Request, field { block with just_granted := true } = field block)
    (queue : List Nat) (request : Nat) :
    field ((markGranted queue table).requests request) = field (table.requests request) := by
  induction queue generalizing table with
  | nil => rfl
  | cons other queue ih =>
      rw [markGranted]
      split
      · rfl
      · split
        · rw [ih]
          exact field_update field table.requests other _ (same _) request
        · exact ih

/-- What `post_pending` leaves of a request that is not pending. -/
theorem field_postPending {α : Type*} (field : Request → α)
    (same : ∀ block : Request, field { block with just_granted := true } = field block)
    {request : Nat} (idle : (table.requests request).pending = false) (lock : Nat) :
    field ((table.postPending lock).requests request) = field (table.requests request) := by
  rw [postPending]
  split
  · rfl
  · dsimp only
    split
    · rw [field_markGranted field same, requests_grantPending _ idle]
    · rw [requests_grantPending _ idle]

theorem requests_discount (lock request : Nat) :
    (table.discount lock request).requests = table.requests := by
  rw [discount]
  dsimp only
  split
  · split
    · rfl
    · rfl
  · rfl

theorem pending_detach (table : Table) (request : Nat) :
    ((table.detach request).requests request).pending = false := by
  rw [detach]
  cases blocking : (table.requests request).blocking <;>
    cases pending : (table.requests request).pending <;> simp [blocking, pending, clearPending]

theorem in_use_releaseRequest (table : Table) (request : Nat) :
    ((table.releaseRequest request).requests request).in_use = false := by
  have free := (table.detach_detached request).free
  have idle := table.pending_detach request
  rw [releaseRequest]
  dsimp only
  split
  · exact free
  · rw [field_postPending Request.in_use (fun _ => rfl)]
    · rw [requests_discount, free]
    · rw [requests_discount, idle]

end Table

end LockManager
end Firebird
