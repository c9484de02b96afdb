import Firebird.Lock.Deadlock
import Firebird.Lock.Granting

/-!
# What marks and owners do not touch

Many routines of the lock manager only change flags of requests and the blocks of owners.  A view of
the lock table that depends on neither is the same before and after them.
-/

namespace Firebird
namespace LockManager

/-- The fields of a request block that decide whether it waits, and for what. -/
structure Vital where
  pending : Bool
  lrq_requested : Level
  lrq_state : Level
  deriving DecidableEq

/-- The fields of a request block in `Vital`. -/
def Request.vital (request : Request) : Vital :=
  { pending := request.pending
    lrq_requested := request.lrq_requested
    lrq_state := request.lrq_state }

/-- A view of the lock table that owners and the other fields of requests are no part of. -/
structure Ignores {α : Type*} (view : Table → α) : Prop where
  owner : ∀ (table : Table) (index : Nat) (assign : Owner → Owner),
    view (table.setOwner index assign) = view table
  active : ∀ (table : Table) (lhb_owners : List Nat),
    view { table with lhb_owners := lhb_owners } = view table
  flags : ∀ (table : Table) (index : Nat) (assign : Request → Request),
    (assign (table.requests index)).vital = (table.requests index).vital →
      view (table.setRequest index assign) = view table

namespace Ignores

variable {α : Type*} {view : Table → α} (ignores : Ignores view)
include ignores

theorem postWakeup (table : Table) (owner : Nat) : view (table.postWakeup owner) = view table := by
  rw [Table.postWakeup]
  split
  · exact ignores.owner _ _ _
  · rfl

theorem markGranted (queue : List Nat) (table : Table) :
    view (Table.markGranted queue table) = view table := by
  induction queue generalizing table with
  | nil => rfl
  | cons request queue ih =>
      rw [Table.markGranted]
      split
      · rfl
      · split
        · rw [ih]
          exact ignores.flags _ _ _ rfl
        · exact ih table

theorem signalOwners (owners : List Nat) (table : Table) :
    view (Table.signalOwners owners table) = view table := by
  induction owners generalizing table with
  | nil => rfl
  | cons owner owners ih =>
      rw [Table.signalOwners]
      split
      · rw [ih, ignores.owner]
      · exact ih table

theorem markBlocking (request : Nat) (queue : List Nat) (table : Table) :
    view (Table.markBlocking request queue table).1 = view table := by
  induction queue generalizing table with
  | nil => rfl
  | cons block queue ih =>
      have marked : view (if (table.requests block).blocking then table
          else (table.setOwner (table.requests block).lrq_owner fun owner =>
            { owner with own_blocks := owner.own_blocks ++ [block] }).setRequest block fun block =>
              { block with blocking := true, blocking_seen := false, just_granted := false }) =
          view table := by
        split
        · rfl
        · rw [ignores.flags _ _ _ rfl, ignores.owner]
      rw [Table.markBlocking]
      split
      · exact ih table
      · dsimp only
        split
        · exact marked
        · exact (ih _).trans marked

theorem postBlockage (table : Table) (request : Nat) :
    view (table.postBlockage request) = view table := by
  rw [Table.postBlockage]
  exact (ignores.signalOwners _ _).trans (ignores.markBlocking _ _ _)

theorem endWait (table : Table) (request : Nat) : view (table.endWait request) = view table := by
  rw [Table.endWait, ignores.owner]
  exact ignores.flags _ _ _ rfl

theorem blockingAction (table : Table) (owner : Nat) :
    view (table.blockingAction owner) = view table := by
  rw [Table.blockingAction]
  split
  · exact ignores.owner _ _ _
  · dsimp only
    split
    · rw [ignores.flags _ _ _ rfl, ignores.owner]
    · split
      · rw [ignores.flags _ _ _ rfl, ignores.owner]
      · exact ignores.owner _ _ _

/-! ## The deadlock scan -/

omit ignores in
theorem foldl {step : Table → Nat → Table} (same : ∀ table index, view (step table index) = view table)
    (indices : List Nat) (table : Table) : view (indices.foldl step table) = view table := by
  induction indices generalizing table with
  | nil => rfl
  | cons index indices ih => rw [List.foldl_cons, ih, same]

theorem deadlockClear (table : Table) : view table.deadlockClear = view table := by
  rw [Table.deadlockClear]
  refine foldl (fun table owner => foldl (fun table request => ?_) _ table) _ table
  exact ignores.flags _ _ _ rfl

omit ignores in
theorem walkPending {walk : Nat → Table → Bool → Option Walk}
    (same : ∀ request table maybe found, walk request table maybe = some found →
      view found.table = view table)
    (pending : List Nat) (table : Table) (maybe : Bool) (found : Walk)
    (run : Table.walkPending walk pending table maybe = some found) :
    view found.table = view table := by
  induction pending generalizing table maybe with
  | nil =>
      cases run
      rfl
  | cons target pending ih =>
      rw [Table.walkPending] at run
      split at run
      · exact ih _ _ run
      · split at run
        · next inner => exact (ih _ _ run).trans (same _ _ _ _ inner)
        · exact same _ _ _ _ run

omit ignores in
theorem walkQueue {walk : Nat → Table → Bool → Option Walk}
    (same : ∀ request table maybe found, walk request table maybe = some found →
      view found.table = view table)
    (conversion : Bool) (request : Nat) (queue : List Nat) (table : Table) (maybe : Bool)
    (found : Walk)
    (run : Table.walkQueue walk conversion request queue table maybe = some found) :
    view found.table = view table := by
  induction queue generalizing table maybe with
  | nil =>
      cases run
      rfl
  | cons block queue ih =>
      rw [Table.walkQueue] at run
      split at run
      · cases run
        rfl
      split at run
      · exact ih _ _ run
      split at run
      · exact ih _ _ run
      split at run
      · next inner => exact (ih _ _ run).trans (walkPending same _ _ _ _ inner)
      · exact walkPending same _ _ _ _ run

theorem deadlockWalk (fuel request : Nat) (table : Table) (maybe : Bool) (found : Walk)
    (run : Table.deadlockWalk fuel request table maybe = some found) :
    view found.table = view table := by
  induction fuel generalizing request table maybe found with
  | zero => exact absurd run.symm (Option.some_ne_none found)
  | succ fuel ih =>
      rw [Table.deadlockWalk] at run
      split at run
      · cases run
        rfl
      split at run
      · cases run
        rfl
      dsimp only at run
      have marked : view (table.setRequest request fun block => { block with deadlock := true }) =
          view table :=
        ignores.flags _ _ _ rfl
      split at run
      · next inner =>
          cases run
          exact (ignores.flags _ request
            (fun block => { block with deadlock := false, scanned := true }) rfl).trans
              ((walkQueue ih _ _ _ _ _ _ inner).trans marked)
      · exact (walkQueue ih _ _ _ _ _ _ run).trans marked

theorem deadlockScan (table : Table) (request : Nat) :
    view (table.deadlockScan request).2 = view table := by
  rw [Table.deadlockScan]
  split
  · exact ignores.deadlockClear table
  · next walk run =>
      have walked := (ignores.deadlockWalk _ _ _ _ _ run).trans (ignores.deadlockClear table)
      split
      · refine Eq.trans ?_ walked
        dsimp only
        exact ignores.owner _ _ _
      · exact walked

end Ignores

end LockManager
end Firebird
