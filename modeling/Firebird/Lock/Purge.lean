import Firebird.Lock.Run

/-!
# The death of an owner

In whatever state the lock table is, and however many requests it holds, purging an owner takes
exactly the requests of this owner off the queues.  The requests of the others keep their locks and
their order.
-/

namespace Firebird
namespace LockManager

variable {allowed : Table → Prop} {table : Table} {owner : Nat}

/-- The queues of the locks that are left have lost the released requests. -/
structure Emptied (table : Table) (requests : List Nat) (after : Table) : Prop where
  hash : ∀ lock ∈ after.lhb_hash, lock ∈ table.lhb_hash
  queue : ∀ lock ∈ after.lhb_hash, (after.locks lock).lbl_requests =
    (table.locks lock).lbl_requests.filter fun request => decide (request ∉ requests)
  lock : ∀ request, (after.requests request).lrq_lock = (table.requests request).lrq_lock

theorem Wellformed.emptied {table : Table} (requests : List Nat)
    (wellformed : Wellformed False table) (nodup : requests.Nodup)
    (live : ∀ request ∈ requests, (table.requests request).Live) :
    Emptied table requests (requests.foldl Table.releaseRequest table) := by
  induction requests generalizing table with
  | nil =>
      refine ⟨fun _ => id, fun lock _ => ?_, fun _ => rfl⟩
      simp only [List.not_mem_nil, not_false_eq_true, decide_true, List.filter_true]
      rfl
  | cons request requests ih =>
      obtain ⟨absent, nodup⟩ := List.nodup_cons.mp nodup
      have alive := live request List.mem_cons_self
      obtain ⟨sound, -, released⟩ := wellformed.releaseRequest alive False.elim
      have rest := ih sound nodup fun other member => (released.live other).mpr
        ⟨fun same => absent (same ▸ member), live other (List.mem_cons_of_mem _ member)⟩
      have hash := fun lock member => released.hash lock (rest.hash lock member)
      refine ⟨hash, fun lock member => ?_,
        fun other => (rest.lock other).trans (released.lock other)⟩
      rw [List.foldl_cons, rest.queue lock member, released.queue]
      split_ifs with same
      · rw [(wellformed.queue_nodup lock (hash lock member)).erase_eq_filter, List.filter_filter]
        refine List.filter_congr fun other _ => ?_
        simp only [List.mem_cons, not_or, Bool.decide_and, decide_not]
        rw [Bool.and_comm]
        rfl
      · refine List.filter_congr fun other queued => ?_
        have differ : other ≠ request := by
          rintro rfl
          exact same (wellformed.queued lock (hash lock member) other queued).2.symm
        simp only [List.mem_cons, not_or, differ, not_false_eq_true, true_and]

/-- What purging an owner leaves in the lock table. -/
structure Bereft (table : Table) (owner : Nat) (after : Table) : Prop where
  queues : Queues after
  active : after.lhb_owners = table.lhb_owners.erase owner
  live : ∀ request, (after.requests request).Live ↔
    (table.requests request).Live ∧ (table.requests request).lrq_owner ≠ owner
  kept : ∀ request, (after.requests request).lrq_owner = (table.requests request).lrq_owner ∧
    (after.requests request).lrq_lock = (table.requests request).lrq_lock
  hash : ∀ lock ∈ after.lhb_hash, lock ∈ table.lhb_hash
  /-- The order of the others stays. -/
  queue : ∀ lock ∈ after.lhb_hash, (after.locks lock).lbl_requests =
    (table.locks lock).lbl_requests.filter fun request =>
      decide ((table.requests request).lrq_owner ≠ owner)

theorem Wellformed.bereft (wellformed : Wellformed False table)
    (active : owner ∈ table.lhb_owners) : Bereft table owner (table.purgeOwner owner) := by
  have nodup := wellformed.own_nodup owner active
  have alive : ∀ request ∈ (table.owners owner).own_requests, (table.requests request).Live :=
    fun request member => (wellformed.owned owner active request member).1
  have released : ∀ request, (table.requests request).Live →
      (request ∉ (table.owners owner).own_requests ↔
        (table.requests request).lrq_owner ≠ owner) := by
    refine fun request live => not_congr ⟨fun member => ?_, fun own => ?_⟩
    · exact (wellformed.owned owner active request member).2
    · exact own ▸ (wellformed.on_owner request live).2
  have purged := wellformed.releaseRequests _ False.elim nodup alive
  have emptied := wellformed.emptied _ nodup alive
  have queues := (wellformed.purgeOwner False.elim active).1.toQueues
  rw [Table.purgeOwner] at queues ⊢
  generalize (table.owners owner).own_requests.foldl Table.releaseRequest table = middle at *
  have active_middle : owner ∈ middle.lhb_owners := purged.active.symm ▸ active
  have blocks := purged.wellformed.blocks active_middle
  obtain ⟨-, reblocked⟩ := purged.wellformed.freeReposts _ active_middle
    (fun request member live => by
      obtain ⟨free, was_live⟩ := (purged.live request).mp live
      exact (released request was_live).mp free
        ((purged.owner request).symm.trans (blocks.owned request member).2.1))
    (fun request member => (blocks.owned request member).2.1)
  refine ⟨queues, congrArg (List.erase · owner) (reblocked.active.trans purged.active),
    fun request => ?_, fun request => ⟨(reblocked.owner request).trans (purged.owner request),
      (reblocked.lock request).trans (emptied.lock request)⟩,
    fun lock member => emptied.hash lock (reblocked.hash ▸ member), fun lock member => ?_⟩
  · refine (reblocked.live request).trans ((purged.live request).trans ?_)
    rw [and_comm]
    exact and_congr_right (released request)
  · have inside : lock ∈ middle.lhb_hash := reblocked.hash ▸ member
    refine (reblocked.queue lock).trans ((emptied.queue lock inside).trans ?_)
    refine List.filter_congr fun request queued => ?_
    have live := (wellformed.queued lock (emptied.hash lock inside) request queued).1
    exact decide_eq_decide.mpr (released request live)

/-- In every reachable lock table the queues hold exactly the live requests, and purging an owner
removes its requests and no other. -/
theorem Reachable.purge_bereaves (reachable : Reachable allowed table)
    (active : owner ∈ table.lhb_owners) :
    Queues table ∧ Bereft table owner (table.purgeOwner owner) := by
  have wellformed := (@Reachable.wellformed False allowed table reachable False.elim).1
  exact ⟨wellformed.toQueues, wellformed.bereft active⟩

/-- Also when the counter of the lock has wrapped. -/
theorem purge_bereaves_crowd :
    ((crowd 65535).locks 0).lbl_requests.length = 65536 ∧
      Bereft (crowd 65535) 0 ((crowd 65535).purgeOwner 0) := by
  have crowded := crowded_crowd 65535
  have reachable : Reachable (fun _ => True) (crowd 65535) :=
    crowd_reachable _ trivial trivial fun _ _ => trivial
  refine ⟨by rw [crowded.queue, List.length_range], (reachable.purge_bereaves ?_).2⟩
  rw [crowded.active]
  exact List.mem_singleton_self 0

end LockManager
end Firebird
