import Firebird.Jrd.Tra.Threshold
import Firebird.Jrd.Tra.StartRun

/-!
# The oldest interesting transaction

The header page, a process or a started transaction knows a number up to which, that number
included, every transaction is committed, or dead and swept.
-/

namespace Firebird
namespace Start

open TransactionState

variable {tipBytes : Nat} {swept : Nat → Prop} {world after : World tipBytes}
  {number limit other : Nat} {transaction : Transaction}

/-- Every number taken for the oldest interesting transaction is settled itself. -/
structure Interesting (swept : Nat → Prop) (world : World tipBytes) : Prop where
  header : Settled swept world.inventory (world.hdr_oldest_transaction + 1)
  processes : ∀ process,
    Settled swept world.inventory ((world.processes process).dbb_oldest_transaction + 1)
  transactions : ∀ number transaction, world.transactions number = some transaction →
    Settled swept world.inventory (transaction.tra_oldest + 1)

theorem Settled.join {inventory : Inventory} (left : Settled swept inventory (limit + 1))
    (right : Settled swept inventory (other + 1)) :
    Settled swept inventory (Nat.max limit other + 1) := by
  have joined := left.max right
  rw [Nat.succ_max_succ] at joined
  exact joined

theorem Settled.pred {inventory : Inventory} (settled : Settled swept inventory limit) :
    Settled swept inventory (limit - 1 + 1) :=
  fun number positive below => settled number positive (by omega)

theorem Interesting.setTransaction (interesting : Interesting swept world)
    {changed : Option Transaction}
    (fits : ∀ transaction, changed = some transaction →
      Settled swept world.inventory (transaction.tra_oldest + 1)) :
    Interesting swept (world.setTransaction number changed) := by
  refine ⟨interesting.header, interesting.processes, fun other transaction held => ?_⟩
  rw [World.transactions_setTransaction] at held
  split at held
  · exact fits transaction held
  · exact interesting.transactions other transaction held

theorem Interesting.remove (interesting : Interesting swept world) (number : Nat) :
    Interesting swept (world.setTransaction number none) :=
  interesting.setTransaction fun _ nothing => absurd nothing.symm (Option.some_ne_none _)

/-- A transaction that goes on. -/
theorem Interesting.proceed (interesting : Interesting swept world)
    (held : world.transactions number = some transaction) {changed : Transaction}
    (same : changed.tra_oldest = transaction.tra_oldest) :
    Interesting swept (world.setTransaction number (some changed)) := by
  refine interesting.setTransaction fun later is_changed => ?_
  rw [← Option.some.inj is_changed, same]
  exact interesting.transactions number transaction held

theorem Interesting.setState (interesting : Interesting swept world) {state : TransactionState}
    (unsettled : Open world.inventory number) :
    Interesting swept (world.setState number state) :=
  ⟨interesting.header.setState unsettled,
    fun process => (interesting.processes process).setState unsettled,
    fun other transaction held => (interesting.transactions other transaction held).setState unsettled⟩

theorem Interesting.setLock (interesting : Interesting swept world) (number : Nat)
    (data : Option Nat) : Interesting swept (world.setLock number data) :=
  ⟨interesting.header, interesting.processes, interesting.transactions⟩

theorem Interesting.setCache (interesting : Interesting swept world) (process : Nat)
    (cache : TipCache tipBytes) : Interesting swept (world.setCache process cache) := by
  refine ⟨interesting.header, fun other => ?_, interesting.transactions⟩
  rw [World.processes_setCache]
  split
  · exact interesting.processes process
  · exact interesting.processes other

theorem Interesting.bump (interesting : Interesting swept world) {process : Nat}
    (bumped : world.bump process = some after) : Interesting swept after := by
  rw [World.bump] at bumped
  split at bumped
  · cases bumped
    exact ⟨interesting.header.join (interesting.processes process), interesting.processes,
      interesting.transactions⟩
  · cases bumped

/-- What one turn of the search does to the transaction. -/
theorem lookup_oldest {start : Nat} {cleanup : Bool}
    (looked : world.lookup number transaction start cleanup = some after) :
    ∃ cache changed, after =
        (world.setCache transaction.process cache).setTransaction number (some changed) ∧
      changed.tra_oldest = transaction.tra_oldest := by
  rw [World.lookup] at looked
  split at looked
  · cases looked
  · rename_i search
    obtain ⟨cache, rfl⟩ := World.findFirst_cache search
    cases looked
    exact ⟨cache, _, rfl, rfl⟩
  · rename_i search
    obtain ⟨cache, rfl⟩ := World.findFirst_cache search
    split at looked
    · split at looked
      · split at looked
        · cases looked
          exact ⟨cache, _, rfl, rfl⟩
        · dsimp only at looked
          split at looked
          · cases looked
          · cases looked
            exact ⟨cache, _, rfl, rfl⟩
      · cases looked
        exact ⟨cache, _, rfl, rfl⟩
    · cases looked
      exact ⟨cache, _, rfl, rfl⟩

/-- What one action preserves. -/
theorem Interesting.step (coherent : Coherent swept world) (interesting : Interesting swept world)
    {action : Action} (careful : Careful world action) (taken : world.step action = some after) :
    Interesting swept after := by
  cases action with
  | begin process readCommitted =>
      rw [World.step, World.begin, Option.map_eq_some_iff] at taken
      obtain ⟨bumped, bump, rfl⟩ := taken
      have bumped_interesting := interesting.bump bump
      refine (bumped_interesting.setTransaction fun transaction is_new => ?_).setLock _ _
      rw [← Option.some.inj is_new]
      exact bumped_interesting.header
  | copy number =>
      rw [World.step] at taken
      split at taken
      · cases taken
      · rename_i transaction held
        rw [Option.ite_none_right_eq_some] at taken
        obtain ⟨-, made⟩ := taken
        cases made
        refine interesting.proceed held ?_
        split <;> rfl
  | lookup number =>
      rw [World.step] at taken
      split at taken
      · cases taken
      · rename_i transaction held
        split at taken
        · obtain ⟨cache, changed, rfl, same⟩ := lookup_oldest taken
          refine (interesting.setCache transaction.process cache).proceed ?_ same
          exact held
        · cases taken
  | query number =>
      rw [World.step] at taken
      split at taken
      · cases taken
      · rename_i transaction held
        rw [Option.ite_none_right_eq_some] at taken
        obtain ⟨-, made⟩ := taken
        cases made
        refine interesting.proceed held ?_
        rfl
  | publish number =>
      rw [World.step] at taken
      split at taken
      · cases taken
      · rename_i transaction held
        rw [Option.ite_none_right_eq_some] at taken
        obtain ⟨-, made⟩ := taken
        cases made
        have moved : Interesting swept (world.setTransaction number
            (some { transaction with progress := .published })) := interesting.proceed held rfl
        obtain ⟨data, data_eq⟩ : ∃ data, (if transaction.readCommitted then number
          else transaction.oldest_active) = data := ⟨_, rfl⟩
        rw [World.publish]
        simp only [data_eq]
        split
        · exact moved
        · split
          · exact moved
          · exact moved.setLock _ _
  | interest number =>
      rw [World.step] at taken
      split at taken
      · cases taken
      · rename_i transaction held
        rw [Option.ite_none_right_eq_some, World.interest] at taken
        obtain ⟨published, interested⟩ := taken
        split at interested
        · cases interested
        · rename_i outcome refreshed search
          obtain ⟨⟨cache, rfl, -⟩, settled⟩ :=
            settled_interest coherent held (careful transaction held) published search
          cases interested
          have moved := interesting.setCache transaction.process cache
          refine ⟨interesting.header, fun process => ?_, ?_⟩
          · dsimp only
            rw [Function.update_apply]
            split
            · exact (moved.processes transaction.process).join settled.pred
            · exact moved.processes process
          · have proceeded : Interesting swept ((world.setCache transaction.process
                cache).setTransaction number (some { transaction with progress := .running })) :=
              moved.proceed held rfl
            exact proceeded.transactions
  | finish number state =>
      rw [World.step, Option.ite_none_right_eq_some] at taken
      obtain ⟨⟨-, alive⟩, made⟩ := taken
      cases made
      obtain ⟨transaction, held⟩ := Option.isSome_iff_exists.mp alive
      exact (interesting.setState (.inl (coherent.transactions number transaction held).alive)).remove
        number
  | retain number state =>
      rw [World.step] at taken
      split at taken
      · cases taken
      · rename_i transaction held
        rw [Option.ite_none_right_eq_some, World.retain, Option.map_eq_some_iff] at taken
        obtain ⟨-, bumped, bump, rfl⟩ := taken
        obtain ⟨kept, -, -, same_transactions, -⟩ := coherent.bump bump
        have bumped_held : bumped.transactions number = some transaction := by
          rw [same_transactions]
          exact held
        have alive := (kept.transactions number transaction bumped_held).alive
        have bumped_interesting := interesting.bump bump
        have oldest := bumped_interesting.transactions number transaction bumped_held
        refine (((bumped_interesting.setLock _ _).setState (.inl alive)).remove
          number).setTransaction fun changed is_changed => ?_
        rw [← Option.some.inj is_changed]
        exact oldest.setState (.inl alive)
  | release number =>
      rw [World.step, Option.ite_none_right_eq_some] at taken
      obtain ⟨-, made⟩ := taken
      cases made
      exact interesting.setLock _ _
  | vanish number =>
      cases taken
      exact (interesting.remove number).setLock _ _
  | bury number =>
      rw [World.step, Option.ite_none_right_eq_some] at taken
      obtain ⟨⟨-, is_active⟩, made⟩ := taken
      cases made
      exact interesting.setState (.inl is_active)
  | resolve number state =>
      rw [World.step, Option.ite_none_right_eq_some] at taken
      obtain ⟨⟨is_limbo, -⟩, made⟩ := taken
      cases made
      exact interesting.setState (.inr is_limbo)
  | fetch process sequence =>
      rw [World.step] at taken
      split at taken
      · cases taken
      · cases taken
        exact interesting.setCache process _
  | trim process hdr_oldest =>
      rw [World.step, Option.ite_none_right_eq_some] at taken
      obtain ⟨-, made⟩ := taken
      cases made
      exact interesting.setCache process _
  | store process number state =>
      rw [World.step, Option.ite_none_right_eq_some] at taken
      obtain ⟨-, made⟩ := taken
      cases made
      exact interesting.setCache process _
  | precommit process vector =>
      rw [World.step, Option.ite_none_right_eq_some] at taken
      obtain ⟨-, made⟩ := taken
      cases made
      refine ⟨interesting.header, fun other => ?_, interesting.transactions⟩
      dsimp only
      rw [Function.update_apply]
      split
      · exact interesting.processes process
      · exact interesting.processes other

end Start
end Firebird
