import Firebird.Jrd.Tra.StartRun

/-!
# The oldest active transaction

In every run of transaction starts and ends no transaction below an oldest active transaction that
somebody has recorded is active: on the header page, in a process, or for a running transaction.
-/

namespace Firebird
namespace Start

open TransactionState

variable {tipBytes : Nat} {start world : World tipBytes}

/-- What holds of a transaction that has begun and not ended. -/
structure Underway (world : World tipBytes) (number : Nat) (transaction : Transaction) : Prop where
  alive : world.inventory.fetchState number = active
  born : world.hdr_oldest_active ≤ number ∧ number ≤ world.hdr_next_transaction
  /-- What it has found is a lower bound of the active transactions, and so of itself. -/
  bound : transaction.found = true → Bound world.inventory transaction.oldest_active ∧
    transaction.tra_oldest_active ≤ transaction.oldest_active ∧ transaction.oldest_active ≤ number
  /-- What a snapshot has copied as ended has ended, and as committed has committed. -/
  vector : ∀ other, snapshotBase transaction.tra_oldest ≤ other →
    other / 4 < snapshotBase transaction.tra_oldest / 4 + transaction.tra_transactions.length →
      TipCache.Trace.Genuine world.inventory false other (transaction.seen other)

/-- Every recorded oldest active transaction is a lower bound of the active ones. -/
structure Vigilant (world : World tipBytes) : Prop where
  header : Bound world.inventory world.hdr_oldest_active
  processes : ∀ process, Bound world.inventory (world.processes process).dbb_oldest_active
  underway : ∀ number transaction, world.transactions number = some transaction →
    Underway world number transaction

/-- When the search is over it has come to the oldest active transaction. -/
theorem floor_of_found {transaction : Transaction} (found : transaction.found = true) :
    transaction.floor = transaction.oldest_active := by
  rw [Transaction.found] at found
  rw [Transaction.floor]
  cases progress_eq : transaction.progress <;> rw [progress_eq] at found <;>
    first | rfl | cases found

theorem Coherent.vigilant {swept : Nat → Prop} (coherent : Coherent swept world) :
    Vigilant world := by
  refine ⟨coherent.oldest_active, fun process => (coherent.processes process).oldest_active,
    fun number transaction held => ?_⟩
  have sane := coherent.transactions number transaction held
  refine ⟨sane.alive, ⟨?_, sane.born⟩, fun found => ⟨?_, sane.threshold found⟩, sane.vector⟩
  · by_contra above
    exact coherent.oldest_active number sane.positive (Nat.lt_of_not_le above) sane.alive
  · rw [← floor_of_found found]
    exact sane.floor_bound

/-- In every run from an opened database, as long as read-committed starts search caches without
gaps. -/
theorem vigilant_of_run (opened : Opened start) (run : Run Careful start world) :
    Vigilant world := by
  have coherent : Coherent (fun _ => True) world := by
    induction run with
    | refl => exact opened.coherent opened.settled
    | step action _ careful taken induction => exact induction.step careful taken
  exact coherent.vigilant

/-- Two snapshots start, and the first one commits. -/
theorem vigilant_quietWorld :
    ∃ world, quietWorld.run [.begin 0 false, .begin 0 false, .copy 5, .finish 4 committed] =
      some world ∧ Vigilant world := by
  have begun : Run Careful quietWorld _ :=
    Run.refl.step (.begin 0 false) trivial (rfl : quietWorld.step _ = some _)
  exact ⟨_, rfl, vigilant_of_run opened_quietWorld (((begun.step (.begin 0 false) trivial rfl).step
    (.copy 5) trivial rfl).step (.finish 4 committed) trivial rfl)⟩

end Start
end Firebird
