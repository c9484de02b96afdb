import Mathlib
import Firebird.Jrd.Tra.Threshold
import Firebird.Jrd.Tra.StartRun

/-!
# Thresholds over whole runs

A start computes a safe threshold unless its search finds no active transaction while a later
snapshot has already seen one.
-/

namespace Firebird
namespace Start

open TransactionState

variable {tipBytes : Nat} {swept allowed : Nat → Prop} {world after : World tipBytes}
  {threshold number : Nat} {transaction : Transaction}

/-- The threshold of the transaction is final. -/
def Transaction.captured (transaction : Transaction) : Bool :=
  match transaction.progress with
  | .captured | .published | .running => true
  | _ => false

/-- What every threshold in use is. -/
structure Uses (world : World tipBytes) (allowed : Nat → Prop) : Prop where
  header : allowed world.hdr_oldest_snapshot
  processes : ∀ process, allowed (world.processes process).dbb_oldest_snapshot
  oldest_snapshot : ∀ number transaction, world.transactions number = some transaction →
    allowed transaction.oldest_snapshot
  threshold : ∀ number transaction, world.transactions number = some transaction →
    transaction.captured = true → allowed transaction.tra_oldest_active

/-- All thresholds in use are safe. -/
def Guarded (world : World tipBytes) : Prop :=
  Uses world (Safe world)

/-- No start's search finds no active transaction while another snapshot transaction has seen one
below its number as active. -/
def Unovertaken (world : World tipBytes) : Action → Prop
  | .lookup number =>
      ∀ transaction start cleanup refreshed, world.transactions number = some transaction →
        transaction.progress = .scanning start cleanup →
        world.findFirst transaction start number (· == active) World.activeMask =
          .ok (none, refreshed) →
        ∀ other later, world.transactions other = some later → other ≠ number →
          ∀ sighted, Sights other later sighted → number ≤ sighted
  | _ => True

section Uses

theorem Uses.mono {wider : Nat → Prop} (uses : Uses world allowed)
    (weaker : ∀ threshold, allowed threshold → wider threshold) : Uses world wider :=
  ⟨weaker _ uses.header, fun process => weaker _ (uses.processes process),
    fun number transaction held => weaker _ (uses.oldest_snapshot number transaction held),
    fun number transaction held captured =>
      weaker _ (uses.threshold number transaction held captured)⟩

theorem Uses.setTransaction (uses : Uses world allowed) {changed : Option Transaction}
    (fits : ∀ transaction, changed = some transaction →
      allowed transaction.oldest_snapshot ∧
        (transaction.captured = true → allowed transaction.tra_oldest_active)) :
    Uses (world.setTransaction number changed) allowed := by
  refine ⟨uses.header, uses.processes, fun other transaction held => ?_,
    fun other transaction held captured => ?_⟩ <;>
    rw [World.transactions_setTransaction] at held <;> split at held
  · exact (fits transaction held).1
  · exact uses.oldest_snapshot other transaction held
  · exact (fits transaction held).2 captured
  · exact uses.threshold other transaction held captured

theorem Uses.remove (uses : Uses world allowed) (number : Nat) :
    Uses (world.setTransaction number none) allowed :=
  uses.setTransaction fun _ nothing => absurd nothing.symm (Option.some_ne_none _)

theorem Uses.congr (uses : Uses world allowed)
    (header : after.hdr_oldest_snapshot = world.hdr_oldest_snapshot)
    (processes : after.processes = world.processes)
    (transactions : after.transactions = world.transactions) : Uses after allowed := by
  refine ⟨?_, ?_, ?_, ?_⟩
  · rw [header]
    exact uses.header
  · rw [processes]
    exact uses.processes
  · rw [transactions]
    exact uses.oldest_snapshot
  · rw [transactions]
    exact uses.threshold

/-- A transaction that goes on with the threshold it has captured. -/
theorem Uses.proceed (uses : Uses world allowed)
    (held : world.transactions number = some transaction) (captured : transaction.captured = true)
    (progress : Progress) :
    Uses (world.setTransaction number (some { transaction with progress })) allowed := by
  refine uses.setTransaction fun changed is_changed => ?_
  rw [← Option.some.inj is_changed]
  exact ⟨uses.oldest_snapshot number transaction held,
    fun _ => uses.threshold number transaction held captured⟩

theorem Uses.setCache (uses : Uses world allowed) (process : Nat) (cache : TipCache tipBytes) :
    Uses (world.setCache process cache) allowed := by
  refine ⟨uses.header, fun other => ?_, uses.oldest_snapshot, uses.threshold⟩
  rw [World.processes_setCache]
  split
  · exact uses.processes process
  · exact uses.processes other

theorem Uses.bump (uses : Uses world allowed)
    (max : ∀ left right, allowed left → allowed right → allowed (max left right)) {process : Nat}
    (bumped : world.bump process = some after) : Uses after allowed := by
  rw [World.bump] at bumped
  split at bumped
  · cases bumped
    exact ⟨max _ _ uses.header (uses.processes process), uses.processes, uses.oldest_snapshot,
      uses.threshold⟩
  · cases bumped

end Uses

/-! ## The threshold of a start -/

/-- What one turn of the search does to the threshold. -/
theorem lookup_threshold {start : Nat} {cleanup : Bool}
    (looked : world.lookup number transaction start cleanup = some after) :
    ∃ cache changed, after =
        (world.setCache transaction.process cache).setTransaction number (some changed) ∧
      changed.oldest_snapshot = transaction.oldest_snapshot ∧
      (changed.captured = true →
        changed.tra_oldest_active = transaction.oldest_snapshot ∨
          (changed.tra_oldest_active = number ∧ changed.oldest_active = number ∧
            ∃ refreshed, world.findFirst transaction start number (· == active) World.activeMask =
              .ok (none, refreshed))) := by
  have settles : ∀ found data : Nat,
      (World.settle transaction number found data).captured = true →
        (World.settle transaction number found data).tra_oldest_active =
          transaction.oldest_snapshot := by
    intro found data captured
    by_cases early : min number data = transaction.oldest_snapshot
    · exact early
    · simp [World.settle, Transaction.captured, early] at captured
  rw [World.lookup] at looked
  split at looked
  · cases looked
  · rename_i refreshed search
    obtain ⟨cache, rfl⟩ := World.findFirst_cache search
    cases looked
    exact ⟨cache, _, rfl, rfl, fun _ => .inr ⟨rfl, rfl, _, search⟩⟩
  · rename_i found refreshed search
    obtain ⟨cache, rfl⟩ := World.findFirst_cache search
    split at looked
    · split at looked
      · split at looked
        · cases looked
          exact ⟨cache, _, rfl, rfl, fun captured => by cases captured⟩
        · dsimp only at looked
          split at looked
          · cases looked
          · cases looked
            exact ⟨cache, _, rfl, rfl, fun captured => by cases captured⟩
      · cases looked
        exact ⟨cache, _, rfl, rfl, fun captured => .inl (settles found found captured)⟩
    · rename_i data read
      cases looked
      exact ⟨cache, _, rfl, rfl, fun captured => .inl (settles found (data + 1) captured)⟩

theorem not_captured_begun {process : Nat} {readCommitted : Bool} :
    ¬ (world.begun process readCommitted).captured = true := by
  cases readCommitted <;> exact Bool.false_ne_true

theorem Transaction.floor_of_found (found : transaction.found = true) :
    transaction.floor = transaction.oldest_active := by
  rw [Transaction.floor]
  split
  · rename_i copying
    rw [Transaction.found, copying] at found
    cases found
  · rename_i scanning
    rw [Transaction.found, scanning] at found
    cases found
  · rfl

theorem Transaction.found_of_captured (captured : transaction.captured = true) :
    transaction.found = true := by
  cases progress : transaction.progress <;>
    simp [Transaction.captured, Transaction.found, progress] at captured ⊢

theorem Sights.floor_le {sighted : Nat} (sights : Sights number transaction sighted) :
    transaction.floor ≤ sighted := by
  obtain ⟨-, sight⟩ := sights
  split at sight
  · rename_i found
    exact ((Transaction.floor_of_found found).trans sight.symm).le
  · exact sight.1

/-- The smallest lock data do not exceed what a lock holds. -/
theorem lckMin_le (coherent : Coherent swept world) {data : Nat}
    (locked : world.lck_data number = some data) : 0 < world.lckMin ∧ world.lckMin ≤ data := by
  have positive := (coherent.locks number data locked).1
  have born : number ≤ world.hdr_next_transaction := by
    refine Nat.le_of_not_lt fun late => ?_
    cases locked.symm.trans (coherent.unborn number late).2
  have mem : data ∈ ((List.range (world.hdr_next_transaction + 1)).filterMap
      world.lck_data).filter fun data => data != 0 := by
    refine List.mem_filter.mpr ⟨List.mem_filterMap.mpr ⟨number, ?_, locked⟩, ?_⟩
    · exact List.mem_range.mpr (Nat.lt_succ_of_le born)
    · simpa using positive.ne'
  refine ⟨?_, List.min?_getD_le_of_mem mem⟩
  obtain ⟨least, is_least⟩ := Option.isSome_iff_exists.mp (List.isSome_min?_of_mem mem)
  rw [World.lckMin, is_least]
  have least_mem := List.min?_mem is_least
  exact Nat.pos_of_ne_zero (by simpa using (List.mem_filter.mp least_mem).2)

/-- The minimum over all locks is a safe threshold for a start that has found an active
transaction. -/
theorem safe_query (coherent : Coherent swept world)
    (held : world.transactions number = some transaction)
    (querying : transaction.progress = .querying) (small : threshold ≤ transaction.tra_oldest_active)
    (minimum : threshold ≤ world.lckMin) : Safe world threshold := by
  have sane := coherent.transactions number transaction held
  have floor_eq : transaction.floor = transaction.oldest_active := by
    rw [Transaction.floor, querying]
  have found : transaction.found = true := by rw [Transaction.found, querying]
  refine ⟨sane.floor_bound.mono ?_, fun other snapshot other_held sighted sights => ?_⟩
  · rw [floor_eq]
    exact small.trans (sane.threshold found).1
  · obtain ⟨data, locked, low⟩ := (coherent.transactions other snapshot other_held).lock
    calc
      threshold ≤ world.lckMin := minimum
      _ ≤ data := (lckMin_le coherent locked).2
      _ ≤ snapshot.floor := low sights.1
      _ ≤ sighted := sights.floor_le

/-! ## What one action preserves -/

/-- The own number is a safe threshold if the search finds no active transaction and no other
snapshot has seen one below it. -/
theorem safe_exhausted (coherent : Coherent swept world)
    (held : world.transactions number = some transaction) (found : transaction.found = true)
    (own : transaction.oldest_active = number)
    (unseen : ∀ other later, world.transactions other = some later → other ≠ number →
      ∀ sighted, Sights other later sighted → number ≤ sighted) : Safe world number := by
  have sane := coherent.transactions number transaction held
  have floor_eq := (Transaction.floor_of_found found).trans own
  refine ⟨floor_eq ▸ sane.floor_bound, fun other later other_held sighted sights => ?_⟩
  by_cases same : other = number
  · subst same
    rw [held] at other_held
    cases other_held
    exact floor_eq.symm.le.trans sights.floor_le
  · exact unseen other later other_held same sighted sights

theorem Guarded.step (coherent : Coherent swept world) (guarded : Guarded world) {action : Action}
    (careful : Careful world action) (unovertaken : Unovertaken world action)
    (taken : world.step action = some after) : Guarded after := by
  have stays : ∀ threshold, Safe world threshold → Safe after threshold :=
    fun _ safe => safe.step coherent careful taken
  have uses : Uses world (Safe after) := guarded.mono stays
  have after_coherent := coherent.step careful taken
  rw [Guarded]
  generalize allowed_eq : Safe after = allowed at *
  have join : ∀ left right, allowed left → allowed right → allowed (max left right) := by
    rw [← allowed_eq]
    exact fun left right => Safe.max
  cases action with
  | begin process readCommitted =>
      rw [World.step, World.begin, Option.map_eq_some_iff] at taken
      obtain ⟨bumped, bump, rfl⟩ := taken
      have uses := uses.bump join bump
      refine (uses.setTransaction fun changed is_new => ?_).congr rfl rfl rfl
      rw [← Option.some.inj is_new]
      exact ⟨uses.header, fun captured => absurd captured not_captured_begun⟩
  | copy number =>
      rw [World.step] at taken
      split at taken
      · cases taken
      · rename_i transaction held
        rw [Option.ite_none_right_eq_some] at taken
        obtain ⟨copying, made⟩ := taken
        cases made
        refine uses.setTransaction fun changed is_changed => ?_
        rw [← Option.some.inj is_changed]
        have header := uses.oldest_snapshot number transaction held
        split
        · refine ⟨header, fun captured => ?_⟩
          simp [Transaction.captured, copying] at captured
        · exact ⟨header, fun captured => by cases captured⟩
  | lookup number =>
      rw [World.step] at taken
      split at taken
      · cases taken
      · rename_i transaction held
        split at taken
        · rename_i start cleanup scanning
          obtain ⟨cache, changed, rfl, same_header, threshold⟩ := lookup_threshold taken
          refine (uses.setCache transaction.process cache).setTransaction
            fun other is_changed => ?_
          rw [← Option.some.inj is_changed, same_header]
          have header := uses.oldest_snapshot number transaction held
          refine ⟨header, fun captured => ?_⟩
          rcases threshold captured with early | ⟨at_own, own, refreshed, search⟩
          · rw [early]
            exact header
          · rw [at_own, ← allowed_eq]
            refine safe_exhausted after_coherent
              (by rw [World.transactions_setTransaction, if_pos rfl])
              (Transaction.found_of_captured captured) own fun other later other_held differ => ?_
            rw [World.transactions_setTransaction, if_neg differ] at other_held
            exact unovertaken transaction start cleanup refreshed held scanning search other later
              other_held differ
        · cases taken
  | query number =>
      rw [World.step] at taken
      split at taken
      · cases taken
      · rename_i transaction held
        rw [Option.ite_none_right_eq_some] at taken
        obtain ⟨querying, made⟩ := taken
        cases made
        refine uses.setTransaction fun changed is_changed => ?_
        rw [← Option.some.inj is_changed]
        refine ⟨uses.oldest_snapshot number transaction held, fun _ => stays _ ?_⟩
        obtain ⟨data, locked, -⟩ := (coherent.transactions number transaction held).lock
        have positive := (lckMin_le coherent locked).1
        refine safe_query coherent held querying ?_ ?_ <;> dsimp only <;> split
        · rename_i smaller
          simp only [Bool.and_eq_true, decide_eq_true_eq] at smaller
          exact smaller.2.le
        · exact Nat.le_refl _
        · exact Nat.le_refl _
        · rename_i not_smaller
          simp only [Bool.and_eq_true, decide_eq_true_eq, bne_iff_ne, ne_eq, not_and,
            Nat.not_lt] at not_smaller
          exact not_smaller positive.ne'
  | publish number =>
      rw [World.step] at taken
      split at taken
      · cases taken
      · rename_i transaction held
        rw [Option.ite_none_right_eq_some] at taken
        obtain ⟨captured, made⟩ := taken
        cases made
        have final : transaction.captured = true := by rw [Transaction.captured, captured]
        have moved := uses.proceed held final .published
        obtain ⟨data, data_eq⟩ : ∃ data, (if transaction.readCommitted then number
          else transaction.oldest_active) = data := ⟨_, rfl⟩
        rw [World.publish]
        simp only [data_eq]
        split
        · exact moved
        · split
          · exact moved
          · exact moved.congr rfl rfl rfl
  | interest number =>
      rw [World.step] at taken
      split at taken
      · cases taken
      · rename_i transaction held
        rw [Option.ite_none_right_eq_some, World.interest] at taken
        obtain ⟨published, interested⟩ := taken
        have captured : transaction.captured = true := by rw [Transaction.captured, published]
        split at interested
        · cases interested
        · rename_i outcome refreshed search
          obtain ⟨cache, rfl⟩ := World.findFirst_cache search
          cases interested
          have refreshed := uses.setCache transaction.process cache
          have moved := refreshed.proceed held captured .running
          refine ⟨moved.header, fun process => ?_, moved.oldest_snapshot, moved.threshold⟩
          dsimp only
          rw [Function.update_apply]
          split
          · exact join _ _ (refreshed.processes transaction.process)
              (uses.threshold number transaction held captured)
          · exact refreshed.processes process
  | finish number state =>
      rw [World.step, Option.ite_none_right_eq_some] at taken
      obtain ⟨-, made⟩ := taken
      cases made
      exact (uses.remove number).congr rfl rfl rfl
  | retain number state =>
      rw [World.step] at taken
      split at taken
      · cases taken
      · rename_i transaction held
        rw [Option.ite_none_right_eq_some, World.retain, Option.map_eq_some_iff] at taken
        obtain ⟨-, bumped, bump, rfl⟩ := taken
        have removed : Uses (((bumped.setLock bumped.hdr_next_transaction
            (bumped.lck_data number)).setState number state).setTransaction number none) allowed :=
          ((uses.bump join bump).remove number).congr rfl rfl rfl
        refine removed.setTransaction fun changed is_changed => ?_
        rw [← Option.some.inj is_changed]
        exact ⟨uses.oldest_snapshot number transaction held,
          uses.threshold number transaction held⟩
  | release number =>
      rw [World.step, Option.ite_none_right_eq_some] at taken
      obtain ⟨-, made⟩ := taken
      cases made
      exact uses.congr rfl rfl rfl
  | vanish number =>
      cases taken
      exact (uses.remove number).congr rfl rfl rfl
  | bury number =>
      rw [World.step, Option.ite_none_right_eq_some] at taken
      obtain ⟨-, made⟩ := taken
      cases made
      exact uses.congr rfl rfl rfl
  | resolve number state =>
      rw [World.step, Option.ite_none_right_eq_some] at taken
      obtain ⟨-, made⟩ := taken
      cases made
      exact uses.congr rfl rfl rfl
  | fetch process sequence =>
      rw [World.step] at taken
      split at taken
      · cases taken
      · cases taken
        exact uses.setCache process _
  | trim process hdr_oldest =>
      rw [World.step, Option.ite_none_right_eq_some] at taken
      obtain ⟨-, made⟩ := taken
      cases made
      exact uses.setCache process _
  | store process number state =>
      rw [World.step, Option.ite_none_right_eq_some] at taken
      obtain ⟨-, made⟩ := taken
      cases made
      exact uses.setCache process _
  | precommit process vector =>
      rw [World.step, Option.ite_none_right_eq_some] at taken
      obtain ⟨-, made⟩ := taken
      cases made
      refine ⟨uses.header, fun other => ?_, uses.oldest_snapshot, uses.threshold⟩
      dsimp only
      rw [Function.update_apply]
      split
      · exact uses.processes process
      · exact uses.processes other

/-! ## Runs -/

theorem Opened.guarded (opened : Opened world) : Guarded world := by
  have safe : ∀ threshold, threshold ≤ world.hdr_oldest_snapshot → Safe world threshold := by
    refine fun threshold small => ⟨opened.oldest_snapshot.mono small, ?_⟩
    intro number transaction held sighted sights
    obtain ⟨-, -, -, as_begun⟩ := opened.transactions number transaction held
    rw [as_begun] at sights
    exact absurd sights not_sights_begun
  refine ⟨safe _ (Nat.le_refl _), fun process => safe _ (opened.processes process).2.2.1,
    fun number transaction held => safe _ ?_, fun number transaction held captured => ?_⟩ <;>
    obtain ⟨-, -, -, as_begun⟩ := opened.transactions number transaction held
  · rw [as_begun]
    exact Nat.le_refl _
  · rw [as_begun] at captured
    exact absurd captured not_captured_begun

/-- No threshold in use exceeds the oldest active transaction that a running snapshot has
captured. -/
def Protected (world : World tipBytes) : Prop :=
  ∀ number snapshot, world.transactions number = some snapshot → snapshot.readCommitted = false →
    snapshot.found = true → Uses world fun threshold => threshold ≤ snapshot.oldest_active

theorem Guarded.protected (guarded : Guarded world) : Protected world := by
  intro number snapshot held level found
  refine guarded.mono fun threshold safe => safe.sights number snapshot held _ ⟨level, ?_⟩
  rw [if_pos found]

/-- Both conditions of a step. -/
def Orderly (world : World tipBytes) (action : Action) : Prop :=
  Careful world action ∧ Unovertaken world action

theorem guarded_of_run {start : World tipBytes} (opened : Opened start)
    (run : Run Orderly start world) : Coherent (fun _ => True) world ∧ Guarded world := by
  induction run with
  | refl => exact ⟨opened.coherent opened.settled, opened.guarded⟩
  | step action _ orderly taken induction =>
      obtain ⟨coherent, guarded⟩ := induction
      exact ⟨coherent.step orderly.1 taken, guarded.step coherent orderly.1 orderly.2 taken⟩

theorem protected_of_run {start : World tipBytes} (opened : Opened start)
    (run : Run Orderly start world) : Protected world :=
  (guarded_of_run opened run).2.protected

theorem protected_quietWorld :
    ∃ world, quietWorld.run
      [.begin 0 false, .begin 0 false, .copy 5, .copy 5, .copy 5, .lookup 5] = some world ∧
        Protected world := by
  have begun : Run Orderly quietWorld _ :=
    Run.refl.step (.begin 0 false) ⟨trivial, trivial⟩ (rfl : quietWorld.step _ = some _)
  have copied := (((begun.step (.begin 0 false) ⟨trivial, trivial⟩ rfl).step (.copy 5)
    ⟨trivial, trivial⟩ rfl).step (.copy 5) ⟨trivial, trivial⟩ rfl).step (.copy 5)
    ⟨trivial, trivial⟩ rfl
  refine ⟨_, rfl, protected_of_run opened_quietWorld (copied.step (.lookup 5) ⟨?_, ?_⟩ rfl)⟩
  · intro transaction held level
    cases held
    cases level
  · intro transaction start cleanup refreshed held scanning search
    cases held
    cases scanning
    cases search

/-- Transaction 6 sees transaction 4 as active, which ends before transaction 5 copies the
inventory and finds no active transaction. -/
def overtaking : List Action :=
  [.begin 0 false, .begin 0 false, .begin 0 false, .copy 6, .copy 6, .copy 6, .lookup 6,
    .finish 4 committed, .copy 5, .copy 5, .copy 5, .lookup 5]

theorem threshold_overtaken :
    ¬ ∀ start world : World 1, Opened start → Run (fun _ _ => True) start world →
      ∀ number transaction, world.transactions number = some transaction →
        transaction.captured = true →
          ∀ other snapshot, world.transactions other = some snapshot →
            snapshot.readCommitted = false → snapshot.found = true →
              transaction.tra_oldest_active ≤ snapshot.oldest_active := by
  intro claim
  have le := claim quietWorld _ opened_quietWorld (run_of_actions .refl (rfl : quietWorld.run overtaking = some _)) 5 _ rfl rfl
    6 _ rfl rfl rfl
  exact absurd le (by decide)

end Start
end Firebird
