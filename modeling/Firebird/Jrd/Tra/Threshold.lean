import Firebird.Jrd.Tra.StartStep

/-!
# The garbage collection threshold

`tra_oldest_active` of a started transaction must not exceed the oldest active transaction that any
running snapshot has captured.  A threshold is safe if no transaction below it is active and no
snapshot has seen one below it as active while copying the inventory.  Every action keeps a safe
threshold safe.
-/

namespace Firebird
namespace Start

open TransactionState

variable {tipBytes : Nat} {swept : Nat → Prop} {world after : World tipBytes} {threshold number : Nat}
  {transaction : Transaction}

/-- The byte with the state is in the bit vector already. -/
def Transaction.copied (transaction : Transaction) (number : Nat) : Prop :=
  snapshotBase transaction.tra_oldest ≤ number ∧
    number / 4 < snapshotBase transaction.tra_oldest / 4 + transaction.tra_transactions.length

/-- A snapshot transaction has captured this oldest active transaction, or still may from what it
has copied. -/
def Sights (number : Nat) (transaction : Transaction) (other : Nat) : Prop :=
  transaction.readCommitted = false ∧
    if transaction.found then other = transaction.oldest_active
    else transaction.floor ≤ other ∧ other < number ∧ transaction.copied other ∧
      transaction.seen other = active

/-- No snapshot needs what a purge up to the threshold removes, now or later. -/
structure Safe (world : World tipBytes) (threshold : Nat) : Prop where
  bound : Bound world.inventory threshold
  sights : ∀ number transaction, world.transactions number = some transaction →
    ∀ other, Sights number transaction other → threshold ≤ other

theorem Safe.max {other : Nat} (left : Safe world threshold) (right : Safe world other) :
    Safe world (max threshold other) := by
  rcases Nat.le_total threshold other with le | le
  · rw [Nat.max_eq_right le]
    exact right
  · rw [Nat.max_eq_left le]
    exact left

theorem Safe.le_of_active (safe : Safe world threshold) (positive : 0 < number)
    (is_active : world.inventory.fetchState number = active) : threshold ≤ number :=
  Nat.le_of_not_lt fun below => safe.bound number positive below is_active

/-- A search changes no more than the cache of the process. -/
theorem World.findFirst_cache {start top : Nat} {wanted : TransactionState → Bool} {mask : UInt32}
    {found : Option Nat}
    (search : world.findFirst transaction start top wanted mask = .ok (found, after)) :
    ∃ cache, after = world.setCache transaction.process cache := by
  rw [World.findFirst] at search
  split at search
  · split at search
    · cases search
    · cases search
      exact ⟨_, rfl⟩
  · cases search
    refine ⟨(world.processes transaction.process).cache, ?_⟩
    rw [World.setCache]
    simp

/-! ## A safe threshold stays safe -/

theorem Safe.setTransaction (safe : Safe world threshold) {changed : Option Transaction}
    (sights : ∀ transaction, changed = some transaction →
      ∀ other, Sights number transaction other → threshold ≤ other) :
    Safe (world.setTransaction number changed) threshold := by
  refine ⟨safe.bound, fun other transaction held => ?_⟩
  rw [World.transactions_setTransaction] at held
  split at held
  · rename_i same
    rw [same]
    exact sights transaction held
  · exact safe.sights other transaction held

theorem Safe.remove (safe : Safe world threshold) (number : Nat) :
    Safe (world.setTransaction number none) threshold :=
  safe.setTransaction fun _ nothing => absurd nothing.symm (Option.some_ne_none _)

theorem Safe.setState (safe : Safe world threshold) {state : TransactionState}
    (ended : state ≠ active) : Safe (world.setState number state) threshold :=
  ⟨safe.bound.setState ended, safe.sights⟩

/-- Safety depends on the inventory and the transactions only. -/
theorem Safe.congr (safe : Safe world threshold) (inventory : after.inventory = world.inventory)
    (transactions : after.transactions = world.transactions) : Safe after threshold := by
  refine ⟨?_, ?_⟩
  · rw [inventory]
    exact safe.bound
  · rw [transactions]
    exact safe.sights

/-- A transaction that goes on with the oldest active transaction it has captured. -/
theorem Safe.proceed (safe : Safe world threshold)
    (held : world.transactions number = some transaction) (found : transaction.found = true)
    {changed : Transaction} (same_level : changed.readCommitted = transaction.readCommitted)
    (still_found : changed.found = true)
    (same_active : changed.oldest_active = transaction.oldest_active) {other : Nat} :
    ∀ sighted, Sights other changed sighted → threshold ≤ sighted := by
  rintro sighted ⟨snapshot, sight⟩
  rw [if_pos still_found, same_active] at sight
  refine safe.sights number transaction held sighted ⟨same_level ▸ snapshot, ?_⟩
  rw [if_pos found]
  exact sight

theorem Safe.bump (safe : Safe world threshold) {process : Nat}
    (bumped : world.bump process = some after) : Safe after threshold := by
  rw [World.bump] at bumped
  split at bumped
  · cases bumped
    exact safe.congr rfl rfl
  · cases bumped

/-- A transaction that has just begun has seen nothing. -/
theorem not_sights_begun {process sighted : Nat} {readCommitted : Bool} :
    ¬ Sights number (world.begun process readCommitted) sighted := by
  rintro ⟨snapshot, sight⟩
  cases snapshot
  obtain ⟨-, -, ⟨above, copied⟩, -⟩ := sight
  exact absurd (Nat.div_le_div_right above) (Nat.not_le.mpr copied)

theorem Safe.begin (safe : Safe world threshold) {process : Nat} {readCommitted : Bool}
    (begun : world.begin process readCommitted = some after) : Safe after threshold := by
  rw [World.begin, Option.map_eq_some_iff] at begun
  obtain ⟨bumped, bump, rfl⟩ := begun
  refine ((safe.bump bump).setTransaction fun transaction is_new => ?_).congr rfl rfl
  rw [← Option.some.inj is_new]
  exact fun sighted sights => absurd sights not_sights_begun

theorem Safe.copy (coherent : Coherent swept world) (safe : Safe world threshold)
    (held : world.transactions number = some transaction)
    (copying : transaction.progress = .copying) :
    Safe (world.copy number transaction) threshold := by
  have sane := coherent.transactions number transaction held
  have not_found : transaction.found = false := by rw [Transaction.found, copying]
  have floor_eq : transaction.floor = transaction.tra_oldest_active := by
    rw [Transaction.floor, copying]
  have before : transaction.readCommitted = false → ∀ sighted, transaction.floor ≤ sighted →
      sighted < number → transaction.copied sighted → transaction.seen sighted = active →
        threshold ≤ sighted := by
    intro snapshot sighted reached below copied seen
    refine safe.sights number transaction held sighted ⟨snapshot, ?_⟩
    rw [if_neg (by rw [not_found]; exact Bool.false_ne_true)]
    exact ⟨reached, below, copied, seen⟩
  refine safe.setTransaction fun changed is_changed => ?_
  rw [← Option.some.inj is_changed]
  split
  · rintro sighted ⟨snapshot, sight⟩
    change if transaction.found = true then _ else _ at sight
    rw [if_neg (by rw [not_found]; exact Bool.false_ne_true)] at sight
    obtain ⟨reached, below, ⟨above, copied⟩, seen⟩ := sight
    rw [seen_append transaction _ above] at seen
    split at seen
    · rename_i at_end
      rw [← at_end, ← Inventory.fetchState_eq] at seen
      exact safe.le_of_active (sane.oldest_pos.trans_le (sane.oldest_floor.trans reached)) seen
    · rename_i earlier
      refine before snapshot sighted reached below ⟨above, ?_⟩ seen
      simp only [List.length_append, List.length_singleton] at copied
      omega
  · rintro sighted ⟨snapshot, reached, below, copied, seen⟩
    exact before snapshot sighted (floor_eq.trans_le reached) below copied seen

theorem Safe.turn (coherent : Coherent swept world) (safe : Safe world threshold)
    (held : world.transactions number = some transaction) {start : Nat} {cleanup : Bool}
    (scanning : transaction.progress = .scanning start cleanup)
    (turn : Turn world number transaction start after) : Safe after threshold := by
  have sane := coherent.transactions number transaction held
  have floor_eq : transaction.floor = start := by rw [Transaction.floor, scanning]
  have not_found : transaction.found = false := by rw [Transaction.found, scanning]
  have oldest_le : transaction.tra_oldest ≤ start := floor_eq ▸ sane.oldest_floor
  have before : transaction.readCommitted = false → ∀ sighted, start ≤ sighted →
      sighted < number → transaction.copied sighted → transaction.seen sighted = active →
        threshold ≤ sighted := by
    intro snapshot sighted reached below copied seen
    refine safe.sights number transaction held sighted ⟨snapshot, ?_⟩
    rw [if_neg (by rw [not_found]; exact Bool.false_ne_true)]
    exact ⟨floor_eq.trans_le reached, below, copied, seen⟩
  cases turn with
  | exhausted clean =>
      refine safe.setTransaction fun changed is_changed => ?_
      rw [← Option.some.inj is_changed]
      rintro sighted ⟨-, sight⟩
      exact (safe.le_of_active sane.positive sane.alive).trans_eq sight.symm
  | passed found cleanup vector reached below clean ended rewritten =>
      refine safe.setTransaction fun changed is_changed => ?_
      rw [← Option.some.inj is_changed]
      rintro sighted ⟨snapshot, later, below_own, ⟨above, copied⟩, seen⟩
      have passed_by : found < sighted := later
      have found_above : snapshotBase transaction.tra_oldest ≤ found :=
        (Nat.sub_le _ _).trans (oldest_le.trans reached)
      have same_length : vector.length = transaction.tra_transactions.length := by
        rcases rewritten with rfl | rfl
        · rfl
        · rw [World.rewrite, List.length_set]
      have copied : sighted / 4 <
          snapshotBase transaction.tra_oldest / 4 + transaction.tra_transactions.length :=
        same_length ▸ copied
      have earlier := Nat.div_le_div_right passed_by.le (c := 4)
      refine before snapshot sighted (reached.trans passed_by.le) below_own ⟨above, copied⟩ ?_
      have found_copied := earlier.trans_lt copied
      rcases rewritten with rfl | rfl
      · exact seen
      · rw [seen_rewrite transaction _ _ found_above found_copied above,
          if_neg passed_by.ne'] at seen
        exact seen
  | hit found data reached below seen clean read positive =>
      refine safe.setTransaction fun changed is_changed => ?_
      rw [← Option.some.inj is_changed]
      rintro sighted ⟨snapshot, sight⟩
      have is_found : (World.settle transaction number found data).found = true := by
        by_cases early : min number data = transaction.oldest_snapshot <;>
          simp [World.settle, Transaction.found, early]
      rw [if_pos is_found] at sight
      have sighted_eq : sighted = found := sight.trans (Nat.min_eq_right below.le)
      have snapshot : transaction.readCommitted = false := snapshot
      have full := sane.complete snapshot (by rw [scanning]; exact Progress.noConfusion)
        (by rw [scanning]; exact Progress.noConfusion)
      rw [World.vectorLength] at full
      rw [sighted_eq]
      refine before snapshot found reached below ⟨?_, ?_⟩ (seen snapshot)
      · exact (Nat.sub_le _ _).trans (oldest_le.trans reached)
      · omega

theorem Safe.retain (safe : Safe world threshold)
    (held : world.transactions number = some transaction)
    (running : transaction.progress = .running) {state : TransactionState} (ended : state ≠ active)
    (retained : world.retain number transaction state = some after) : Safe after threshold := by
  rw [World.retain, Option.map_eq_some_iff] at retained
  obtain ⟨bumped, bump, rfl⟩ := retained
  have found : transaction.found = true := by rw [Transaction.found, running]
  have locked : Safe (bumped.setLock bumped.hdr_next_transaction (bumped.lck_data number))
      threshold := (safe.bump bump).congr rfl rfl
  refine ((locked.setState ended).remove number).setTransaction fun changed is_changed => ?_
  rw [← Option.some.inj is_changed]
  exact safe.proceed held found rfl found rfl

/-- What one action keeps safe. -/
theorem Safe.step (coherent : Coherent swept world) (safe : Safe world threshold) {action : Action}
    (careful : Careful world action) (taken : world.step action = some after) :
    Safe after threshold := by
  cases action with
  | begin process readCommitted => exact safe.begin taken
  | copy number =>
      rw [World.step] at taken
      split at taken
      · cases taken
      · rename_i transaction held
        rw [Option.ite_none_right_eq_some] at taken
        obtain ⟨copying, made⟩ := taken
        cases made
        exact safe.copy coherent held copying
  | lookup number =>
      rw [World.step] at taken
      split at taken
      · cases taken
      · rename_i transaction held
        split at taken
        · rename_i start cleanup scanning
          have sane := coherent.transactions number transaction held
          have floor_eq : transaction.floor = start := by rw [Transaction.floor, scanning]
          obtain ⟨cache, genuine, turn⟩ := lookup_cases coherent held (careful transaction held)
            (fun snapshot => sane.complete snapshot (by rw [scanning]; exact Progress.noConfusion)
              (by rw [scanning]; exact Progress.noConfusion))
            (floor_eq ▸ sane.oldest_pos.trans_le sane.oldest_floor) (floor_eq ▸ sane.oldest_floor)
            taken
          have refreshed : Safe (world.setCache transaction.process cache) threshold :=
            safe.congr rfl rfl
          exact refreshed.turn (coherent.setCache transaction.process genuine) held scanning turn
        · cases taken
  | query number =>
      rw [World.step] at taken
      split at taken
      · cases taken
      · rename_i transaction held
        rw [Option.ite_none_right_eq_some] at taken
        obtain ⟨querying, made⟩ := taken
        cases made
        have found : transaction.found = true := by rw [Transaction.found, querying]
        refine safe.setTransaction fun changed is_changed => ?_
        rw [← Option.some.inj is_changed]
        refine safe.proceed held found ?_ ?_ ?_ <;> rfl
  | publish number =>
      rw [World.step] at taken
      split at taken
      · cases taken
      · rename_i transaction held
        rw [Option.ite_none_right_eq_some] at taken
        obtain ⟨captured, made⟩ := taken
        cases made
        have found : transaction.found = true := by rw [Transaction.found, captured]
        have moved : Safe (world.setTransaction number
            (some { transaction with progress := .published })) threshold := by
          refine safe.setTransaction fun changed is_changed => ?_
          rw [← Option.some.inj is_changed]
          refine safe.proceed held found ?_ ?_ ?_ <;> rfl
        obtain ⟨data, data_eq⟩ : ∃ data, (if transaction.readCommitted then number
          else transaction.oldest_active) = data := ⟨_, rfl⟩
        rw [World.publish]
        simp only [data_eq]
        split
        · exact moved
        · split
          · exact moved
          · exact moved.congr rfl rfl
  | interest number =>
      rw [World.step] at taken
      split at taken
      · cases taken
      · rename_i transaction held
        rw [Option.ite_none_right_eq_some, World.interest] at taken
        obtain ⟨published, interested⟩ := taken
        have found : transaction.found = true := by rw [Transaction.found, published]
        split at interested
        · cases interested
        · rename_i outcome refreshed search
          obtain ⟨cache, rfl⟩ := World.findFirst_cache search
          cases interested
          have moved : Safe (world.setTransaction number
              (some { transaction with progress := .running })) threshold := by
            refine safe.setTransaction fun changed is_changed => ?_
            rw [← Option.some.inj is_changed]
            refine safe.proceed held found ?_ ?_ ?_ <;> rfl
          exact moved.congr rfl rfl
  | finish number state =>
      rw [World.step, Option.ite_none_right_eq_some] at taken
      obtain ⟨⟨ended, -⟩, made⟩ := taken
      cases made
      exact (safe.setState ended).remove number
  | retain number state =>
      rw [World.step] at taken
      split at taken
      · cases taken
      · rename_i transaction held
        rw [Option.ite_none_right_eq_some] at taken
        obtain ⟨⟨running, final⟩, retained⟩ := taken
        refine safe.retain held running ?_ retained
        rcases final with rfl | rfl <;> exact TransactionState.noConfusion
  | release number =>
      rw [World.step, Option.ite_none_right_eq_some] at taken
      obtain ⟨-, made⟩ := taken
      cases made
      exact safe.congr rfl rfl
  | vanish number =>
      cases taken
      exact (safe.remove number).congr rfl rfl
  | bury number =>
      rw [World.step, Option.ite_none_right_eq_some] at taken
      obtain ⟨-, made⟩ := taken
      cases made
      exact safe.setState TransactionState.noConfusion
  | resolve number state =>
      rw [World.step, Option.ite_none_right_eq_some] at taken
      obtain ⟨⟨-, final⟩, made⟩ := taken
      cases made
      refine safe.setState ?_
      rcases final with rfl | rfl <;> exact TransactionState.noConfusion
  | fetch process sequence =>
      rw [World.step] at taken
      split at taken
      · cases taken
      · cases taken
        exact safe.congr rfl rfl
  | trim process hdr_oldest =>
      rw [World.step, Option.ite_none_right_eq_some] at taken
      obtain ⟨-, made⟩ := taken
      cases made
      exact safe.congr rfl rfl
  | store process number state =>
      rw [World.step, Option.ite_none_right_eq_some] at taken
      obtain ⟨-, made⟩ := taken
      cases made
      exact safe.congr rfl rfl
  | precommit process vector =>
      rw [World.step, Option.ite_none_right_eq_some] at taken
      obtain ⟨-, made⟩ := taken
      cases made
      exact safe.congr rfl rfl

end Start
end Firebird
