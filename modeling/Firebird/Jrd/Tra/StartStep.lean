import Firebird.Jrd.Tra.StartInvariant

/-!
# What one action of a start preserves

One lemma for each way of changing the world, then one for each action.
-/

namespace Firebird
namespace Start

open TransactionState

variable {tipBytes : Nat} {swept : Nat → Prop} {world after : World tipBytes}
  {number : Nat} {transaction : Transaction}

/-! ## Changes of the world -/

theorem Coherent.setTransaction (coherent : Coherent swept world) {changed : Option Transaction}
    (sane : ∀ transaction, changed = some transaction →
      Sane swept world.inventory world.hdr_next_transaction world.lck_data number transaction) :
    Coherent swept (world.setTransaction number changed) := by
  refine ⟨coherent.oldest_pos, coherent.settled, coherent.oldest_active, coherent.active_le,
    coherent.unborn, coherent.processes, coherent.locks, fun other transaction held => ?_⟩
  rw [World.transactions_setTransaction] at held
  split at held
  · rename_i same
    rw [same]
    exact sane transaction held
  · exact coherent.transactions other transaction held

theorem Coherent.remove (coherent : Coherent swept world) (number : Nat) :
    Coherent swept (world.setTransaction number none) :=
  coherent.setTransaction fun _ nothing => absurd nothing.symm (Option.some_ne_none _)

/-- Rewrite the data of a lock that is held. -/
theorem Coherent.setLock (coherent : Coherent swept world) (born : number ≤ world.hdr_next_transaction)
    {data : Nat} (positive : 0 < data) (small : data ≤ number)
    (floor : ∀ transaction, world.transactions number = some transaction →
      transaction.readCommitted = false → data ≤ transaction.floor) :
    Coherent swept (world.setLock number (some data)) := by
  refine ⟨coherent.oldest_pos, coherent.settled, coherent.oldest_active, coherent.active_le,
    fun other late => ?_, coherent.processes, fun other held locked => ?_, fun other transaction held => ?_⟩
  · have := coherent.unborn other late
    refine ⟨this.1, ?_⟩
    rw [World.lck_data_setLock, if_neg (Nat.ne_of_gt (born.trans_lt late))]
    exact this.2
  · rw [World.lck_data_setLock] at locked
    split at locked
    · rename_i same
      cases locked
      exact ⟨positive, small.trans_eq same.symm⟩
    · exact coherent.locks other held locked
  · have sane := coherent.transactions other transaction held
    refine ⟨sane.positive, sane.born, sane.alive, sane.oldest_pos, sane.oldest_le,
      sane.oldest_floor, sane.settled, sane.floor_bound, sane.vector, sane.complete,
      sane.threshold, ?_⟩
    rw [World.lck_data_setLock]
    split
    · rename_i same
      subst same
      exact ⟨data, rfl, floor transaction held⟩
    · exact sane.lock

/-- Release the lock of a transaction that has ended. -/
theorem Coherent.unlock (coherent : Coherent swept world)
    (ended : world.transactions number = none) :
    Coherent swept (world.setLock number none) := by
  refine ⟨coherent.oldest_pos, coherent.settled, coherent.oldest_active, coherent.active_le,
    fun other late => ?_, coherent.processes, fun other held locked => ?_, fun other transaction held => ?_⟩
  · have := coherent.unborn other late
    refine ⟨this.1, ?_⟩
    rw [World.lck_data_setLock]
    split
    · rfl
    · exact this.2
  · rw [World.lck_data_setLock] at locked
    split at locked
    · cases locked
    · exact coherent.locks other held locked
  · have sane := coherent.transactions other transaction held
    refine ⟨sane.positive, sane.born, sane.alive, sane.oldest_pos, sane.oldest_le,
      sane.oldest_floor, sane.settled, sane.floor_bound, sane.vector, sane.complete,
      sane.threshold, ?_⟩
    have differ : other ≠ number := by
      rintro rfl
      exact absurd (held.symm.trans ended) (Option.some_ne_none _)
    rw [World.lck_data_setLock, if_neg differ]
    exact sane.lock

/-- A transaction that is not alive gets its last state, or its state is resolved. -/
theorem Coherent.setState (coherent : Coherent swept world) {state : TransactionState}
    (ended : state ≠ active) (unsettled : Open world.inventory number)
    (born : number ≤ world.hdr_next_transaction) (dead : world.transactions number = none) :
    Coherent swept (world.setState number state) := by
  have kept : ∀ other held, TipCache.Trace.Genuine world.inventory false other held →
      TipCache.Trace.Genuine (world.inventory.setState number state) false other held :=
    fun other held genuine => genuine.setState ended unsettled.not_committed
  refine ⟨coherent.oldest_pos, coherent.settled.setState unsettled,
    coherent.oldest_active.setState ended, coherent.active_le, fun other late => ?_,
    fun process => ?_, coherent.locks, fun other transaction held => ?_⟩
  · have := coherent.unborn other late
    refine ⟨?_, this.2⟩
    rw [World.fetchState_setState, if_neg (Nat.ne_of_gt (born.trans_lt late))]
    exact this.1
  · have informed := coherent.processes process
    refine ⟨informed.settled.setState unsettled, informed.oldest_active.setState ended,
      informed.active_le, fun other held stored => kept other held (informed.cached other held stored),
      fun other positive listed => ?_⟩
    have before := informed.precommitted other positive listed
    rw [World.fetchState_setState]
    split
    · rename_i same
      exact absurd (same ▸ before) unsettled.not_committed
    · exact before
  · have sane := coherent.transactions other transaction held
    have differ : other ≠ number := by
      rintro rfl
      exact absurd (held.symm.trans dead) (Option.some_ne_none _)
    refine ⟨sane.positive, sane.born, ?_, sane.oldest_pos, sane.oldest_le,
      sane.oldest_floor, sane.settled.setState unsettled, sane.floor_bound.setState ended,
      fun member reached copied => kept member _ (sane.vector member reached copied),
      sane.complete, sane.threshold, sane.lock⟩
    rw [World.fetchState_setState, if_neg differ]
    exact sane.alive

/-- What `bump_transaction_id` does. -/
theorem Coherent.bump (coherent : Coherent swept world) {process : Nat}
    (bumped : world.bump process = some after) :
    Coherent swept after ∧ after.hdr_next_transaction = world.hdr_next_transaction + 1 ∧
      after.inventory = world.inventory ∧ after.transactions = world.transactions ∧
      after.lck_data = world.lck_data ∧ after.processes = world.processes := by
  rw [World.bump] at bumped
  split at bumped
  · cases bumped
    have informed := coherent.processes process
    refine ⟨⟨Nat.lt_of_lt_of_le coherent.oldest_pos (Nat.le_max_left _ _),
      coherent.settled.max informed.settled, coherent.oldest_active.max informed.oldest_active,
      Nat.le_succ_of_le (Nat.max_le.mpr ⟨coherent.active_le, informed.active_le⟩),
      fun other late => coherent.unborn other (Nat.lt_of_succ_lt late), fun other => ?_,
      coherent.locks, fun other transaction held => ?_⟩, rfl, rfl, rfl, rfl, rfl⟩
    · have informed := coherent.processes other
      exact ⟨informed.settled, informed.oldest_active, Nat.le_succ_of_le informed.active_le,
        informed.cached, informed.precommitted⟩
    have sane := coherent.transactions other transaction held
    exact ⟨sane.positive, Nat.le_succ_of_le sane.born, sane.alive, sane.oldest_pos, sane.oldest_le,
      sane.oldest_floor, sane.settled, sane.floor_bound, sane.vector, sane.complete,
      sane.threshold, sane.lock⟩
  · cases bumped

/-! ## The bit vector -/

theorem offset_eq {oldest other : Nat} (above : snapshotBase oldest ≤ other) :
    transOffset (other - snapshotBase oldest) = other / 4 - snapshotBase oldest / 4 := by
  rw [snapshotBase] at *
  rw [transOffset]
  omega

/-- The bit vector with one more byte copied to it. -/
theorem seen_append (transaction : Transaction) (byte : UInt8) {other : Nat}
    (above : snapshotBase transaction.tra_oldest ≤ other) :
    Transaction.seen { transaction with
        tra_transactions := transaction.tra_transactions ++ [byte] } other =
      if other / 4 = snapshotBase transaction.tra_oldest / 4 + transaction.tra_transactions.length
      then stateInByte byte other else transaction.seen other := by
  rw [Transaction.seen, Transaction.seen, traState, traState, offset_eq above]
  have := Nat.div_le_div_right above (c := 4)
  generalize snapshotBase transaction.tra_oldest / 4 = first at *
  rcases Nat.lt_trichotomy (other / 4) (first + transaction.tra_transactions.length) with
    before | at_end | behind
  · rw [if_neg before.ne, List.getD_append _ _ _ _ (by omega)]
  · rw [if_pos at_end, at_end, Nat.add_sub_cancel_left,
      List.getD_append_right _ _ _ _ (Nat.le_refl _), Nat.sub_self]
    rfl
  · rw [if_neg behind.ne', List.getD_append_right _ _ _ _ (by omega),
      List.getD_eq_default _ _ (by rw [List.length_singleton]; omega),
      List.getD_eq_default _ _ (by omega)]

/-- The bit vector after `TRA_wait`. -/
theorem seen_rewrite (transaction : Transaction) (progress : Progress) (state : TransactionState)
    {found other : Nat} (found_above : snapshotBase transaction.tra_oldest ≤ found)
    (copied : found / 4 < snapshotBase transaction.tra_oldest / 4 +
      transaction.tra_transactions.length)
    (above : snapshotBase transaction.tra_oldest ≤ other) :
    Transaction.seen { transaction with
        tra_transactions := World.rewrite transaction found state
        progress } other =
      if other = found then state else transaction.seen other := by
  rw [Transaction.seen, Transaction.seen, traState, traState, World.rewrite, offset_eq above]
  simp only [offset_eq found_above]
  have := Nat.div_le_div_right above (c := 4)
  have := Nat.div_le_div_right found_above (c := 4)
  generalize snapshotBase transaction.tra_oldest / 4 = first at *
  have inside : found / 4 - first < transaction.tra_transactions.length := by omega
  by_cases same_byte : other / 4 = found / 4
  · rw [same_byte, List.getD_eq_getElem _ _ (by rw [List.length_set]; exact inside),
      List.getElem_set_self, stateInByte_setInByte]
    by_cases same_slot : other % 4 = found % 4
    · rw [if_pos same_slot, if_pos (by omega)]
    · rw [if_neg same_slot, if_neg (by rintro rfl; exact same_slot rfl)]
  · have differ : other ≠ found := by
      rintro rfl
      exact same_byte rfl
    rw [if_neg differ, List.getD_eq_getElem?_getD, List.getElem?_set_ne (by omega),
      ← List.getD_eq_getElem?_getD]

theorem rewrite_outside (transaction : Transaction) (state : TransactionState) {found : Nat}
    (above : snapshotBase transaction.tra_oldest ≤ found)
    (outside : ¬ found / 4 < snapshotBase transaction.tra_oldest / 4 +
      transaction.tra_transactions.length) :
    World.rewrite transaction found state = transaction.tra_transactions := by
  have := Nat.div_le_div_right above (c := 4)
  rw [World.rewrite]
  simp only [offset_eq above]
  exact List.set_eq_of_length_le (by omega)

/-! ## The actions -/

theorem provisional_le (active_le : world.hdr_oldest_active ≤ world.hdr_next_transaction)
    (readCommitted : Bool) : world.provisional readCommitted ≤ world.hdr_next_transaction := by
  cases readCommitted with
  | true => exact Nat.le_refl _
  | false => exact Nat.max_le.mpr ⟨active_le, world.oldest_le_next⟩

theorem provisional_pos (oldest_pos : 0 < world.hdr_oldest_transaction) (readCommitted : Bool) :
    0 < world.provisional readCommitted := by
  cases readCommitted with
  | true => exact oldest_pos.trans_le world.oldest_le_next
  | false => exact oldest_pos.trans_le (Nat.le_max_right _ _)

/-- What holds of a transaction that has just begun. -/
theorem sane_begun (oldest_pos : 0 < world.hdr_oldest_transaction)
    (settled : Settled swept world.inventory world.hdr_oldest_transaction)
    (oldest_active : Bound world.inventory world.hdr_oldest_active)
    (alive : world.inventory.fetchState world.hdr_next_transaction = active)
    {lck_data : Nat → Option Nat} {process : Nat} {readCommitted : Bool}
    (locked : lck_data world.hdr_next_transaction = some (world.provisional readCommitted)) :
    Sane swept world.inventory world.hdr_next_transaction lck_data world.hdr_next_transaction
      (world.begun process readCommitted) := by
  refine ⟨oldest_pos.trans_le world.oldest_le_next, Nat.le_refl _, alive, oldest_pos,
    world.oldest_le_next, ?_, settled, ?_, fun other above copied => ?_, ?_, ?_, _, locked, ?_⟩
  · cases readCommitted <;> exact Nat.le_max_right _ _
  · have bound : Bound world.inventory world.firstActive := oldest_active.max settled.bound
    cases readCommitted <;> exact bound
  · exact absurd (Nat.div_le_div_right above) (Nat.not_le.mpr copied)
  · intro snapshot copying
    cases snapshot
    exact absurd rfl copying
  · cases readCommitted <;> intro found <;> cases found
  · intro snapshot
    cases snapshot
    exact Nat.le_refl _

theorem Coherent.begin (coherent : Coherent swept world) {process : Nat} {readCommitted : Bool}
    (begun : world.begin process readCommitted = some after) : Coherent swept after := by
  rw [World.begin, Option.map_eq_some_iff] at begun
  obtain ⟨bumped, bump, made⟩ := begun
  obtain ⟨kept, next, same_inventory, same_transactions, same_locks, -⟩ := coherent.bump bump
  have unborn := coherent.unborn bumped.hdr_next_transaction (by omega)
  have fresh : bumped.transactions bumped.hdr_next_transaction = none := by
    rw [same_transactions]
    refine Option.eq_none_iff_forall_ne_some.mpr fun transaction held => ?_
    have := (coherent.transactions _ transaction held).born
    omega
  have alive : bumped.inventory.fetchState bumped.hdr_next_transaction = active := by
    rw [same_inventory]
    exact unborn.1
  have locked := kept.setLock (Nat.le_refl _) (provisional_pos kept.oldest_pos readCommitted)
    (provisional_le kept.active_le readCommitted) fun transaction held =>
      absurd (held.symm.trans fresh) (Option.some_ne_none _)
  rw [← made]
  refine locked.setTransaction fun transaction is_new => ?_
  rw [← Option.some.inj is_new]
  refine sane_begun kept.oldest_pos kept.settled kept.oldest_active alive ?_
  rw [World.lck_data_setLock, if_pos rfl]

theorem Coherent.copy (coherent : Coherent swept world)
    (held : world.transactions number = some transaction)
    (copying : transaction.progress = .copying) :
    Coherent swept (world.copy number transaction) := by
  have sane := coherent.transactions number transaction held
  have floor_eq : transaction.floor = transaction.tra_oldest_active := by
    rw [Transaction.floor, copying]
  refine coherent.setTransaction fun changed is_changed => ?_
  rw [← Option.some.inj is_changed]
  split
  · refine ⟨sane.positive, sane.born, sane.alive, sane.oldest_pos, sane.oldest_le,
      sane.oldest_floor, sane.settled, sane.floor_bound, fun other above copied => ?_,
      fun _ moved => absurd copying moved, sane.threshold, sane.lock⟩
    rw [seen_append transaction _ above]
    split
    · rename_i at_end
      rw [← at_end, ← Inventory.fetchState_eq]
      exact TipCache.Trace.genuine_fetchState _ _ other
    · rename_i before
      refine sane.vector other above ?_
      simp only [List.length_append, List.length_singleton] at copied
      omega
  · rename_i finished
    refine ⟨sane.positive, sane.born, sane.alive, sane.oldest_pos, sane.oldest_le,
      floor_eq ▸ sane.oldest_floor, sane.settled, floor_eq ▸ sane.floor_bound, sane.vector,
      fun _ _ _ => Nat.le_of_not_lt finished, fun found => ?_, ?_⟩
    · cases found
    · obtain ⟨data, locked, small⟩ := sane.lock
      exact ⟨data, locked, floor_eq ▸ small⟩

/-- A search that has looked at all transactions before a number extends the bound to it. -/
theorem bound_of_clean (coherent : Coherent swept world) {process start top : Nat}
    (bound : Bound world.inventory start)
    (clean : ∀ other, start ≤ other → other < top →
      Clean world process (fun state => state == active) other) :
    Bound world.inventory top := by
  have settled : Settled swept world.inventory (world.view process).settled :=
    coherent.settled.max (coherent.processes process).settled
  intro other positive below is_active
  rcases Nat.lt_or_ge other start with before | reached
  · exact bound other positive before is_active
  · rcases clean other reached below with old | ⟨state, genuine, not_active⟩
    · exact settled.not_open positive old (.inl is_active)
    · exact genuine.ended rfl (by simpa using not_active) is_active

theorem Coherent.settle (coherent : Coherent swept world)
    (held : world.transactions number = some transaction)
    (complete : transaction.readCommitted = false →
      World.vectorLength transaction number ≤ transaction.tra_transactions.length)
    {found data : Nat} (reached : transaction.floor ≤ found) (below : found < number)
    (bound : Bound world.inventory found) (small : data ≤ found) :
    Coherent swept (world.setTransaction number (some (World.settle transaction number found data))) := by
  have sane := coherent.transactions number transaction held
  have is_found : (World.settle transaction number found data).found = true := by
    by_cases early : min number data = transaction.oldest_snapshot <;>
      simp [World.settle, Transaction.found, early]
  have floor_eq : (World.settle transaction number found data).floor = found := by
    have minimum : min number found = found := Nat.min_eq_right below.le
    by_cases early : min number data = transaction.oldest_snapshot <;>
      simp [World.settle, Transaction.floor, early, minimum]
  refine coherent.setTransaction fun changed is_changed => ?_
  rw [← Option.some.inj is_changed]
  refine ⟨sane.positive, sane.born, sane.alive, sane.oldest_pos, sane.oldest_le, ?_, sane.settled,
    ?_, sane.vector, fun snapshot _ _ => complete snapshot, fun _ => ⟨?_, Nat.min_le_left _ _⟩, ?_⟩
  · rw [floor_eq]
    exact sane.oldest_floor.trans reached
  · rw [floor_eq]
    exact bound
  · rw [World.settle]
    simp only
    omega
  · obtain ⟨held_data, locked, low⟩ := sane.lock
    refine ⟨held_data, locked, fun snapshot => ?_⟩
    rw [floor_eq]
    exact (low snapshot).trans reached

theorem clean_setCache {process other_process : Nat} {cache : TipCache tipBytes}
    {wanted : TransactionState → Bool} {other : Nat} (clean : Clean world process wanted other) :
    Clean (world.setCache other_process cache) process wanted other := by
  refine clean.imp_left fun old => ?_
  rw [World.view, TipCache.Database.settled, World.processes_setCache]
  split
  · rename_i same
    rw [same] at old
    exact old
  · exact old

theorem check_activeMask (state : TransactionState) :
    (CachedState.onPage state).check World.activeMask = (state == active) := by
  cases state <;> decide

theorem check_interestingMask (state : TransactionState) :
    (CachedState.onPage state).check World.interestingMask = (state != committed) := by
  cases state <;> decide

/-- The ways one turn of the search for the oldest active transaction ends. -/
inductive Turn (world : World tipBytes) (number : Nat) (transaction : Transaction) (start : Nat) :
    World tipBytes → Prop where
  /-- No transaction below the own number is active. -/
  | exhausted
      (clean : ∀ other, start ≤ other → other < number →
        Clean world transaction.process (· == active) other) :
      Turn world number transaction start <| world.setTransaction number <| some
        { transaction with
          oldest_active := number
          tra_oldest_active := number
          progress := .captured }
  /-- `TRA_wait` has found that the transaction is active no more. -/
  | passed (found : Nat) (cleanup : Bool) (vector : List UInt8)
      (reached : start ≤ found) (below : found < number)
      (clean : ∀ other, start ≤ other → other < found →
        Clean world transaction.process (· == active) other)
      (ended : world.inventory.fetchState found ≠ active)
      (rewritten : vector = transaction.tra_transactions ∨
        vector = World.rewrite transaction found (world.inventory.fetchState found)) :
      Turn world number transaction start <| world.setTransaction number <| some
        { transaction with
          tra_transactions := vector
          progress := .scanning (found + 1) cleanup }
  /-- An active transaction is found. -/
  | hit (found data : Nat) (reached : start ≤ found) (below : found < number)
      (seen : transaction.readCommitted = false → transaction.seen found = active)
      (clean : ∀ other, start ≤ other → other < found →
        Clean world transaction.process (· == active) other)
      (read : world.lck_data found = some data ∨ data = found) (positive : 0 < data) :
      Turn world number transaction start
        (world.setTransaction number (some (World.settle transaction number found data)))

theorem lookup_cases (coherent : Coherent swept world)
    (held : world.transactions number = some transaction)
    (gapless : transaction.readCommitted = true → Gapless world transaction.process)
    (complete : transaction.readCommitted = false →
      World.vectorLength transaction number ≤ transaction.tra_transactions.length)
    {start : Nat} (positive : 0 < start) (above : transaction.tra_oldest ≤ start) {cleanup : Bool}
    (looked : world.lookup number transaction start cleanup = some after) :
    ∃ cache, (∀ other state, cache.stored other = some state →
        TipCache.Trace.Genuine world.inventory false other state) ∧
      Turn (world.setCache transaction.process cache) number transaction start after := by
  rw [World.lookup] at looked
  split at looked
  · cases looked
  · rename_i refreshed search
    obtain ⟨⟨cache, rfl, genuine⟩, clean⟩ := findFirst_spec coherent held gapless complete above
      check_activeMask (by decide) (by decide) search
    cases looked
    refine ⟨cache, genuine, .exhausted fun other reached below => ?_⟩
    exact clean_setCache (clean other reached below)
  · rename_i found refreshed search
    obtain ⟨⟨cache, rfl, genuine⟩, reached, below, seen, clean⟩ :=
      findFirst_spec coherent held gapless complete above check_activeMask (by decide) (by decide)
        search
    refine ⟨cache, genuine, ?_⟩
    have clean : ∀ other, start ≤ other → other < found →
        Clean (world.setCache transaction.process cache) transaction.process (· == active) other :=
      fun other begun before => clean_setCache (clean other begun before)
    split at looked
    · split at looked
      · split at looked
        · rename_i listed
          cases looked
          refine .passed found true _ reached below clean ?_ (.inl rfl)
          have informed := coherent.processes transaction.process
          rw [World.processes_setCache, if_pos rfl] at listed
          have is_committed := informed.precommitted found (by omega) listed
          intro is_active
          cases is_committed.symm.trans is_active
        · dsimp only at looked
          split at looked
          · cases looked
          · rename_i ended
            cases looked
            exact .passed found _ _ reached below clean ended (.inr rfl)
      · cases looked
        exact .hit found found reached below (fun snapshot => by simpa using seen snapshot) clean
          (.inr rfl) (positive.trans_le reached)
    · rename_i data read
      cases looked
      have locked : world.lck_data found = some (data + 1) := by
        cases lock : world.lck_data found with
        | none =>
            rw [World.setCache, lock] at read
            cases read
        | some held_data =>
            rw [World.setCache, lock] at read
            exact congrArg some read
      exact .hit found (data + 1) reached below (fun snapshot => by simpa using seen snapshot) clean
        (.inl locked) (Nat.succ_pos data)

/-- What one turn of the search preserves. -/
theorem Coherent.turn (coherent : Coherent swept world)
    (held : world.transactions number = some transaction) {start : Nat} {cleanup : Bool}
    (scanning : transaction.progress = .scanning start cleanup)
    (turn : Turn world number transaction start after) : Coherent swept after := by
  have sane := coherent.transactions number transaction held
  have floor_eq : transaction.floor = start := by rw [Transaction.floor, scanning]
  have oldest_le : transaction.tra_oldest ≤ start := floor_eq ▸ sane.oldest_floor
  have bound : Bound world.inventory start := floor_eq ▸ sane.floor_bound
  have complete : transaction.readCommitted = false →
      World.vectorLength transaction number ≤ transaction.tra_transactions.length :=
    fun snapshot => sane.complete snapshot (by rw [scanning]; exact Progress.noConfusion)
      (by rw [scanning]; exact Progress.noConfusion)
  obtain ⟨lock_data, locked, low⟩ := sane.lock
  rw [floor_eq] at low
  cases turn with
  | exhausted clean =>
      refine coherent.setTransaction fun changed is_changed => ?_
      rw [← Option.some.inj is_changed]
      exact ⟨sane.positive, sane.born, sane.alive, sane.oldest_pos, sane.oldest_le, sane.oldest_le,
        sane.settled, bound_of_clean coherent bound clean, sane.vector,
        fun snapshot _ _ => complete snapshot, fun _ => ⟨Nat.le_refl _, Nat.le_refl _⟩,
        lock_data, locked, fun _ => (coherent.locks number lock_data locked).2⟩
  | passed found cleanup vector reached below clean ended rewritten =>
      have found_above : snapshotBase transaction.tra_oldest ≤ found :=
        (Nat.sub_le _ _).trans (oldest_le.trans reached)
      have same_length : vector.length = transaction.tra_transactions.length := by
        rcases rewritten with rfl | rfl
        · rfl
        · rw [World.rewrite, List.length_set]
      refine coherent.setTransaction fun changed is_changed => ?_
      rw [← Option.some.inj is_changed]
      refine ⟨sane.positive, sane.born, sane.alive, sane.oldest_pos, sane.oldest_le,
        oldest_le.trans (reached.trans (Nat.le_succ found)), sane.settled,
        fun other positive before => ?_, fun other above copied => ?_,
        fun snapshot _ _ => same_length ▸ complete snapshot, fun nothing => ?_, lock_data, locked,
        fun snapshot => (low snapshot).trans (reached.trans (Nat.le_succ found))⟩
      · rcases Nat.lt_or_eq_of_le (Nat.le_of_lt_succ before) with earlier | rfl
        · exact bound_of_clean coherent bound clean other positive earlier
        · exact ended
      · rw [same_length] at copied
        rcases rewritten with rfl | rfl
        · exact sane.vector other above copied
        · by_cases inside : found / 4 <
              snapshotBase transaction.tra_oldest / 4 + transaction.tra_transactions.length
          · rw [seen_rewrite transaction _ _ found_above inside above]
            split
            · rename_i same
              rw [same]
              exact TipCache.Trace.genuine_fetchState _ _ found
            · exact sane.vector other above copied
          · rw [rewrite_outside transaction _ found_above inside]
            exact sane.vector other above copied
      · cases nothing
  | hit found data reached below seen clean read positive =>
      refine coherent.settle held complete (floor_eq.trans_le reached) below
        (bound_of_clean coherent bound clean) ?_
      rcases read with locked | rfl
      · exact (coherent.locks found data locked).2
      · exact Nat.le_refl _

theorem Coherent.query (coherent : Coherent swept world)
    (held : world.transactions number = some transaction)
    (querying : transaction.progress = .querying) :
    Coherent swept (world.query number transaction) := by
  have sane := coherent.transactions number transaction held
  have floor_eq : transaction.floor = transaction.oldest_active := by
    rw [Transaction.floor, querying]
  have found : transaction.found = true := by rw [Transaction.found, querying]
  obtain ⟨threshold, active_le⟩ := sane.threshold found
  obtain ⟨data, locked, low⟩ := sane.lock
  rw [floor_eq] at low
  refine coherent.setTransaction fun changed is_changed => ?_
  rw [← Option.some.inj is_changed]
  refine ⟨sane.positive, sane.born, sane.alive, sane.oldest_pos, sane.oldest_le,
    floor_eq ▸ sane.oldest_floor, sane.settled, floor_eq ▸ sane.floor_bound, sane.vector,
    fun snapshot _ _ => sane.complete snapshot (by rw [querying]; exact Progress.noConfusion)
      (by rw [querying]; exact Progress.noConfusion), fun _ => ⟨?_, active_le⟩, data, locked, low⟩
  dsimp only
  split
  · rename_i smaller
    simp only [Bool.and_eq_true, decide_eq_true_eq] at smaller
    exact smaller.2.le.trans threshold
  · exact threshold

/-- Move on in a start whose search is over. -/
theorem Coherent.proceed (coherent : Coherent swept world)
    (held : world.transactions number = some transaction) {progress : Progress}
    (before : transaction.progress = .captured ∨ transaction.progress = .published)
    (later : progress = .published ∨ progress = .running) :
    Coherent swept (world.setTransaction number (some { transaction with progress })) := by
  have sane := coherent.transactions number transaction held
  have floor_eq : transaction.floor = transaction.oldest_active := by
    rcases before with progress | progress <;> rw [Transaction.floor, progress]
  have found : transaction.found = true := by
    rcases before with progress | progress <;> rw [Transaction.found, progress]
  have new_floor : Transaction.floor { transaction with progress } = transaction.oldest_active := by
    rcases later with rfl | rfl <;> rfl
  obtain ⟨data, locked, low⟩ := sane.lock
  refine coherent.setTransaction fun changed is_changed => ?_
  rw [← Option.some.inj is_changed]
  refine ⟨sane.positive, sane.born, sane.alive, sane.oldest_pos, sane.oldest_le, ?_, sane.settled,
    ?_, sane.vector, fun snapshot _ _ => ?_, fun _ => sane.threshold found, data, locked, ?_⟩
  · rw [new_floor, ← floor_eq]
    exact sane.oldest_floor
  · rw [new_floor, ← floor_eq]
    exact sane.floor_bound
  · refine sane.complete snapshot ?_ ?_ <;> rcases before with progress | progress <;>
      rw [progress] <;> exact Progress.noConfusion
  · rw [new_floor, ← floor_eq]
    exact low

theorem Coherent.publish (coherent : Coherent swept world)
    (held : world.transactions number = some transaction)
    (captured : transaction.progress = .captured) :
    Coherent swept (world.publish number transaction) := by
  have sane := coherent.transactions number transaction held
  have floor_eq : transaction.floor = transaction.oldest_active := by
    rw [Transaction.floor, captured]
  have found : transaction.found = true := by rw [Transaction.found, captured]
  have moved := coherent.proceed held (.inl captured) (.inl rfl)
  have active_pos : 0 < transaction.oldest_active :=
    floor_eq ▸ sane.oldest_pos.trans_le sane.oldest_floor
  obtain ⟨data, data_eq⟩ : ∃ data, (if transaction.readCommitted then number
    else transaction.oldest_active) = data := ⟨_, rfl⟩
  have data_pos : 0 < data := by
    rw [← data_eq]
    split
    · exact sane.positive
    · exact active_pos
  have data_le : data ≤ number := by
    rw [← data_eq]
    split
    · exact Nat.le_refl _
    · exact (sane.threshold found).2
  rw [World.publish]
  simp only [data_eq]
  split
  · exact moved
  · split
    · exact moved
    · refine moved.setLock sane.born data_pos data_le fun other is_changed snapshot => ?_
      rw [World.transactions_setTransaction, if_pos rfl] at is_changed
      rw [← Option.some.inj is_changed] at snapshot ⊢
      rw [if_neg (by rw [snapshot]; exact Bool.false_ne_true)] at data_eq
      exact data_eq.ge

/-- All transactions before the oldest interesting one are settled. -/
theorem settled_interest (coherent : Coherent swept world)
    (held : world.transactions number = some transaction)
    (gapless : transaction.readCommitted = true → Gapless world transaction.process)
    (published : transaction.progress = .published) {outcome : Option Nat}
    (search : world.findFirst transaction transaction.tra_oldest number (· != committed)
      World.interestingMask = .ok (outcome, after)) :
    (∃ cache, after = world.setCache transaction.process cache ∧
      ∀ other state, cache.stored other = some state →
        TipCache.Trace.Genuine world.inventory false other state) ∧
    Settled swept world.inventory (outcome.getD number) := by
  have sane := coherent.transactions number transaction held
  have complete : transaction.readCommitted = false →
      World.vectorLength transaction number ≤ transaction.tra_transactions.length :=
    fun snapshot => sane.complete snapshot (by rw [published]; exact Progress.noConfusion)
      (by rw [published]; exact Progress.noConfusion)
  obtain ⟨refreshed, finds⟩ := findFirst_spec coherent held gapless complete
    (Nat.le_refl _) check_interestingMask (by decide) (by decide) search
  refine ⟨refreshed, fun other positive below => ?_⟩
  have clean : ∀ other, transaction.tra_oldest ≤ other → other < outcome.getD number →
      Clean world transaction.process (fun state => state != committed) other := by
    cases outcome with
    | none => exact finds
    | some hit => exact finds.2.2.2
  rcases Nat.lt_or_ge other transaction.tra_oldest with before | reached
  · exact sane.settled other positive before
  · rcases clean other reached below with old | ⟨state, told, is_committed⟩
    · exact coherent.settled.max (coherent.processes transaction.process).settled other positive old
    · exact .inl (told.committed_true (by simpa using is_committed))

theorem Coherent.interest (coherent : Coherent swept world)
    (held : world.transactions number = some transaction)
    (gapless : transaction.readCommitted = true → Gapless world transaction.process)
    (published : transaction.progress = .published)
    (interested : world.interest number transaction = some after) : Coherent swept after := by
  have sane := coherent.transactions number transaction held
  have floor_eq : transaction.floor = transaction.oldest_active := by
    rw [Transaction.floor, published]
  have found : transaction.found = true := by rw [Transaction.found, published]
  rw [World.interest] at interested
  split at interested
  · cases interested
  · rename_i outcome refreshed search
    obtain ⟨⟨cache, rfl, genuine⟩, settled⟩ :=
      settled_interest coherent held gapless published search
    cases interested
    have moved := (coherent.setCache transaction.process genuine).proceed held (.inr published)
      (.inr rfl)
    refine ⟨moved.oldest_pos, moved.settled, moved.oldest_active, moved.active_le, moved.unborn,
      fun process => ?_, moved.locks, moved.transactions⟩
    have informed := moved.processes
    simp only [Function.update_apply]
    split
    · have own := informed transaction.process
      exact ⟨own.settled.max (settled.mono (Nat.sub_le _ _)),
        own.oldest_active.max (floor_eq ▸ sane.floor_bound),
        Nat.max_le.mpr ⟨own.active_le, (sane.threshold found).2.trans sane.born⟩, own.cached,
        own.precommitted⟩
    · exact informed process

theorem Coherent.finish (coherent : Coherent swept world) {state : TransactionState}
    (ended : state ≠ active) (alive : (world.transactions number).isSome) :
    Coherent swept ((world.setState number state).setTransaction number none) := by
  obtain ⟨transaction, held⟩ := Option.isSome_iff_exists.mp alive
  have sane := coherent.transactions number transaction held
  exact (coherent.remove number).setState ended (.inl sane.alive) sane.born
    (by rw [World.transactions_setTransaction, if_pos rfl])

theorem Coherent.retain (coherent : Coherent swept world)
    (held : world.transactions number = some transaction)
    (running : transaction.progress = .running) {state : TransactionState} (ended : state ≠ active)
    (retained : world.retain number transaction state = some after) : Coherent swept after := by
  rw [World.retain, Option.map_eq_some_iff] at retained
  obtain ⟨bumped, bump, made⟩ := retained
  obtain ⟨kept, next, same_inventory, same_transactions, same_locks, -⟩ := coherent.bump bump
  have bumped_held : bumped.transactions number = some transaction := by
    rw [same_transactions]
    exact held
  have old := kept.transactions number transaction bumped_held
  have born := (coherent.transactions number transaction held).born
  have unborn := coherent.unborn bumped.hdr_next_transaction (by omega)
  have fresh : bumped.transactions bumped.hdr_next_transaction = none := by
    rw [same_transactions]
    refine Option.eq_none_iff_forall_ne_some.mpr fun other other_held => ?_
    have := (coherent.transactions _ other other_held).born
    omega
  have floor_eq : transaction.floor = transaction.oldest_active := by
    rw [Transaction.floor, running]
  have found : transaction.found = true := by rw [Transaction.found, running]
  obtain ⟨data, locked, low⟩ := old.lock
  have bounds := kept.locks number data locked
  have relocked := kept.setLock (Nat.le_refl _) bounds.1 (bounds.2.trans old.born)
    fun other other_held => absurd (other_held.symm.trans fresh) (Option.some_ne_none _)
  have ended_old := (relocked.remove number).setState ended (.inl old.alive) old.born
    (by rw [World.transactions_setTransaction, if_pos rfl])
  rw [← made]
  simp only [locked]
  refine ended_old.setTransaction fun changed is_changed => ?_
  rw [← Option.some.inj is_changed]
  refine ⟨by omega, Nat.le_refl _, ?_, old.oldest_pos, old.oldest_le.trans old.born,
    old.oldest_floor, old.settled.setState (.inl old.alive), old.floor_bound.setState ended,
    fun member above copied => (old.vector member above copied).setState ended
      (Open.not_committed (.inl old.alive)), fun _ _ stopped => absurd running stopped,
    fun _ => ⟨(old.threshold found).1, (old.threshold found).2.trans old.born⟩, data, ?_, low⟩
  · rw [World.fetchState_setState, if_neg (by omega)]
    have is_active := unborn.1
    rw [← same_inventory] at is_active
    exact is_active
  · exact (World.lck_data_setLock ..).trans (if_pos rfl)

/-- What one action preserves. -/
theorem Coherent.step (coherent : Coherent swept world) {action : Action}
    (careful : Careful world action) (taken : world.step action = some after) :
    Coherent swept after := by
  cases action with
  | begin process readCommitted => exact coherent.begin taken
  | copy number =>
      rw [World.step] at taken
      split at taken
      · cases taken
      · rename_i transaction held
        rw [Option.ite_none_right_eq_some] at taken
        obtain ⟨copying, made⟩ := taken
        cases made
        exact coherent.copy held copying
  | lookup number =>
      rw [World.step] at taken
      split at taken
      · cases taken
      · rename_i transaction held
        split at taken
        · rename_i start cleanup scanning
          have sane := coherent.transactions number transaction held
          have floor_eq : transaction.floor = start := by rw [Transaction.floor, scanning]
          obtain ⟨cache, genuine, turn⟩ := lookup_cases coherent held (careful transaction held)
            (fun snapshot => sane.complete snapshot (by rw [scanning]; exact Progress.noConfusion)
              (by rw [scanning]; exact Progress.noConfusion))
            (floor_eq ▸ sane.oldest_pos.trans_le sane.oldest_floor) (floor_eq ▸ sane.oldest_floor)
            taken
          exact (coherent.setCache transaction.process genuine).turn held scanning turn
        · cases taken
  | query number =>
      rw [World.step] at taken
      split at taken
      · cases taken
      · rename_i transaction held
        rw [Option.ite_none_right_eq_some] at taken
        obtain ⟨querying, made⟩ := taken
        cases made
        exact coherent.query held querying
  | publish number =>
      rw [World.step] at taken
      split at taken
      · cases taken
      · rename_i transaction held
        rw [Option.ite_none_right_eq_some] at taken
        obtain ⟨captured, made⟩ := taken
        cases made
        exact coherent.publish held captured
  | interest number =>
      rw [World.step] at taken
      split at taken
      · cases taken
      · rename_i transaction held
        rw [Option.ite_none_right_eq_some] at taken
        exact coherent.interest held (careful transaction held) taken.1 taken.2
  | finish number state =>
      rw [World.step, Option.ite_none_right_eq_some] at taken
      obtain ⟨⟨ended, alive⟩, made⟩ := taken
      cases made
      exact coherent.finish ended alive
  | retain number state =>
      rw [World.step] at taken
      split at taken
      · cases taken
      · rename_i transaction held
        rw [Option.ite_none_right_eq_some] at taken
        obtain ⟨⟨running, final⟩, retained⟩ := taken
        refine coherent.retain held running ?_ retained
        rcases final with rfl | rfl <;> exact TransactionState.noConfusion
  | release number =>
      rw [World.step, Option.ite_none_right_eq_some] at taken
      obtain ⟨ended, made⟩ := taken
      cases made
      exact coherent.unlock (Option.isNone_iff_eq_none.mp ended)
  | vanish number =>
      cases taken
      exact (coherent.remove number).unlock
        (by rw [World.transactions_setTransaction, if_pos rfl])
  | bury number =>
      rw [World.step, Option.ite_none_right_eq_some] at taken
      obtain ⟨⟨gone, is_active⟩, made⟩ := taken
      cases made
      simp only [World.gone, Bool.and_eq_true, decide_eq_true_eq, Option.isNone_iff_eq_none] at gone
      exact coherent.setState TransactionState.noConfusion (.inl is_active) gone.1.1.2 gone.1.2
  | resolve number state =>
      rw [World.step, Option.ite_none_right_eq_some] at taken
      obtain ⟨⟨is_limbo, final⟩, made⟩ := taken
      cases made
      refine coherent.setState ?_ (.inr is_limbo) ?_ ?_
      · rcases final with rfl | rfl <;> exact TransactionState.noConfusion
      · refine Nat.le_of_not_lt fun late => ?_
        cases is_limbo.symm.trans (coherent.unborn number late).1
      · refine Option.eq_none_iff_forall_ne_some.mpr fun transaction held => ?_
        cases is_limbo.symm.trans (coherent.transactions number transaction held).alive
  | fetch process sequence =>
      rw [World.step, TipCache.Database.fetchInventoryPage] at taken
      split at taken
      · cases taken
      · rename_i dbb fetched
        split at fetched
        · cases fetched
          cases taken
          refine coherent.setCache process fun number state held => ?_
          have read := TipCache.Trace.stored_cachePage held
          split at read
          · rw [read]
            exact TipCache.Trace.genuine_fetchState _ _ number
          · exact (coherent.processes process).cached number state read
        · cases fetched
  | trim process hdr_oldest =>
      rw [World.step, Option.ite_none_right_eq_some] at taken
      obtain ⟨-, made⟩ := taken
      cases made
      exact coherent.setCache process fun number state held =>
        (coherent.processes process).cached number state (TipCache.stored_of_dropFront held)
  | store process number state =>
      rw [World.step, Option.ite_none_right_eq_some] at taken
      obtain ⟨⟨committed_true, ended⟩, made⟩ := taken
      cases made
      refine coherent.setCache process fun other held_state held => ?_
      have positive : 0 < tipBytes := by
        rw [← world.sized]
        exact world.inventory.tipBytes_pos
      rw [TipCache.stored_setState positive] at held
      split at held
      · rename_i same
        rw [Option.map_eq_some_iff] at held
        obtain ⟨_, -, rfl⟩ := held
        rw [same]
        exact ⟨committed_true, fun _ => ended⟩
      · exact (coherent.processes process).cached other held_state held
  | precommit process vector =>
      rw [World.step, Option.ite_none_right_eq_some] at taken
      obtain ⟨listed, made⟩ := taken
      cases made
      refine ⟨coherent.oldest_pos, coherent.settled, coherent.oldest_active, coherent.active_le,
        coherent.unborn, fun other => ?_, coherent.locks, coherent.transactions⟩
      have informed := coherent.processes
      simp only [Function.update_apply]
      split
      · have own := informed process
        refine ⟨own.settled, own.oldest_active, own.active_le, own.cached,
          fun number positive entered => ?_⟩
        cases vector with
        | none => cases entered
        | some numbers =>
            have all := List.all_eq_true.mp listed number (List.contains_iff_mem.mp entered)
            simp only [Bool.or_eq_true, beq_iff_eq] at all
            exact all.resolve_left positive
      · exact informed other

end Start
end Firebird
