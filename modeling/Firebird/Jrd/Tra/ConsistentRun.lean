import Firebird.Jrd.Tra.ConsistentCut

/-!
# Consistent cuts over whole runs

Every action keeps every snapshot a consistent cut, unless it is a commit that reaches the snapshot
without the commits before it or a cleanup that turns a copied active state into a committed one.
-/

namespace Firebird

open TransactionState

namespace Snapshot

/-- A snapshot depends on the inventory, the commits begun and the numbers allocated only. -/
theorem Good.of_same {snapshot : Snapshot} {world other : World} (good : snapshot.Good world)
    (inventory : other.inventory = world.inventory) (began : other.began = world.began)
    (next : world.next ≤ other.next) : snapshot.Good other := by
  cases world
  cases other
  subst inventory
  subst began
  exact { good with top_le := Nat.le_trans good.top_le next }

theorem Good.beginCommit {snapshot : Snapshot} {world : World} {number : Nat}
    (good : snapshot.Good world) (positive : 0 < number)
    (unsettled : (world.inventory.fetchState number).unsettled = true)
    (before : Option (Nat → Bool)) :
    snapshot.Good { world with began := Function.update world.began number before } := by
  have unseen := (not_seen_of_unsettled good positive unsettled).2
  refine { good with cut := ?_ }
  intro later earlier other began earlier_other seen
  by_cases same : later = number
  · exact absurd (same ▸ seen) unseen
  · change Function.update world.began number before later = some earlier at began
    rw [Function.update_of_ne same] at began
    exact good.cut later earlier other began earlier_other seen

/-- The snapshot of a transaction that has just got its number. -/
theorem Good.begin {snapshot : Snapshot} {world : World} (top : snapshot.tra_top = world.next)
    (oldest_pos : 0 < snapshot.tra_oldest) (oldest_le : snapshot.tra_oldest ≤ snapshot.tra_top)
    (oldest_le_active : snapshot.tra_oldest ≤ snapshot.tra_oldest_active)
    (bits : snapshot.tra_transactions = []) (stage : snapshot.stage = .begun)
    (settled : ∀ number, 0 < number → number < snapshot.tra_oldest →
      (world.inventory.fetchState number).unsettled = false)
    (fresh : ∀ number, world.next ≤ number → world.inventory.fetchState number = active)
    (began_committed : ∀ number before other, world.began number = some before →
      before other = true → world.inventory.fetchState other = committed) :
    snapshot.Good world := by
  have base_le := snapshot.base_le_oldest
  have uncopied (number : Nat) (recent : snapshot.tra_oldest ≤ number) :
      snapshot.copied number = false := by
    rw [copied, bits]
    simp only [List.length_nil, decide_eq_false_iff_not]
    omega
  have sees (number : Nat) (done : world.inventory.fetchState number = committed) :
      snapshot.Sees world.inventory number := by
    by_cases recent : snapshot.tra_oldest ≤ number
    · have young : ¬world.next ≤ number := by
        intro young
        rw [fresh number young] at done
        cases done
      rw [Sees, if_neg (by simp only [uncopied number recent]; simp; omega)]
      exact done
    · rw [Sees, if_pos (by omega), state, if_pos (by omega)]
  refine ⟨oldest_pos, oldest_le, oldest_le_active, by omega, ?_, ?_, settled, ?_, ?_⟩
  · rw [Aligned, stage]
    exact bits
  · intro number cleanup scanning
    rw [stage] at scanning
    cases scanning
  · intro number recent seen
    by_cases within : number ≤ snapshot.tra_top
    · rwa [Sees, if_neg (by simp only [uncopied number recent]; simp; omega)] at seen
    · rw [Sees, if_pos (by omega), state, if_neg (by omega), if_pos (by omega)] at seen
      cases seen
  · exact fun number before other began earlier _ =>
      sees other (began_committed number before other began earlier)

/-- A range of one transaction on a byte boundary needs no page: only the new transaction is in it,
and it is active. -/
theorem Good.beginAlone {snapshot : Snapshot} {world : World} (top : snapshot.tra_top = world.next)
    (oldest_pos : 0 < snapshot.tra_oldest) (oldest_eq : snapshot.tra_oldest = snapshot.tra_top)
    (oldest_le_active : snapshot.tra_oldest ≤ snapshot.tra_oldest_active)
    (bits : snapshot.tra_transactions = [0]) {cleanup : Bool}
    (stage : snapshot.stage = .scanning snapshot.tra_oldest_active cleanup)
    (aligned : snapshot.base = snapshot.tra_top)
    (settled : ∀ number, 0 < number → number < snapshot.tra_oldest →
      (world.inventory.fetchState number).unsettled = false)
    (fresh : ∀ number, world.next ≤ number → world.inventory.fetchState number = active)
    (began_committed : ∀ number before other, world.began number = some before →
      before other = true → world.inventory.fetchState other = committed) :
    snapshot.Good world := by
  have unseen (number : Nat) (recent : snapshot.tra_oldest ≤ number) :
      ¬snapshot.Sees world.inventory number := by
    intro seen
    by_cases within : number ≤ snapshot.tra_top
    · have same : number = snapshot.tra_top := by omega
      have covered : snapshot.copied number = true := by
        rw [copied, bits, aligned, same]
        simp
      rw [Sees, if_pos (by simp [covered]), state_of_within recent within, bits, aligned, same,
        Nat.sub_self, List.getD_cons_zero, stateInByte_zero] at seen
      cases seen
    · rw [Sees, if_pos (by omega), state, if_neg (by omega), if_pos (by omega)] at seen
      cases seen
  refine ⟨oldest_pos, by omega, oldest_le_active, by omega, ?_, ?_, settled, ?_, ?_⟩
  · rw [Aligned, stage]
    simp only [bits, aligned, List.length_singleton]
    omega
  · intro number cleanup scanning
    rw [stage] at scanning
    cases scanning
    exact oldest_le_active
  · exact fun number recent seen => absurd seen (unseen number recent)
  · intro number before other began earlier _
    have done := began_committed number before other began earlier
    have old : other < snapshot.tra_oldest := by
      by_contra young
      rw [fresh other (by omega)] at done
      cases done
    rw [Sees, if_pos (by omega), state, if_pos old]

theorem state_rewrite {snapshot : Snapshot} {number : Nat}
    (recent : snapshot.tra_oldest ≤ number) (within : number ≤ snapshot.tra_top)
    (reached : snapshot.tra_top / 4 < snapshot.base / 4 + snapshot.tra_transactions.length)
    (state : TransactionState) (stage : Stage) (other : Nat) :
    (snapshot.rewrite number state stage).state other =
      if other = number then state else snapshot.state other := by
  have base_le := snapshot.base_le_oldest
  have offset : transOffset (number - snapshot.base) = number / 4 - snapshot.base / 4 :=
    transOffset_sub_base recent
  have inside : number / 4 - snapshot.base / 4 < snapshot.tra_transactions.length := by omega
  by_cases other_recent : snapshot.tra_oldest ≤ other
  swap
  · rw [if_neg (by omega), Snapshot.state, Snapshot.state, if_pos, if_pos]
    · omega
    · change other < snapshot.tra_oldest
      omega
  by_cases other_within : other ≤ snapshot.tra_top
  swap
  · have young : snapshot.tra_top < other := by omega
    have not_old : ¬other < snapshot.tra_oldest := by omega
    rw [if_neg (by omega), Snapshot.state, Snapshot.state, if_neg not_old, if_pos young]
    exact (if_neg not_old).trans (if_pos young)
  have changed : (snapshot.rewrite number state stage).state other = _ :=
    @state_of_within (snapshot.rewrite number state stage) other other_recent other_within
  rw [changed, state_of_within other_recent other_within]
  simp only [rewrite, offset, List.getD_eq_getElem?_getD]
  change stateInByte ((snapshot.tra_transactions.set _ _)[other / 4 - snapshot.base / 4]?.getD 0)
    other = _
  by_cases byte : other / 4 = number / 4
  · rw [byte, List.getElem?_set_self inside, Option.getD_some, stateInByte_setInByte]
    by_cases slot : other % 4 = number % 4
    · rw [if_pos slot, if_pos (by omega)]
    · rw [if_neg slot, if_neg (by omega)]
  · rw [List.getElem?_set_ne (by omega), if_neg (by omega)]

/-- A copied state that is not committed may be replaced by another one that is not. -/
theorem Good.rewrite {snapshot : Snapshot} {world : World} {number : Nat} {cleanup : Bool}
    (good : snapshot.Good world) (stage : snapshot.stage = .scanning number cleanup)
    (within : number ≤ snapshot.tra_top) (was : snapshot.state number ≠ committed)
    {state : TransactionState} (becomes : state ≠ committed) (next : Bool) :
    (snapshot.rewrite number state (.scanning (number + 1) next)).Good world := by
  have recent := good.scan_le number cleanup stage
  have reached := good.aligned
  simp only [Aligned, stage] at reached
  have state_eq := state_rewrite recent within reached state (.scanning (number + 1) next)
  have length_eq : (snapshot.rewrite number state (.scanning (number + 1) next)).tra_transactions.length
      = snapshot.tra_transactions.length := List.length_set
  have sees (other : Nat) :
      (snapshot.rewrite number state (.scanning (number + 1) next)).Sees world.inventory other ↔
        snapshot.Sees world.inventory other := by
    have copied_eq : (snapshot.rewrite number state (.scanning (number + 1) next)).copied other =
        snapshot.copied other := by
      rw [copied, length_eq]
      rfl
    rw [Sees, Sees, copied_eq, state_eq]
    by_cases same : other = number
    · subst same
      have covered : snapshot.copied other = true := by
        rw [copied, decide_eq_true_eq]
        omega
      simp [covered, becomes, was]
    · rw [if_neg same]
      rfl
  refine ⟨good.oldest_pos, good.oldest_le, good.oldest_le_active, good.top_le, ?_, ?_,
    good.settled, ?_, ?_⟩
  · change snapshot.tra_top / 4 < snapshot.base / 4 + _
    rwa [length_eq]
  · intro turn cleanup scanning
    cases scanning
    exact Nat.le_succ_of_le recent
  · exact fun other other_recent seen => good.sound other other_recent ((sees other).mp seen)
  · exact fun later before other began earlier seen =>
      (sees other).mpr (good.cut later before other began earlier ((sees later).mp seen))

end Snapshot

namespace World

/-- The invariant of all runs in which no snapshot is disturbed. -/
structure Good (world : World) : Prop where
  fresh : ∀ number, world.next < number → world.inventory.fetchState number = active
  began_committed : ∀ number before other, world.began number = some before →
    before other = true → world.inventory.fetchState other = committed
  reader_le : ∀ reader snapshot, world.snapshots reader = some snapshot → reader ≤ world.next
  snapshot : ∀ reader snapshot, world.snapshots reader = some snapshot → snapshot.Good world

/-- The action is no commit that reaches a snapshot without the commits before it, and no cleanup
that finds a transaction committed which the snapshot has copied as active. -/
structure Undisturbed (world : World) (action : Action) : Prop where
  commit : ∀ reader snapshot, world.snapshots reader = some snapshot →
    snapshot.Undisturbed world action
  cleanup : ∀ reader snapshot number, action = .scan reader →
    world.snapshots reader = some snapshot → snapshot.stage = .scanning number true →
    snapshot.state number = active → world.locked number = false →
    world.inventory.fetchState number ≠ committed

theorem unlatched {world : World} (good : world.Good) {sequence : Nat}
    (free : world.latched sequence = false) {reader : Nat} {snapshot : Snapshot}
    (found : world.snapshots reader = some snapshot) : snapshot.latches sequence = false := by
  have bound := good.reader_le reader snapshot found
  rw [latched, List.any_eq_false] at free
  have := free reader (List.mem_range.mpr (Nat.lt_succ_of_le bound))
  simpa [found] using this

/-- A step of one snapshot. -/
theorem Good.setSnapshot {world : World} (good : world.Good) {reader : Nat}
    {previous snapshot : Snapshot} (found : world.snapshots reader = some previous)
    (changed : snapshot.Good world) : (world.setSnapshot reader snapshot).Good := by
  refine ⟨good.fresh, good.began_committed, ?_, ?_⟩
  · intro other stored at_other
    rw [snapshots_setSnapshot] at at_other
    split at at_other
    · rename_i same
      exact same ▸ good.reader_le reader previous found
    · exact good.reader_le other stored at_other
  · intro other stored at_other
    rw [snapshots_setSnapshot] at at_other
    split at at_other
    · rw [Option.some_inj] at at_other
      exact at_other ▸ changed.of_same rfl rfl (Nat.le_refl _)
    · exact (good.snapshot other stored at_other).of_same rfl rfl (Nat.le_refl _)

theorem Good.setState {world : World} (good : world.Good) {number : Nat}
    {state : TransactionState} (positive : 0 < number) (allocated : number ≤ world.next)
    (unsettled : (world.inventory.fetchState number).unsettled = true)
    (free : world.latched (world.page number) = false)
    (undisturbed : world.Undisturbed (.setState number state)) :
    (world.setState number state).Good := by
  have fetch_eq (other : Nat) : (world.setState number state).inventory.fetchState other =
      if other = number then state else world.inventory.fetchState other :=
    world.inventory.fetchState_setState number other state
  refine ⟨?_, ?_, good.reader_le, ?_⟩
  · intro other young
    change world.next < other at young
    rw [fetch_eq, if_neg (by omega)]
    exact good.fresh other young
  · intro later before other began earlier
    have done := good.began_committed later before other began earlier
    have differ : other ≠ number := by
      intro same
      rw [← same, done] at unsettled
      cases unsettled
    rw [fetch_eq, if_neg differ]
    exact done
  · intro reader snapshot found
    exact (good.snapshot reader snapshot found).setState good.began_committed positive unsettled
      (unlatched good free found) (undisturbed.commit reader snapshot found)

theorem Good.beginCommit {world : World} (good : world.Good) {number : Nat}
    (positive : 0 < number)
    (unsettled : (world.inventory.fetchState number).unsettled = true) :
    { world with
      began := Function.update world.began number
        (some fun other => world.inventory.fetchState other == committed) : World }.Good := by
  refine ⟨good.fresh, ?_, good.reader_le, ?_⟩
  · intro later before other began earlier
    change Function.update world.began number _ later = some before at began
    rw [Function.update_apply] at began
    split at began
    · cases began
      exact beq_iff_eq.mp earlier
    · exact good.began_committed later before other began earlier
  · exact fun reader snapshot found =>
      (good.snapshot reader snapshot found).beginCommit positive unsettled _

theorem Good.start {world next : World} (good : world.Good) {oldest oldestActive : Nat}
    {wanted : Bool} (moved : world.start oldest oldestActive wanted = some next) :
    next.Good := by
  rw [World.start] at moved
  split at moved
  swap
  · cases moved
  rename_i guard
  obtain ⟨oldest_pos, oldest_le, active_le, older⟩ := guard
  simp only [Option.some.injEq] at moved
  have inventory_eq : next.inventory = world.inventory := by rw [← moved]
  have began_eq : next.began = world.began := by rw [← moved]
  have next_eq : next.next = world.next + 1 := by rw [← moved]
  have settled (number : Nat) (positive : 0 < number) (old : number < oldest) :
      (world.inventory.fetchState number).unsettled = false := by
    have := List.all_eq_true.mp older number (List.mem_range.mpr old)
    simpa [Nat.ne_of_gt positive] using this
  have base_le : snapshotBase oldest ≤ oldest := Nat.sub_le _ _
  have stored (reader : Nat) (differ : reader ≠ world.next + 1) :
      next.snapshots reader = world.snapshots reader := by
    rw [← moved]
    exact Function.update_of_ne differ _ _
  have fresh (number : Nat) (young : next.next ≤ number) :
      next.inventory.fetchState number = active := by
    rw [inventory_eq]
    exact good.fresh number (by omega)
  refine ⟨fun number young => fresh number (by omega), ?_, ?_, ?_⟩
  · rw [inventory_eq, began_eq]
    exact good.began_committed
  · intro reader snapshot found
    by_cases same : reader = world.next + 1
    · omega
    · rw [stored reader same] at found
      have := good.reader_le reader snapshot found
      omega
  · intro reader snapshot found
    by_cases same : reader = world.next + 1
    swap
    · rw [stored reader same] at found
      exact (good.snapshot reader snapshot found).of_same inventory_eq began_eq (by omega)
    have first := good.began_committed
    rw [← inventory_eq, ← began_eq] at first
    rw [← inventory_eq] at settled
    rw [same, ← moved] at found
    simp only [Function.update_self] at found
    split at found
    · cases found
    split at found
    · cases found
      exact Snapshot.Good.begin next_eq.symm oldest_pos oldest_le active_le rfl rfl settled fresh
        first
    · have base_eq : snapshotBase oldest = world.next + 1 := by omega
      have one_byte : (world.next + 1 + 1 - snapshotBase oldest + 3) / 4 = 1 := by omega
      rw [one_byte] at found
      cases found
      exact Snapshot.Good.beginAlone next_eq.symm oldest_pos (by change oldest = world.next + 1; omega)
        active_le rfl rfl base_eq settled fresh first

theorem Good.fetch {world : World} (good : world.Good) {reader : Nat} {snapshot : Snapshot}
    (found : world.snapshots reader = some snapshot) (stage : snapshot.stage = .begun) :
    (world.setSnapshot reader
      { snapshot with stage := .holding (world.page snapshot.base) false }).Good := by
  have snapshot_good := good.snapshot reader snapshot found
  have aligned := snapshot_good.aligned
  simp only [Snapshot.Aligned, stage] at aligned
  have first_byte := Nat.div_mul_le_self (snapshot.base / 4) world.inventory.tipBytes
  refine good.setSnapshot found (snapshot_good.advance _ ⟨Nat.le_refl _, ?_, ?_⟩ ?_)
  · exact Nat.div_le_div_right (Nat.le_trans snapshot.base_le_oldest snapshot_good.oldest_le)
  · change snapshot.base / 4 + snapshot.tra_transactions.length =
      max (snapshot.base / 4) (world.page snapshot.base * world.inventory.tipBytes)
    rw [aligned, page, Inventory.div_transPerTIP, List.length_nil]
    omega
  · intro number cleanup scanning
    cases scanning

theorem Good.acquire {world : World} (good : world.Good) {reader sequence : Nat}
    {snapshot : Snapshot} (found : world.snapshots reader = some snapshot)
    (stage : snapshot.stage = .holding sequence true)
    (more : sequence < world.page snapshot.tra_top) :
    (world.setSnapshot reader { snapshot with stage := .handoff sequence }).Good := by
  have snapshot_good := good.snapshot reader snapshot found
  have aligned := snapshot_good.aligned
  simp only [Snapshot.Aligned, stage] at aligned
  refine good.setSnapshot found
    (snapshot_good.advance _ ⟨aligned.1, more, aligned.2.2⟩ ?_)
  intro number cleanup scanning
  cases scanning

theorem Good.release {world : World} (good : world.Good) {reader sequence : Nat}
    {snapshot : Snapshot} (found : world.snapshots reader = some snapshot)
    (stage : snapshot.stage = .handoff sequence) :
    (world.setSnapshot reader { snapshot with stage := .holding (sequence + 1) false }).Good := by
  have snapshot_good := good.snapshot reader snapshot found
  have positive := world.inventory.tipBytes_pos
  have aligned := snapshot_good.aligned
  simp only [Snapshot.Aligned, stage] at aligned
  obtain ⟨first, last, reached⟩ := aligned
  refine good.setSnapshot found
    (snapshot_good.advance _ ⟨Nat.le_succ_of_le first, last, ?_⟩ ?_)
  · have first_page : snapshot.base / 4 < (sequence + 1) * world.inventory.tipBytes := by
      rw [Inventory.div_transPerTIP] at first
      exact (Nat.div_lt_iff_lt_mul positive).mp (Nat.lt_succ_of_le first)
    have next_page : (sequence + 1) * world.inventory.tipBytes ≤ snapshot.tra_top / 4 := by
      rw [Inventory.div_transPerTIP] at last
      exact (Nat.le_div_iff_mul_le positive).mp last
    change snapshot.base / 4 + snapshot.tra_transactions.length = _
    rw [reached, Inventory.copyEnd, Inventory.copyStart]
    change _ = max (snapshot.base / 4) ((sequence + 1) * world.inventory.tipBytes)
    omega
  · intro number cleanup scanning
    cases scanning

theorem Good.finish {world : World} (good : world.Good) {reader sequence : Nat}
    {snapshot : Snapshot} (found : world.snapshots reader = some snapshot)
    (stage : snapshot.stage = .holding sequence true)
    (last : ¬sequence < world.page snapshot.tra_top) (cleanup : Bool) :
    (world.setSnapshot reader
      { snapshot with stage := .scanning snapshot.tra_oldest_active cleanup }).Good := by
  have snapshot_good := good.snapshot reader snapshot found
  have positive := world.inventory.tipBytes_pos
  have aligned := snapshot_good.aligned
  simp only [Snapshot.Aligned, stage] at aligned
  obtain ⟨_, _, reached⟩ := aligned
  refine good.setSnapshot found (snapshot_good.advance _ ?_ ?_)
  · change snapshot.tra_top / 4 < snapshot.base / 4 + snapshot.tra_transactions.length
    have past : snapshot.tra_top / 4 < (sequence + 1) * world.inventory.tipBytes := by
      rw [page, Inventory.div_transPerTIP] at last
      exact (Nat.div_lt_iff_lt_mul positive).mp (by omega)
    rw [reached, Inventory.copyEnd]
    omega
  · intro number turn scanning
    cases scanning
    exact snapshot_good.oldest_le_active

/-- A turn of the scan that leaves the bit vector alone. -/
theorem Good.turn {world : World} (good : world.Good) {reader number : Nat} {cleanup : Bool}
    {snapshot : Snapshot} (found : world.snapshots reader = some snapshot)
    (stage : snapshot.stage = .scanning number cleanup) {next : Stage}
    (turned : next = .started ∨ next = .scanning (number + 1) cleanup) :
    (world.setSnapshot reader { snapshot with stage := next }).Good := by
  have snapshot_good := good.snapshot reader snapshot found
  have aligned := snapshot_good.aligned
  simp only [Snapshot.Aligned, stage] at aligned
  have recent := snapshot_good.scan_le number cleanup stage
  refine good.setSnapshot found (snapshot_good.advance _ ?_ ?_)
  · rcases turned with rfl | rfl
    · exact aligned
    · exact aligned
  · intro other again scanning
    rcases turned with rfl | rfl
    · cases scanning
    · cases scanning
      exact Nat.le_succ_of_le recent

theorem Good.wait {world next : World} (good : world.Good) {reader number : Nat}
    {snapshot : Snapshot} (found : world.snapshots reader = some snapshot)
    (stage : snapshot.stage = .scanning number true) (within : number ≤ snapshot.tra_top)
    (was : snapshot.state number = active)
    (not_committed : world.inventory.fetchState number ≠ committed)
    (moved : world.wait reader snapshot number true = some next) : next.Good := by
  have snapshot_good := good.snapshot reader snapshot found
  have recent := snapshot_good.scan_le number true stage
  have positive := snapshot_good.oldest_pos
  have allocated := snapshot_good.top_le
  have was_open : snapshot.state number ≠ committed := by
    rw [was]
    decide
  rw [World.wait] at moved
  split at moved
  · cases moved
  rename_i free
  simp only [Option.some.injEq] at moved
  rw [← moved]
  by_cases still : world.inventory.fetchState number = active
  · simp only [still, true_and, Bool.not_eq_true] at free
    have harmless : world.Undisturbed (.setState number dead) :=
      ⟨fun _ _ _ _ _ _ same => (by cases same), fun _ _ _ same => (by cases same)⟩
    have marked : (world.setState number dead).Good :=
      good.setState (by omega) (by omega) (by rw [still]; rfl) free harmless
    rw [if_pos still, if_pos still]
    exact marked.setSnapshot found
      ((marked.snapshot reader snapshot found).rewrite stage within was_open (by decide) _)
  · rw [if_neg still, if_neg still]
    exact good.setSnapshot found (snapshot_good.rewrite stage within was_open not_committed _)

theorem Good.scan {world next : World} (good : world.Good) {reader number : Nat} {cleanup : Bool}
    {snapshot : Snapshot} (found : world.snapshots reader = some snapshot)
    (stage : snapshot.stage = .scanning number cleanup)
    (undisturbed : world.Undisturbed (.scan reader))
    (moved : world.step (.scan reader) = some next) : next.Good := by
  have recent := (good.snapshot reader snapshot found).scan_le number cleanup stage
  simp only [World.step, found, stage] at moved
  split at moved
  · cases moved
    exact good.turn found stage (.inl rfl)
  rename_i within
  split at moved
  · cases moved
    exact good.turn found stage (.inr rfl)
  rename_i still
  split at moved
  · cases moved
    exact good.turn found stage (.inl rfl)
  rename_i free
  simp only [not_or, Bool.not_eq_true, Bool.not_eq_false] at free
  obtain ⟨unlocked, rfl⟩ := free
  have was : snapshot.state number = active := by
    rw [Snapshot.state, if_neg (by omega), if_neg (by omega)]
    exact not_not.mp still
  exact good.wait found stage (by omega) was
    (undisturbed.cleanup reader snapshot number rfl found stage was unlocked) moved

/-- One undisturbed action keeps the invariant. -/
theorem Good.step {world next : World} (good : world.Good) {action : Action}
    (undisturbed : world.Undisturbed action) (moved : world.step action = some next) :
    next.Good := by
  cases action with
  | start oldest oldestActive wanted => exact good.start moved
  | fetch reader =>
      simp only [World.step] at moved
      split at moved
      · rename_i snapshot found
        split at moved
        · rename_i stage
          cases moved
          exact good.fetch found stage
        · cases moved
      · cases moved
  | copy reader =>
      simp only [World.step] at moved
      split at moved
      · rename_i snapshot found
        split at moved
        · rename_i sequence stage
          cases moved
          exact good.setSnapshot found ((good.snapshot reader snapshot found).copy stage)
        · cases moved
      · cases moved
  | acquire reader =>
      simp only [World.step] at moved
      split at moved
      · rename_i snapshot found
        split at moved
        · rename_i sequence stage
          split at moved
          · rename_i more
            cases moved
            exact good.acquire found stage more
          · cases moved
        · cases moved
      · cases moved
  | release reader =>
      simp only [World.step] at moved
      split at moved
      · rename_i snapshot found
        split at moved
        · rename_i sequence stage
          cases moved
          exact good.release found stage
        · cases moved
      · cases moved
  | finish reader =>
      simp only [World.step] at moved
      split at moved
      · rename_i snapshot found
        split at moved
        · rename_i sequence stage
          split at moved
          · cases moved
          · rename_i last
            cases moved
            exact good.finish found stage last _
        · cases moved
      · cases moved
  | scan reader =>
      cases found : world.snapshots reader with
      | none => simp [World.step, found] at moved
      | some snapshot =>
          cases stage : snapshot.stage with
          | scanning number cleanup => exact good.scan found stage undisturbed moved
          | _ => simp [World.step, found, stage] at moved
  | beginCommit number =>
      simp only [World.step] at moved
      split at moved
      · rename_i guard
        cases moved
        exact good.beginCommit guard.1 guard.2.2.2
      · cases moved
  | setState number state =>
      simp only [World.step] at moved
      split at moved
      · rename_i guard
        obtain ⟨positive, allocated, unsettled, _, _, free⟩ := guard
        cases moved
        exact good.setState positive allocated unsettled free undisturbed
      · cases moved
  | unlock number =>
      cases moved
      exact ⟨good.fresh, good.began_committed, good.reader_le,
        fun reader snapshot found =>
          (good.snapshot reader snapshot found).of_same rfl rfl (Nat.le_refl _)⟩

/-- Only the scan of its own reader touches a snapshot that is taken. -/
theorem Good.snapshots_step {world next : World} (good : world.Good) {action : Action}
    (moved : world.step action = some next) {reader : Nat} {snapshot : Snapshot}
    (found : world.snapshots reader = some snapshot) (taken : snapshot.taken = true)
    (other_action : action ≠ .scan reader) : next.snapshots reader = some snapshot := by
  have stays (other : Nat) (changed : Snapshot) (differ : reader ≠ other) :
      (world.setSnapshot other changed).snapshots reader = some snapshot := by
    rw [snapshots_setSnapshot, if_neg differ, found]
  have differs (other : Nat) (stored : Snapshot) (at_other : world.snapshots other = some stored)
      (not_taken : stored.taken = false) : reader ≠ other := by
    intro same
    rw [same, at_other] at found
    cases found
    rw [not_taken] at taken
    cases taken
  cases action with
  | start oldest oldestActive wanted =>
      have young := good.reader_le reader snapshot found
      simp only [World.step, World.start] at moved
      split at moved
      · cases moved
        exact (Function.update_of_ne (by omega) _ _).trans found
      · cases moved
  | fetch other =>
      simp only [World.step] at moved
      split at moved
      · rename_i stored at_other
        split at moved
        · rename_i stage
          cases moved
          exact stays _ _ (differs other stored at_other (by rw [Snapshot.taken, stage]))
        · cases moved
      · cases moved
  | copy other =>
      simp only [World.step] at moved
      split at moved
      · rename_i stored at_other
        split at moved
        · rename_i sequence stage
          cases moved
          exact stays _ _ (differs other stored at_other (by rw [Snapshot.taken, stage]))
        · cases moved
      · cases moved
  | acquire other =>
      simp only [World.step] at moved
      split at moved
      · rename_i stored at_other
        split at moved
        · rename_i sequence stage
          split at moved
          · cases moved
            exact stays _ _ (differs other stored at_other (by rw [Snapshot.taken, stage]))
          · cases moved
        · cases moved
      · cases moved
  | release other =>
      simp only [World.step] at moved
      split at moved
      · rename_i stored at_other
        split at moved
        · rename_i sequence stage
          cases moved
          exact stays _ _ (differs other stored at_other (by rw [Snapshot.taken, stage]))
        · cases moved
      · cases moved
  | finish other =>
      simp only [World.step] at moved
      split at moved
      · rename_i stored at_other
        split at moved
        · rename_i sequence stage
          split at moved
          · cases moved
          · cases moved
            exact stays _ _ (differs other stored at_other (by rw [Snapshot.taken, stage]))
        · cases moved
      · cases moved
  | scan other =>
      have differ : reader ≠ other := fun same => other_action (by rw [same])
      cases at_other : world.snapshots other with
      | none => simp [World.step, at_other] at moved
      | some stored =>
          cases stage : stored.stage with
          | scanning number cleanup =>
              simp only [World.step, at_other, stage] at moved
              split at moved
              · cases moved
                exact stays _ _ differ
              split at moved
              · cases moved
                exact stays _ _ differ
              split at moved
              · cases moved
                exact stays _ _ differ
              rw [World.wait] at moved
              split at moved
              · cases moved
              · cases moved
                rw [snapshots_setSnapshot, if_neg differ]
                split
                · exact found
                · exact found
          | _ => simp [World.step, at_other, stage] at moved
  | beginCommit number =>
      simp only [World.step] at moved
      split at moved
      · cases moved
        exact found
      · cases moved
  | setState number state =>
      simp only [World.step] at moved
      split at moved
      · cases moved
        exact found
      · cases moved
  | unlock number =>
      cases moved
      exact found

/-- Once a snapshot is taken, nothing in it becomes committed. -/
theorem Good.taken_step {world next : World} (good : world.Good) {action : Action}
    (undisturbed : world.Undisturbed action) (moved : world.step action = some next)
    {reader : Nat} {snapshot : Snapshot} (found : world.snapshots reader = some snapshot)
    (taken : snapshot.taken = true) :
    ∃ later, next.snapshots reader = some later ∧ later.taken = true ∧
      ∀ number, later.state number = committed → snapshot.state number = committed := by
  by_cases own : action = .scan reader
  swap
  · exact ⟨snapshot, good.snapshots_step moved found taken own, taken, fun _ => id⟩
  subst own
  cases stage : snapshot.stage with
  | scanning number cleanup =>
      have snapshot_good := good.snapshot reader snapshot found
      have recent := snapshot_good.scan_le number cleanup stage
      have turned (changed : Snapshot) (same : world.setSnapshot reader changed = next)
          (scanned : changed.taken = true)
          (kept : ∀ other, changed.state other = committed → snapshot.state other = committed) :
          ∃ later, next.snapshots reader = some later ∧ later.taken = true ∧
            ∀ number, later.state number = committed → snapshot.state number = committed := by
        refine ⟨changed, ?_, scanned, kept⟩
        rw [← same, snapshots_setSnapshot, if_pos rfl]
      simp only [World.step, found, stage] at moved
      split at moved
      · exact turned _ (Option.some.inj moved) rfl fun _ => id
      rename_i within
      split at moved
      · exact turned _ (Option.some.inj moved) rfl fun _ => id
      rename_i still
      split at moved
      · exact turned _ (Option.some.inj moved) rfl fun _ => id
      rename_i free
      simp only [not_or, Bool.not_eq_true, Bool.not_eq_false] at free
      obtain ⟨unlocked, rfl⟩ := free
      have was : snapshot.state number = active := by
        rw [Snapshot.state, if_neg (by omega), if_neg (by omega)]
        exact not_not.mp still
      have not_committed := undisturbed.cleanup reader snapshot number rfl found stage was unlocked
      have reached := snapshot_good.aligned
      simp only [Snapshot.Aligned, stage] at reached
      rw [World.wait] at moved
      split at moved
      · cases moved
      cases moved
      refine ⟨_, (snapshots_setSnapshot ..).trans (if_pos rfl), rfl, fun other done => ?_⟩
      rw [Snapshot.state_rewrite recent (by omega) reached] at done
      split at done
      · split at done
        · cases done
        · exact absurd done not_committed
      · exact done
  | started => simp [World.step, found, stage] at moved
  | _ => simp [Snapshot.taken, stage] at taken

/-- Nothing has happened yet: no transaction has a snapshot or began its commit, and no number
beyond the last one allocated has a state. -/
structure Initial (world : World) : Prop where
  fresh : ∀ number, world.next < number → world.inventory.fetchState number = active
  began : ∀ number, world.began number = none
  snapshots : ∀ reader, world.snapshots reader = none

/-- One step of any party, in any order. -/
def Moves (world next : World) : Prop :=
  ∃ action, world.step action = some next

/-- One step of any party that disturbs no snapshot. -/
def MovesQuietly (world next : World) : Prop :=
  ∃ action, world.Undisturbed action ∧ world.step action = some next

theorem Initial.good {world : World} (initial : world.Initial) : world.Good := by
  refine ⟨initial.fresh, ?_, ?_, ?_⟩
  · intro number before other began
    rw [initial.began] at began
    cases began
  · intro reader snapshot found
    rw [initial.snapshots] at found
    cases found
  · intro reader snapshot found
    rw [initial.snapshots] at found
    cases found

theorem Good.run {world later : World} (good : world.Good)
    (run : Relation.ReflTransGen MovesQuietly world later) : later.Good := by
  induction run with
  | refl => exact good
  | tail _ move previous =>
      obtain ⟨action, undisturbed, moved⟩ := move
      exact previous.step undisturbed moved

theorem Good.taken_run {world later : World} (good : world.Good)
    (run : Relation.ReflTransGen MovesQuietly world later) {reader : Nat} {snapshot : Snapshot}
    (found : world.snapshots reader = some snapshot) (taken : snapshot.taken = true) :
    ∃ final, later.snapshots reader = some final ∧ final.taken = true ∧
      ∀ number, final.state number = committed → snapshot.state number = committed := by
  induction run with
  | refl => exact ⟨snapshot, found, taken, fun _ => id⟩
  | tail steps move previous =>
      obtain ⟨action, undisturbed, moved⟩ := move
      obtain ⟨middle, at_reader, middle_taken, kept⟩ := previous
      obtain ⟨final, final_at, final_taken, final_kept⟩ :=
        (good.run steps).taken_step undisturbed moved at_reader middle_taken
      exact ⟨final, final_at, final_taken, fun number done => kept number (final_kept number done)⟩

end World

/-- With a committed transaction, the snapshot has all those committed before it began its commit,
and no transaction is committed in it that was active when it was taken. -/
structure Snapshot.ConsistentCut (snapshot : Snapshot) (whenTaken now : World) : Prop where
  cut : ∀ before number began, now.began number = some began → began before = true →
    snapshot.state number = committed → snapshot.state before = committed
  sound : ∀ number, 0 < number → whenTaken.inventory.fetchState number = active →
    snapshot.state number ≠ committed

/-- In a snapshot that is taken, the transactions committed are those seen. -/
theorem Snapshot.Good.sees_taken {snapshot : Snapshot} {world : World}
    (good : snapshot.Good world) (taken : snapshot.taken = true) (number : Nat) :
    snapshot.Sees world.inventory number ↔ snapshot.state number = committed := by
  have aligned := good.aligned
  have reached :
      snapshot.tra_top / 4 < snapshot.base / 4 + snapshot.tra_transactions.length := by
    cases stage : snapshot.stage with
    | scanning active cleanup => simpa only [Snapshot.Aligned, stage] using aligned
    | started => simpa only [Snapshot.Aligned, stage] using aligned
    | _ => simp [Snapshot.taken, stage] at taken
  have covered : number < snapshot.tra_oldest ∨ snapshot.tra_top < number ∨
      snapshot.copied number = true := by
    rw [Snapshot.copied, decide_eq_true_eq]
    omega
  rw [Snapshot.Sees, if_pos covered]

/-- The actions one after the other. -/
def World.run (world : World) : List Action → Option World
  | [] => some world
  | action :: rest => (world.step action).bind fun next => next.run rest

theorem World.moves_of_run {world later : World} {actions : List Action}
    (ran : world.run actions = some later) : Relation.ReflTransGen World.Moves world later := by
  induction actions generalizing world with
  | nil =>
      cases ran
      exact .refl
  | cons action rest ih =>
      obtain ⟨next, moved, onward⟩ := Option.bind_eq_some_iff.mp ran
      exact .head ⟨action, moved⟩ (ih onward)

/-- The first 97 transactions are committed, on a page of 4096 bytes. -/
def settledInventory : Inventory where
  tipBytes := 4076
  tipBytes_pos := by decide
  tip_transactions sequence byte :=
    if sequence = 0 ∧ byte < 24 then 255 else if sequence = 0 ∧ byte = 24 then 15 else 0

/-- No transaction is under way. -/
def settledWorld : World where
  inventory := settledInventory
  next := 97
  locked _ := false
  began _ := none
  snapshots _ := none

theorem settledWorld_initial : settledWorld.Initial := by
  refine ⟨?_, fun _ => rfl, fun _ => rfl⟩
  intro number young
  change 97 < number at young
  have last : stateInByte 15 98 = active ∧ stateInByte 15 99 = active := by decide
  change settledInventory.fetchState number = active
  rw [Inventory.fetchState_eq, Inventory.byteAt]
  by_cases near : number < 100
  · rcases (by omega : number = 98 ∨ number = 99) with rfl | rfl
    · exact last.1
    · exact last.2
  · have beyond : ¬(number / 4 / 4076 = 0 ∧ number / 4 % 4076 < 24) ∧
        ¬(number / 4 / 4076 = 0 ∧ number / 4 % 4076 = 24) := by omega
    change stateInByte (if number / 4 / 4076 = 0 ∧ number / 4 % 4076 < 24 then 255 else
      if number / 4 / 4076 = 0 ∧ number / 4 % 4076 = 24 then 15 else 0) number = active
    rw [if_neg beyond.1, if_neg beyond.2, stateInByte_zero]

/-- Transactions 98 and 99 are active while transaction 100 copies the inventory. -/
def copyActions : List Action :=
  [.start 98 98 false, .start 98 98 false, .start 98 98 true, .fetch 100, .copy 100, .finish 100]

/-- Transaction 99 commits, then transaction 98 begins its commit and commits, and the scan of
transaction 100 finds no lock for transaction 98. -/
def scanActions : List Action :=
  [.beginCommit 99, .setState 99 committed, .unlock 99,
    .beginCommit 98, .setState 98 committed, .unlock 98, .scan 100, .scan 100]

/-- Neither a commit nor a turn of the scan. -/
def Action.bystander : Action → Bool
  | .setState _ committed | .scan _ => false
  | _ => true

theorem World.quiet_of_run {world later : World} {actions : List Action}
    (bystanders : ∀ action ∈ actions, action.bystander = true)
    (ran : world.run actions = some later) :
    Relation.ReflTransGen World.MovesQuietly world later := by
  induction actions generalizing world with
  | nil =>
      cases ran
      exact .refl
  | cons action rest ih =>
      obtain ⟨next, moved, onward⟩ := Option.bind_eq_some_iff.mp ran
      have quiet := bystanders action List.mem_cons_self
      refine .head ⟨action, ⟨?_, ?_⟩, moved⟩
        (ih (fun other member => bystanders other (List.mem_cons_of_mem _ member)) onward)
      · intro reader snapshot _ number before other same
        rw [same] at quiet
        cases quiet
      · intro reader snapshot number same
        rw [same] at quiet
        cases quiet

end Firebird
