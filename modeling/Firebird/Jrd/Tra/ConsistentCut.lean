import Firebird.Jrd.Tra.Snapshot
import Mathlib.Data.List.GetD

/-!
# Snapshots as consistent cuts

A snapshot is a consistent cut when it contains, with every committed transaction, all those that
had committed before that one began its commit.  The page-by-page copy keeps this as long as no
transaction that is still to be copied commits after one that the copy has missed.
-/

namespace Firebird

open TransactionState

namespace Snapshot

/-- The snapshot has or will get the transaction as committed if its remaining pages are copied from
the given inventory. -/
def Sees (snapshot : Snapshot) (inventory : Inventory) (number : Nat) : Prop :=
  if number < snapshot.tra_oldest ∨ snapshot.tra_top < number ∨ snapshot.copied number = true then
    snapshot.state number = committed
  else
    inventory.fetchState number = committed

/-- How far the bit vector reaches at each stage. -/
def Aligned (snapshot : Snapshot) (inventory : Inventory) : Prop :=
  let reached := snapshot.base / 4 + snapshot.tra_transactions.length
  let first := snapshot.base / inventory.transPerTIP
  let last := snapshot.tra_top / inventory.transPerTIP
  match snapshot.stage with
  | .begun => snapshot.tra_transactions = []
  | .holding sequence false =>
      first ≤ sequence ∧ sequence ≤ last ∧ reached = inventory.copyStart snapshot.base sequence
  | .holding sequence true =>
      first ≤ sequence ∧ sequence ≤ last ∧ reached = inventory.copyEnd snapshot.tra_top sequence
  | .handoff sequence =>
      first ≤ sequence ∧ sequence < last ∧ reached = inventory.copyEnd snapshot.tra_top sequence
  | .scanning _ _ | .started => snapshot.tra_top / 4 < reached

/-- What every snapshot keeps true while no transaction commits out of its sight. -/
structure Good (snapshot : Snapshot) (world : World) : Prop where
  oldest_pos : 0 < snapshot.tra_oldest
  oldest_le : snapshot.tra_oldest ≤ snapshot.tra_top
  oldest_le_active : snapshot.tra_oldest ≤ snapshot.tra_oldest_active
  top_le : snapshot.tra_top ≤ world.next
  aligned : snapshot.Aligned world.inventory
  scan_le : ∀ number cleanup, snapshot.stage = .scanning number cleanup →
    snapshot.tra_oldest ≤ number
  /-- Transactions older than the oldest interesting one are settled. -/
  settled : ∀ number, 0 < number → number < snapshot.tra_oldest →
    (world.inventory.fetchState number).unsettled = false
  /-- What is copied as committed is committed. -/
  sound : ∀ number, snapshot.tra_oldest ≤ number → snapshot.Sees world.inventory number →
    world.inventory.fetchState number = committed
  cut : ∀ number before other, world.began number = some before → before other = true →
    snapshot.Sees world.inventory number → snapshot.Sees world.inventory other

theorem base_le_oldest (snapshot : Snapshot) : snapshot.base ≤ snapshot.tra_oldest :=
  Nat.sub_le _ _

theorem base_aligned (snapshot : Snapshot) : snapshot.base % 4 = 0 := by
  rw [base, snapshotBase]
  omega

theorem not_seen_of_unsettled {snapshot : Snapshot} {world : World} {number : Nat}
    (good : snapshot.Good world) (positive : 0 < number)
    (unsettled : (world.inventory.fetchState number).unsettled = true) :
    snapshot.tra_oldest ≤ number ∧ ¬snapshot.Sees world.inventory number := by
  have recent : snapshot.tra_oldest ≤ number := by
    by_contra older
    have := good.settled number positive (by omega)
    simp [this] at unsettled
  refine ⟨recent, fun seen => ?_⟩
  rw [good.sound number recent seen] at unsettled
  simp [TransactionState.unsettled] at unsettled

/-- A transaction whose page is neither copied nor latched keeps the snapshot waiting. -/
theorem pending_of_not_copied {snapshot : Snapshot} {world : World} {number : Nat}
    (good : snapshot.Good world) (within : number ≤ snapshot.tra_top) (open_byte : snapshot.copied number = false)
    (unlatched : snapshot.latches (world.page number) = false) :
    snapshot.pending (world.page snapshot.tra_top) = true := by
  have positive := world.inventory.tipBytes_pos
  have aligned := good.aligned
  have base_le := snapshot.base_le_oldest
  have page_le : world.page number ≤ world.page snapshot.tra_top := Nat.div_le_div_right within
  have page_eq : world.page number = number / 4 / world.inventory.tipBytes :=
    world.inventory.div_transPerTIP number
  rw [copied] at open_byte
  have beyond : snapshot.base / 4 + snapshot.tra_transactions.length ≤ number / 4 := by
    simpa using open_byte
  have past_page : ∀ sequence,
      world.inventory.copyEnd snapshot.tra_top sequence ≤ number / 4 →
        sequence < world.page number := by
    intro sequence ended
    rw [Inventory.copyEnd] at ended
    have bytes : (sequence + 1) * world.inventory.tipBytes ≤ number / 4 := by omega
    rw [page_eq]
    exact (Nat.le_div_iff_mul_le positive).mpr bytes
  unfold Aligned at aligned
  unfold latches at unlatched
  unfold pending
  cases stage : snapshot.stage with
  | begun => rfl
  | holding sequence done =>
      simp only [stage] at aligned unlatched ⊢
      have differ : world.page number ≠ sequence := by simpa using unlatched
      cases done with
      | false =>
          obtain ⟨_, _, reached⟩ := aligned
          have bytes : sequence * world.inventory.tipBytes ≤ number / 4 := by
            rw [Inventory.copyStart] at reached
            omega
          have := (Nat.le_div_iff_mul_le positive).mpr bytes
          simp only [decide_eq_true_eq]
          omega
      | true =>
          obtain ⟨_, _, reached⟩ := aligned
          have := past_page sequence (by omega)
          simp only [decide_eq_true_eq]
          omega
  | handoff sequence =>
      simp only [stage] at aligned unlatched ⊢
      have differ : world.page number ≠ sequence ∧ world.page number ≠ sequence + 1 := by
        simpa using unlatched
      obtain ⟨_, _, reached⟩ := aligned
      have := past_page sequence (by omega)
      simp only [decide_eq_true_eq]
      omega
  | scanning active cleanup =>
      simp only [stage] at aligned
      omega
  | started =>
      simp only [stage] at aligned
      omega

/-- The action does not commit a transaction that the snapshot has still to copy after another one
that it has missed: one that is younger than the snapshot or copied too early. -/
def Undisturbed (snapshot : Snapshot) (world : World) (action : Action) : Prop :=
  ∀ number before other, action = .setState number committed →
    snapshot.pending (world.page snapshot.tra_top) = true → number ≤ snapshot.tra_top →
    snapshot.copied number = false → world.began number = some before → before other = true →
    snapshot.Sees world.inventory other

/-- A page update by another transaction. -/
theorem Good.setState {snapshot : Snapshot} {world : World} {number : Nat}
    {state : TransactionState} (good : snapshot.Good world)
    (began_committed : ∀ number before other, world.began number = some before →
      before other = true → world.inventory.fetchState other = committed)
    (positive : 0 < number)
    (unsettled : (world.inventory.fetchState number).unsettled = true)
    (unlatched : snapshot.latches (world.page number) = false)
    (undisturbed : snapshot.Undisturbed world (.setState number state)) :
    snapshot.Good (world.setState number state) := by
  obtain ⟨recent, unseen⟩ := not_seen_of_unsettled good positive unsettled
  have fetch_eq (other : Nat) : (world.setState number state).inventory.fetchState other =
      if other = number then state else world.inventory.fetchState other :=
    world.inventory.fetchState_setState number other state
  have sees_iff {other : Nat} (differ : other ≠ number) :
      snapshot.Sees (world.setState number state).inventory other ↔
        snapshot.Sees world.inventory other := by
    rw [Sees, Sees, fetch_eq, if_neg differ]
  have not_committed : world.inventory.fetchState number ≠ committed := by
    intro same
    rw [same] at unsettled
    simp [TransactionState.unsettled] at unsettled
  -- The changed transaction becomes seen only on a page that is still to be copied.
  have sees_number (seen : snapshot.Sees (world.setState number state).inventory number) :
      state = committed ∧ snapshot.pending (world.page snapshot.tra_top) = true ∧
        number ≤ snapshot.tra_top ∧ snapshot.copied number = false := by
    rw [Sees] at seen unseen
    split at seen
    · rename_i fixed
      rw [if_pos fixed] at unseen
      exact absurd seen unseen
    · rename_i free
      simp only [not_or, Bool.not_eq_true] at free
      rw [fetch_eq, if_pos rfl] at seen
      have within : number ≤ snapshot.tra_top := by omega
      exact ⟨seen, pending_of_not_copied good within free.2.2 unlatched, within, free.2.2⟩
  refine ⟨good.oldest_pos, good.oldest_le, good.oldest_le_active, good.top_le, good.aligned,
    good.scan_le, ?_, ?_, ?_⟩
  · intro other other_pos older
    rw [fetch_eq, if_neg (by omega)]
    exact good.settled other other_pos older
  · intro other other_recent seen
    by_cases same : other = number
    · subst same
      rw [fetch_eq, if_pos rfl]
      exact (sees_number seen).1
    · rw [fetch_eq, if_neg same]
      exact good.sound other other_recent ((sees_iff same).mp seen)
  · intro later before other began earlier seen
    have other_committed := began_committed later before other began earlier
    have differ : other ≠ number := fun same => not_committed (same ▸ other_committed)
    rw [sees_iff differ]
    by_cases same : later = number
    · subst same
      obtain ⟨commits, waiting, within, open_byte⟩ := sees_number seen
      exact undisturbed later before other (by rw [commits]) waiting within open_byte began earlier
    · exact good.cut later before other began earlier ((sees_iff same).mp seen)

/-- A step of the snapshot that copies nothing. -/
theorem Good.advance {snapshot : Snapshot} {world : World} (good : snapshot.Good world)
    (stage : Stage) (aligned : { snapshot with stage }.Aligned world.inventory)
    (scan_le : ∀ number cleanup, stage = .scanning number cleanup → snapshot.tra_oldest ≤ number) :
    { snapshot with stage }.Good world :=
  { good with aligned, scan_le }

theorem transOffset_sub_base {snapshot : Snapshot} {number : Nat}
    (recent : snapshot.tra_oldest ≤ number) :
    transOffset (number - snapshotBase snapshot.tra_oldest) =
      number / 4 - snapshot.base / 4 := by
  have aligned := snapshot.base_aligned
  have base_le := snapshot.base_le_oldest
  rw [base] at *
  rw [transOffset]
  omega

theorem state_of_within {snapshot : Snapshot} {number : Nat}
    (recent : snapshot.tra_oldest ≤ number) (within : number ≤ snapshot.tra_top) :
    snapshot.state number =
      stateInByte (snapshot.tra_transactions.getD (number / 4 - snapshot.base / 4) 0) number := by
  rw [state, if_neg (by omega), if_neg (by omega), traState, transOffset_sub_base recent]

/-- Copying a page changes nothing in what the snapshot sees. -/
theorem sees_copy {snapshot : Snapshot} {inventory : Inventory} {sequence : Nat}
    (ordered : snapshot.tra_oldest ≤ snapshot.tra_top)
    (first : snapshot.base / inventory.transPerTIP ≤ sequence)
    (last : sequence ≤ snapshot.tra_top / inventory.transPerTIP)
    (reached : snapshot.base / 4 + snapshot.tra_transactions.length =
      inventory.copyStart snapshot.base sequence)
    (stage : Stage) (number : Nat) :
    { snapshot with
      tra_transactions := snapshot.tra_transactions ++
        inventory.pageBytes snapshot.base snapshot.tra_top sequence
      stage }.Sees inventory number ↔ snapshot.Sees inventory number := by
  have base_le := snapshot.base_le_oldest
  have bytes := inventory.pageBytes_eq snapshot.base_aligned first last (Nat.le_trans base_le ordered)
  generalize inventory.pageBytes snapshot.base snapshot.tra_top sequence = page at bytes ⊢
  by_cases recent : snapshot.tra_oldest ≤ number
  swap
  · simp [Sees, state, Nat.lt_of_not_le recent]
  by_cases within : number ≤ snapshot.tra_top
  swap
  · simp [Sees, state, Nat.lt_of_not_le within]
  have position : snapshot.base / 4 ≤ number / 4 := by omega
  have outside : ¬number < snapshot.tra_oldest ∧ ¬snapshot.tra_top < number := by omega
  have grown (bits : List UInt8) :
      { snapshot with tra_transactions := bits, stage }.state number =
        stateInByte (bits.getD (number / 4 - snapshot.base / 4) 0) number :=
    @state_of_within { snapshot with tra_transactions := bits, stage } number recent within
  simp only [Sees, outside.1, outside.2, false_or, grown, state_of_within recent within, copied,
    decide_eq_true_eq]
  by_cases old : number / 4 < snapshot.base / 4 + snapshot.tra_transactions.length
  · have still : number / 4 < snapshot.base / 4 + (snapshot.tra_transactions ++ page).length := by
      rw [List.length_append]
      omega
    have inside : number / 4 - snapshot.base / 4 < snapshot.tra_transactions.length := by omega
    change (if number / 4 < snapshot.base / 4 + (snapshot.tra_transactions ++ page).length
      then _ else _) ↔ _
    rw [if_pos old, if_pos still, List.getD_append _ _ _ _ inside]
  · change (if number / 4 < snapshot.base / 4 + (snapshot.tra_transactions ++ page).length
      then _ else _) ↔ _
    rw [if_neg old]
    by_cases new : number / 4 < snapshot.base / 4 + (snapshot.tra_transactions ++ page).length
    · have offset : number / 4 - snapshot.base / 4 - snapshot.tra_transactions.length =
          number / 4 - inventory.copyStart snapshot.base sequence := by omega
      have inside : number / 4 - inventory.copyStart snapshot.base sequence < page.length := by
        rw [List.length_append] at new
        omega
      rw [if_pos new, List.getD_append_right _ _ _ _ (by omega), offset,
        List.getD_eq_getElem _ _ inside]
      subst bytes
      rw [List.getElem_map, List.getElem_range, inventory.fetchState_eq,
        Nat.add_sub_cancel' (by omega)]
    · rw [if_neg new]

theorem Good.copy {snapshot : Snapshot} {world : World} {sequence : Nat}
    (good : snapshot.Good world) (holding : snapshot.stage = .holding sequence false) :
    { snapshot with
      tra_transactions := snapshot.tra_transactions ++
        world.inventory.pageBytes snapshot.base snapshot.tra_top sequence
      stage := .holding sequence true }.Good world := by
  have base_le := snapshot.base_le_oldest
  have aligned := good.aligned
  simp only [Aligned, holding] at aligned
  obtain ⟨first, last, reached⟩ := aligned
  have sees := sees_copy good.oldest_le first last reached (.holding sequence true)
  have positive := world.inventory.tipBytes_pos
  have bytes := congrArg List.length (world.inventory.pageBytes_eq snapshot.base_aligned first last
    (Nat.le_trans base_le good.oldest_le))
  rw [List.length_map, List.length_range] at bytes
  refine ⟨good.oldest_pos, good.oldest_le, good.oldest_le_active, good.top_le, ?_, ?_, good.settled,
    ?_, ?_⟩
  · have first_byte : sequence * world.inventory.tipBytes ≤ snapshot.tra_top / 4 := by
      rw [Inventory.div_transPerTIP] at last
      exact (Nat.le_div_iff_mul_le positive).mp last
    have first_page : snapshot.base / 4 < (sequence + 1) * world.inventory.tipBytes := by
      rw [Inventory.div_transPerTIP] at first
      exact (Nat.div_lt_iff_lt_mul positive).mp (Nat.lt_succ_of_le first)
    have next_page : (sequence + 1) * world.inventory.tipBytes =
        sequence * world.inventory.tipBytes + world.inventory.tipBytes := Nat.succ_mul _ _
    refine ⟨first, last, ?_⟩
    change snapshot.base / 4 + (snapshot.tra_transactions ++ _).length = _
    rw [List.length_append, bytes]
    rw [Inventory.copyStart] at *
    rw [Inventory.copyEnd]
    have ordered := good.oldest_le
    omega
  · intro number cleanup stage
    cases stage
  · exact fun number recent seen => good.sound number recent ((sees number).mp seen)
  · exact fun number before other began earlier seen =>
      (sees other).mpr (good.cut number before other began earlier ((sees number).mp seen))

end Snapshot

end Firebird
