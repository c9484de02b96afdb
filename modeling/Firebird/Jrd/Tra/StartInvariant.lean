import Firebird.Jrd.Tra.Start

/-!
# Bounds kept by starting transactions

Below every recorded oldest active transaction none is active any more, and below every recorded
oldest interesting transaction each is committed, or dead and swept.  A step lemma for each action
carries this through all interleavings, as long as the caches that read-committed starts search have
no gaps.
-/

namespace Firebird
namespace Start

open TransactionState

/-- No transaction below the bound is active. -/
def Bound (inventory : Inventory) (bound : Nat) : Prop :=
  ∀ number, 0 < number → number < bound → inventory.fetchState number ≠ active

/-- Every transaction below the bound is committed, or is dead and has been swept. -/
def Settled (swept : Nat → Prop) (inventory : Inventory) (bound : Nat) : Prop :=
  ∀ number, 0 < number → number < bound →
    inventory.fetchState number = committed ∨ inventory.fetchState number = dead ∧ swept number

/-- A transaction that may still get a new state. -/
def Open (inventory : Inventory) (number : Nat) : Prop :=
  inventory.fetchState number = active ∨ inventory.fetchState number = limbo

section Bounds

variable {swept : Nat → Prop} {inventory : Inventory} {limit other number : Nat}
  {state : TransactionState}

theorem Bound.mono (holds : Bound inventory limit) (smaller : other ≤ limit) :
    Bound inventory other :=
  fun number positive below => holds number positive (below.trans_le smaller)

theorem Bound.max (left : Bound inventory limit) (right : Bound inventory other) :
    Bound inventory (max limit other) := by
  rcases Nat.le_total limit other with le | le
  · rw [Nat.max_eq_right le]
    exact right
  · rw [Nat.max_eq_left le]
    exact left

theorem Bound.setState (holds : Bound inventory limit) (ended : state ≠ active) :
    Bound (inventory.setState number state) limit := by
  intro earlier positive below
  rw [Inventory.fetchState_setState]
  split
  · exact ended
  · exact holds earlier positive below

theorem Settled.mono (holds : Settled swept inventory limit) (smaller : other ≤ limit) :
    Settled swept inventory other :=
  fun number positive below => holds number positive (below.trans_le smaller)

theorem Settled.max (left : Settled swept inventory limit) (right : Settled swept inventory other) :
    Settled swept inventory (max limit other) := by
  rcases Nat.le_total limit other with le | le
  · rw [Nat.max_eq_right le]
    exact right
  · rw [Nat.max_eq_left le]
    exact left

theorem Settled.not_open (holds : Settled swept inventory limit) (positive : 0 < number)
    (below : number < limit) : ¬ Open inventory number := by
  rintro (is_active | is_limbo)
  · rcases holds number positive below with state | ⟨state, -⟩ <;> rw [is_active] at state <;>
      cases state
  · rcases holds number positive below with state | ⟨state, -⟩ <;> rw [is_limbo] at state <;>
      cases state

theorem Settled.bound (holds : Settled swept inventory limit) : Bound inventory limit :=
  fun _ positive below is_active => holds.not_open positive below (.inl is_active)

theorem Settled.setState (holds : Settled swept inventory limit)
    (unsettled : Open inventory number) : Settled swept (inventory.setState number state) limit := by
  intro earlier positive below
  rw [Inventory.fetchState_setState]
  split
  · rename_i same
    exact absurd (same ▸ unsettled) (holds.not_open positive below)
  · exact holds earlier positive below

theorem Open.not_committed (unsettled : Open inventory number) :
    inventory.fetchState number ≠ committed := by
  rintro is_committed
  rcases unsettled with state | state <;> rw [is_committed] at state <;> cases state

end Bounds

/-- Up to here no transaction is active: the number the search is at, and in the end the oldest
active transaction. -/
def Transaction.floor (transaction : Transaction) : Nat :=
  match transaction.progress with
  | .copying => transaction.tra_oldest_active
  | .scanning start _ => start
  | _ => transaction.oldest_active

/-- The search for the oldest active transaction is over. -/
def Transaction.found (transaction : Transaction) : Bool :=
  match transaction.progress with
  | .copying | .scanning _ _ => false
  | _ => true

variable {tipBytes : Nat}

/-- What holds of a transaction that has begun and not ended. -/
structure Sane (swept : Nat → Prop) (inventory : Inventory) (next : Nat)
    (lck_data : Nat → Option Nat) (number : Nat) (transaction : Transaction) : Prop where
  positive : 0 < number
  born : number ≤ next
  alive : inventory.fetchState number = active
  oldest_pos : 0 < transaction.tra_oldest
  oldest_le : transaction.tra_oldest ≤ number
  oldest_floor : transaction.tra_oldest ≤ transaction.floor
  settled : Settled swept inventory transaction.tra_oldest
  floor_bound : Bound inventory transaction.floor
  /-- The vector holds what was on the pages when they were copied. -/
  vector : ∀ other, snapshotBase transaction.tra_oldest ≤ other →
    other / 4 < snapshotBase transaction.tra_oldest / 4 + transaction.tra_transactions.length →
      TipCache.Trace.Genuine inventory false other (transaction.seen other)
  /-- After the copy the vector is complete. -/
  complete : transaction.readCommitted = false → transaction.progress ≠ .copying →
    transaction.progress ≠ .running →
      World.vectorLength transaction number ≤ transaction.tra_transactions.length
  /-- The threshold never exceeds the oldest active transaction. -/
  threshold : transaction.found = true →
    transaction.tra_oldest_active ≤ transaction.oldest_active ∧ transaction.oldest_active ≤ number
  /-- The lock is held, for a snapshot with data that do not exceed its oldest active. -/
  lock : ∃ data, lck_data number = some data ∧
    (transaction.readCommitted = false → data ≤ transaction.floor)

/-- What holds of a process. -/
structure Informed (swept : Nat → Prop) (inventory : Inventory) (next : Nat)
    (process : Process tipBytes) : Prop where
  settled : Settled swept inventory process.dbb_oldest_transaction
  oldest_active : Bound inventory process.dbb_oldest_active
  active_le : process.dbb_oldest_active ≤ next
  cached : ∀ number state, process.cache.stored number = some state →
    TipCache.Trace.Genuine inventory false number state
  precommitted : ∀ number, number ≠ 0 →
    precommited process.dbb_pc_transactions number = true →
      inventory.fetchState number = committed

/-- The invariant of all interleavings. -/
structure Coherent (swept : Nat → Prop) (world : World tipBytes) : Prop where
  oldest_pos : 0 < world.hdr_oldest_transaction
  settled : Settled swept world.inventory world.hdr_oldest_transaction
  oldest_active : Bound world.inventory world.hdr_oldest_active
  active_le : world.hdr_oldest_active ≤ world.hdr_next_transaction
  unborn : ∀ number, world.hdr_next_transaction < number →
    world.inventory.fetchState number = active ∧ world.lck_data number = none
  processes : ∀ process,
    Informed swept world.inventory world.hdr_next_transaction (world.processes process)
  locks : ∀ number data, world.lck_data number = some data → 0 < data ∧ data ≤ number
  transactions : ∀ number transaction, world.transactions number = some transaction →
    Sane swept world.inventory world.hdr_next_transaction world.lck_data number transaction

/-- The cache of a process has no gap and starts no later than the oldest interesting transaction,
as the header page or the process knows it. -/
def Gapless (world : World tipBytes) (process : Nat) : Prop :=
  (world.view process).Contiguous ∧ (world.view process).Reaches (world.view process).settled

/-- A read-committed transaction searches a cache without gaps. -/
def Careful (world : World tipBytes) : Action → Prop
  | .lookup number | .interest number =>
      ∀ transaction, world.transactions number = some transaction →
        transaction.readCommitted = true → Gapless world transaction.process
  | _ => True

section Search

variable {swept : Nat → Prop} {world after : World tipBytes}

/-- Fetches keep the cache genuine. -/
theorem genuine_of_run {dbb filled : TipCache.Database tipBytes}
    (genuine : ∀ other state, dbb.cache.stored other = some state →
      TipCache.Trace.Genuine dbb.inventory dbb.readOnly other state)
    (unnoted : dbb.noted = [])
    (path : ∃ events last, TipCache.Trace.run { dbb, last := dbb.cache.stored } events =
      some { dbb := filled, last }) :
    ∀ other state, filled.cache.stored other = some state →
      TipCache.Trace.Genuine filled.inventory filled.readOnly other state := by
  have sound : TipCache.Trace.Sound { dbb, last := dbb.cache.stored } := by
    refine ⟨fun _ _ held => held, genuine, fun other state mem => ?_⟩
    rw [unnoted] at mem
    cases mem
  obtain ⟨events, last, path⟩ := path
  exact (sound.run path).cached

theorem Coherent.setCache (coherent : Coherent swept world) (process : Nat)
    {cache : TipCache tipBytes}
    (genuine : ∀ number state, cache.stored number = some state →
      TipCache.Trace.Genuine world.inventory false number state) :
    Coherent swept (world.setCache process cache) := by
  refine ⟨coherent.oldest_pos, coherent.settled, coherent.oldest_active, coherent.active_le,
    coherent.unborn, fun other => ?_, coherent.locks, coherent.transactions⟩
  have informed := coherent.processes
  rw [World.processes_setCache]
  split
  · exact ⟨(informed process).settled, (informed process).oldest_active,
      (informed process).active_le, genuine, (informed process).precommitted⟩
  · exact informed other

/-- The search knows that the transaction is not wanted, or it is settled. -/
def Clean (world : World tipBytes) (process : Nat) (wanted : TransactionState → Bool)
    (number : Nat) : Prop :=
  number < (world.view process).settled ∨
    ∃ state, TipCache.Trace.Genuine world.inventory false number state ∧ wanted state = false

/-- The outcome of a search between two numbers. -/
def Finds (world : World tipBytes) (transaction : Transaction) (wanted : TransactionState → Bool)
    (start top : Nat) : Option Nat → Prop
  | none => ∀ other, start ≤ other → other < top →
      Clean world transaction.process wanted other
  | some hit => start ≤ hit ∧ hit < top ∧
      (transaction.readCommitted = false → wanted (transaction.seen hit) = true) ∧
      ∀ other, start ≤ other → other < hit → Clean world transaction.process wanted other

theorem findFirst_spec (coherent : Coherent swept world) {number : Nat}
    {transaction : Transaction} (held : world.transactions number = some transaction)
    (gapless : transaction.readCommitted = true → Gapless world transaction.process)
    (complete : transaction.readCommitted = false →
      World.vectorLength transaction number ≤ transaction.tra_transactions.length)
    {start : Nat} (above : transaction.tra_oldest ≤ start) {wanted : TransactionState → Bool}
    {mask : UInt32} (same : ∀ state, (CachedState.onPage state).check mask = wanted state)
    (ordinary : CachedState.precommitted.check mask = false) (settled : wanted committed = false)
    {found : Option Nat}
    (result : world.findFirst transaction start number wanted mask = .ok (found, after)) :
    (∃ cache, after = world.setCache transaction.process cache ∧
      ∀ other state, cache.stored other = some state →
        TipCache.Trace.Genuine world.inventory false other state) ∧
    Finds world transaction wanted start number found := by
  have sane := coherent.transactions number transaction held
  have informed := coherent.processes transaction.process
  rw [World.findFirst] at result
  cases is_read_committed : transaction.readCommitted with
  | true =>
      rw [is_read_committed, if_pos rfl] at result
      obtain ⟨contiguous, reaches⟩ := gapless is_read_committed
      obtain ⟨outcome, dbb, search, fill, frame, ⟨front, later, pages, front_le, covered⟩, lowest⟩ :=
        TipCache.Database.findStates_spec contiguous reaches (Nat.le_refl _) start number mask
          sane.positive sane.born
      rw [search] at result
      cases result
      have cached := genuine_of_run informed.cached rfl (TipCache.Trace.initializeTpc_run fill)
      have same_inventory : dbb.inventory = world.inventory := by rw [frame]; rfl
      have writable : dbb.readOnly = false := by rw [frame]; rfl
      rw [same_inventory, writable] at cached
      refine ⟨⟨dbb.cache, rfl, cached⟩, ?_⟩
      have lowest := lowest fun wants => by
        rw [same committed, settled] at wants
        cases wants
      have clean : ∀ other, other < number →
          (∀ state, ¬ TipCache.Seen (dbb.cache.taken dbb.dbb_pc_transactions mask) mask other
            state) → Clean world transaction.process wanted other := by
        intro other below unseen
        rcases Nat.lt_or_ge other front.tpc_base with before | behind
        · exact .inl (before.trans_le front_le)
        · obtain ⟨state, stored⟩ := Option.isSome_iff_exists.mp (covered other behind below)
          refine .inr ⟨state, cached other state stored, ?_⟩
          rw [← same state]
          refine Bool.eq_false_iff.mpr fun hit => unseen (.onPage state) ⟨?_, hit⟩
          rw [TipCache.taken_of_scanned pages behind fun _ => (same committed).trans settled,
            TipCache.scanned, ordinary, stored]
          rfl
      cases outcome with
      | none => exact fun other reached below => clean other below (lowest other reached below)
      | some hit =>
          obtain ⟨reached, below, -, earlier⟩ := lowest
          refine ⟨reached, below, fun snapshot => ?_, fun other begun before =>
            clean other (before.trans below) (earlier other begun before)⟩
          rw [is_read_committed] at snapshot
          cases snapshot
  | false =>
      rw [is_read_committed, if_neg (by decide)] at result
      cases result
      refine ⟨⟨(world.processes transaction.process).cache, ?_, informed.cached⟩, ?_⟩
      · rw [World.setCache]
        simp
      have told : ∀ other, start ≤ other → other < number →
          TipCache.Trace.Genuine world.inventory false other (transaction.seen other) := by
        intro other reached below
        have full := complete is_read_committed
        rw [World.vectorLength] at full
        have := Nat.sub_le transaction.tra_oldest (transaction.tra_oldest % 4)
        refine sane.vector other ?_ ?_
        · rw [snapshotBase]
          omega
        · omega
      have unwanted : ∀ other, start ≤ other → other < number →
          (!wanted (transaction.seen other)) = true →
            Clean world transaction.process wanted other :=
        fun other reached below misses =>
          .inr ⟨transaction.seen other, told other reached below, by simpa using misses⟩
      cases search : (List.range' start (number - start)).find? fun number =>
          wanted (transaction.seen number) with
      | none =>
          intro other reached below
          refine unwanted other reached below ?_
          have misses := List.find?_eq_none.mp search other
            (List.mem_range'_1.mpr ⟨reached, by omega⟩)
          simpa using misses
      | some hit =>
          rw [List.find?_range'_eq_some] at search
          obtain ⟨hits, mem, earlier⟩ := search
          rw [List.mem_range'_1] at mem
          exact ⟨mem.1, by omega, fun _ => hits, fun other reached before =>
            unwanted other reached (by omega) (earlier other reached before)⟩

end Search

end Start
end Firebird
