import Firebird.Jrd.Tra.TipFill

/-!
# Runs of the transaction inventory cache

The cache is updated whenever the process fetches an inventory page or sets a state, while other
processes change the pages and the header.  A trace records, for every transaction, the state last
set or read; what the cache holds is that state, and a committed one is committed on the page.
-/

namespace Firebird
namespace TipCache

open TransactionState

variable {tipBytes : Nat}

/-- A process's view together with the states it has last set or read. -/
structure Trace (tipBytes : Nat) where
  dbb : Database tipBytes
  last : Nat → Option TransactionState

/-- One action on the inventory, the header page or the process's own data. -/
inductive Event where
  /-- The process fetches an inventory page. -/
  | fetch (sequence : Nat)
  /-- The last loop of `cacheTransactions`, with the header value read at its beginning. -/
  | trim (hdr_oldest : Nat)
  /-- Some process allocates the next number. -/
  | start
  /-- Some process writes the oldest interesting transaction to the header page. -/
  | advance (oldest : Nat)
  /-- The process raises its own oldest interesting transaction. -/
  | interesting (oldest : Nat)
  /-- The vector of precommitted transactions changes. -/
  | precommit (vector : Option (List Nat))
  /-- Another process sets a state. -/
  | elsewhere (number : Nat) (state : TransactionState)
  /-- `TRA_set_state` for a transaction of the process. -/
  | finish (number : Nat) (state : TransactionState)
  /-- `TRA_wait` finds that a transaction has vanished and declares it dead. -/
  | bury (number : Nat)
  /-- `TRA_wait` reads the state of a transaction that `findStates` has found on a cached page. -/
  | note (number : Nat)
  /-- `TRA_wait` stores the state it has read. -/
  | store (number : Nat) (state : TransactionState)
  deriving DecidableEq, Repr

/-- Committed and dead transactions stay that way; the others may get a new state. -/
def Database.changeable (dbb : Database tipBytes) (number : Nat) (state : TransactionState) : Bool :=
  decide (number ≤ dbb.hdr_next_transaction) && state != active &&
    (dbb.inventory.fetchState number == active || dbb.inventory.fetchState number == limbo)

/-- Set a state on the inventory page. -/
def Database.write (dbb : Database tipBytes) (number : Nat) (state : TransactionState) :
    Database tipBytes :=
  { dbb with
    inventory := dbb.inventory.setState number state
    sized := dbb.sized }

namespace Trace

/-- A fetch reads the states of all transactions on the page. -/
def fetch (trace : Trace tipBytes) (sequence : Nat) : Option (Trace tipBytes) :=
  match trace.dbb.fetchInventoryPage sequence with
  | .error _ => none
  | .ok dbb =>
      some
        { dbb
          last := fun number =>
            if number / (4 * tipBytes) = sequence then
              some (trace.dbb.inventory.fetchState number)
            else trace.last number }

/-- `TPC_set_state`. -/
def set (trace : Trace tipBytes) (number : Nat) (state : TransactionState) : Trace tipBytes where
  dbb := { trace.dbb with cache := trace.dbb.cache.setState number state }
  last := Function.update trace.last number (some state)

/-- `TRA_set_state` on a database that is not read-only: the page is fetched, the state is set on
it and in the cache before the page is released. -/
def setState (trace : Trace tipBytes) (number : Nat) (state : TransactionState) :
    Option (Trace tipBytes) :=
  (trace.fetch (number / (4 * tipBytes))).map fun fetched =>
    { fetched with dbb := fetched.dbb.write number state }.set number state

/-- Remember a state for `TPC_set_state`. -/
def remember (trace : Trace tipBytes) (number : Nat) (state : TransactionState) : Trace tipBytes :=
  { trace with dbb := { trace.dbb with noted := (number, state) :: trace.dbb.noted } }

/-- One action, if it can happen. -/
def step (trace : Trace tipBytes) : Event → Option (Trace tipBytes)
  | .fetch sequence => trace.fetch sequence
  | .trim hdr_oldest =>
      if hdr_oldest ≤ trace.dbb.hdr_oldest_transaction then
        some { trace with dbb := { trace.dbb with cache := trace.dbb.cache.trim hdr_oldest } }
      else none
  | .start =>
      if room : trace.dbb.hdr_next_transaction + 1 < MAX_TRA_NUMBER then
        some
          { trace with
            dbb :=
              { trace.dbb with
                hdr_next_transaction := trace.dbb.hdr_next_transaction + 1
                oldest_le_next := Nat.le_succ_of_le trace.dbb.oldest_le_next
                next_lt_max := room } }
      else none
  | .advance oldest =>
      if bound : trace.dbb.hdr_oldest_transaction ≤ oldest ∧
          oldest ≤ trace.dbb.hdr_next_transaction then
        some
          { trace with
            dbb :=
              { trace.dbb with hdr_oldest_transaction := oldest, oldest_le_next := bound.2 } }
      else none
  | .interesting oldest =>
      some
        { trace with
          dbb :=
            { trace.dbb with
              dbb_oldest_transaction := max trace.dbb.dbb_oldest_transaction oldest } }
  | .precommit vector =>
      some { trace with dbb := { trace.dbb with dbb_pc_transactions := vector } }
  | .elsewhere number state =>
      if trace.dbb.changeable number state then
        some { trace with dbb := trace.dbb.write number state }
      else none
  | .finish number state =>
      -- The transactions of a read-only database are precommitted from their start.
      if trace.dbb.readOnly then some trace
      else if trace.dbb.changeable number state then trace.setState number state
      else none
  | .bury number =>
      if trace.dbb.inventory.fetchState number = active then
        if trace.dbb.readOnly then some ((trace.set number dead).remember number dead)
        else (trace.setState number dead).map fun written => written.remember number dead
      else none
  | .note number =>
      match trace.dbb.cache.stored number with
      | none => none
      | some committed => some (trace.remember number committed)
      | some dead => some (trace.remember number dead)
      | some _ =>
          (trace.fetch (number / (4 * tipBytes))).map fun fetched =>
            -- A transaction that is still active is declared dead before its state is stored.
            if fetched.dbb.inventory.fetchState number = active then fetched
            else fetched.remember number (fetched.dbb.inventory.fetchState number)
  | .store number state =>
      if (number, state) ∈ trace.dbb.noted then some (trace.set number state) else none

/-- The actions of a run, one after another. -/
def run (trace : Trace tipBytes) (events : List Event) : Option (Trace tipBytes) :=
  events.foldlM step trace

/-- A state that has been read or set: committed only if it is so on the page, and of an ended
transaction only if the page says so, unless the database is read-only. -/
structure Genuine (inventory : Inventory) (readOnly : Bool) (number : Nat)
    (state : TransactionState) : Prop where
  committed_true : state = committed → inventory.fetchState number = committed
  ended : readOnly = false → state ≠ active → inventory.fetchState number ≠ active

/-- What the cache holds is what was last set or read. -/
structure Sound (trace : Trace tipBytes) : Prop where
  latest : ∀ number state, trace.dbb.cache.stored number = some state →
    trace.last number = some state
  cached : ∀ number state, trace.dbb.cache.stored number = some state →
    Genuine trace.dbb.inventory trace.dbb.readOnly number state
  noted : ∀ number state, (number, state) ∈ trace.dbb.noted →
    Genuine trace.dbb.inventory trace.dbb.readOnly number state

theorem genuine_fetchState (inventory : Inventory) (readOnly : Bool) (number : Nat) :
    Genuine inventory readOnly number (inventory.fetchState number) :=
  ⟨id, fun _ => id⟩

/-- Setting a state leaves what was read of the others genuine. -/
theorem Genuine.setState {inventory : Inventory} {readOnly : Bool} {number other : Nat}
    {state held : TransactionState} (genuine : Genuine inventory readOnly other held)
    (ended : state ≠ active) (unsettled : inventory.fetchState number ≠ committed) :
    Genuine (inventory.setState number state) readOnly other held := by
  refine ⟨fun is_committed => ?_, fun writable is_ended => ?_⟩
  · have before := genuine.committed_true is_committed
    rw [Inventory.fetchState_setState]
    split
    · rename_i same
      exact absurd (same ▸ before) unsettled
    · exact before
  · rw [Inventory.fetchState_setState]
    split
    · exact ended
    · exact genuine.ended writable is_ended

theorem sound_of_fresh {trace : Trace tipBytes} (vacant : trace.dbb.cache.m_cache = [])
    (unnoted : trace.dbb.noted = []) : Sound trace := by
  have nothing : ∀ number, trace.dbb.cache.stored number = none := by
    intro number
    rw [stored, find, vacant]
    rfl
  refine ⟨fun number state held => ?_, fun number state held => ?_, fun number state mem => ?_⟩
  · rw [nothing] at held
    cases held
  · rw [nothing] at held
    cases held
  · rw [unnoted] at mem
    cases mem

/-- The states a fetch stores are those on the page. -/
theorem stored_cachePage {dbb : Database tipBytes} {sequence number : Nat}
    {state : TransactionState} (held : (dbb.cachePage sequence).cache.stored number = some state) :
    if number / (4 * tipBytes) = sequence then state = dbb.inventory.fetchState number
    else dbb.cache.stored number = some state := by
  have copied : (pageCopy dbb.inventory sequence).length = tipBytes := by
    rw [length_pageCopy, dbb.sized]
  have read := @stored_updateCache tipBytes dbb.cache dbb.dbb_oldest_transaction sequence
    (pageCopy dbb.inventory sequence) copied number dbb.positive state held
  split
  · rename_i on_page
    rw [if_pos on_page] at read
    have whole := traState_pageCopy dbb.inventory number
    rw [Inventory.transPerTIP, dbb.sized, on_page] at whole
    rw [read, whole]
  · rename_i elsewhere
    rw [if_neg elsewhere] at read
    exact read

theorem fetch_eq_some {trace after : Trace tipBytes} {sequence : Nat}
    (fetched : trace.fetch sequence = some after) :
    after =
      { dbb := trace.dbb.cachePage sequence
        last := fun number =>
          if number / (4 * tipBytes) = sequence then
            some (trace.dbb.inventory.fetchState number)
          else trace.last number } := by
  rw [fetch, Database.fetchInventoryPage] at fetched
  by_cases exists_page : sequence ≤ trace.dbb.hdr_next_transaction / (4 * tipBytes)
  · simp only [if_pos exists_page] at fetched
    exact (Option.some.inj fetched).symm
  · simp only [if_neg exists_page] at fetched
    cases fetched

theorem Sound.fetch {trace after : Trace tipBytes} (sound : Sound trace) {sequence : Nat}
    (fetched : trace.fetch sequence = some after) : Sound after := by
  rw [fetch_eq_some fetched]
  refine ⟨fun number state held => ?_, fun number state held => ?_, sound.noted⟩
  · have read := stored_cachePage held
    split at read
    · rename_i on_page
      simp only [if_pos on_page, read]
    · rename_i elsewhere
      simp only [if_neg elsewhere]
      exact sound.latest number state read
  · have read := stored_cachePage held
    split at read
    · rw [read]
      exact genuine_fetchState _ _ number
    · exact sound.cached number state read

theorem last_set (trace : Trace tipBytes) (number other : Nat) (state : TransactionState) :
    (trace.set number state).last other =
      if other = number then some state else trace.last other :=
  Function.update_apply _ _ _ _

/-- `TPC_set_state` with a state that was read or set. -/
theorem Sound.set {trace : Trace tipBytes} (sound : Sound trace) {number : Nat}
    {state : TransactionState} (genuine : Genuine trace.dbb.inventory trace.dbb.readOnly number state) :
    Sound (trace.set number state) := by
  have stored_eq := stored_setState trace.dbb.positive trace.dbb.cache number
  refine ⟨fun other held_state held => ?_, fun other held_state held => ?_, sound.noted⟩
  · rw [Trace.set, stored_eq] at held
    rw [last_set]
    by_cases same : other = number
    · rw [if_pos same, Option.map_eq_some_iff] at held
      obtain ⟨_, -, rfl⟩ := held
      rw [if_pos same]
    · rw [if_neg same] at held
      rw [if_neg same]
      exact sound.latest other held_state held
  · rw [Trace.set, stored_eq] at held
    by_cases same : other = number
    · rw [if_pos same, Option.map_eq_some_iff] at held
      obtain ⟨_, -, rfl⟩ := held
      rw [same]
      exact genuine
    · rw [if_neg same] at held
      exact sound.cached other held_state held

/-- A change of the inventory that leaves committed transactions alone. -/
theorem Sound.write {trace : Trace tipBytes} (sound : Sound trace) {number : Nat}
    {state : TransactionState} (ended : state ≠ active)
    (unsettled : trace.dbb.inventory.fetchState number ≠ committed) :
    Sound { trace with dbb := trace.dbb.write number state } := by
  exact ⟨sound.latest,
    fun other held_state held => (sound.cached other held_state held).setState ended unsettled,
    fun other held_state mem => (sound.noted other held_state mem).setState ended unsettled⟩

theorem Sound.setState {trace after : Trace tipBytes} (sound : Sound trace) {number : Nat}
    {state : TransactionState} (ended : state ≠ active)
    (unsettled : trace.dbb.inventory.fetchState number ≠ committed)
    (result : trace.setState number state = some after) :
    Sound after ∧ Genuine after.dbb.inventory after.dbb.readOnly number state := by
  rw [Trace.setState, Option.map_eq_some_iff] at result
  obtain ⟨fetched, read, rfl⟩ := result
  have fetched_sound := sound.fetch read
  have same_inventory : fetched.dbb.inventory = trace.dbb.inventory := by
    rw [fetch_eq_some read]
    rfl
  rw [← same_inventory] at unsettled
  have genuine : Genuine (fetched.dbb.inventory.setState number state) fetched.dbb.readOnly number
      state := by
    have stored := genuine_fetchState (fetched.dbb.inventory.setState number state)
      fetched.dbb.readOnly number
    rw [Inventory.fetchState_setState, if_pos rfl] at stored
    exact stored
  exact ⟨(fetched_sound.write ended unsettled).set genuine, genuine⟩

theorem unsettled_of_changeable {dbb : Database tipBytes} {number : Nat}
    {state : TransactionState} (changeable : dbb.changeable number state = true) :
    state ≠ active ∧ dbb.inventory.fetchState number ≠ committed := by
  simp only [Database.changeable, Bool.and_eq_true, Bool.or_eq_true, beq_iff_eq, bne_iff_ne,
    decide_eq_true_eq] at changeable
  refine ⟨changeable.1.2, ?_⟩
  rcases changeable.2 with is_active | is_limbo
  · rw [is_active]
    decide
  · rw [is_limbo]
    decide

theorem Sound.remember {trace : Trace tipBytes} (sound : Sound trace) {number : Nat}
    {state : TransactionState} (genuine : Genuine trace.dbb.inventory trace.dbb.readOnly number state) :
    Sound (trace.remember number state) := by
  refine ⟨sound.latest, sound.cached, fun other held mem => ?_⟩
  rw [Trace.remember, List.mem_cons, Prod.mk.injEq] at mem
  rcases mem with ⟨rfl, rfl⟩ | mem
  · exact genuine
  · exact sound.noted other held mem

/-- What one action preserves. -/
theorem Sound.step {trace after : Trace tipBytes} (sound : Sound trace) {event : Event}
    (taken : trace.step event = some after) : Sound after := by
  cases event with
  | fetch sequence => exact sound.fetch taken
  | trim hdr_oldest =>
      rw [Trace.step, Option.ite_none_right_eq_some] at taken
      obtain ⟨-, made⟩ := taken
      cases made
      exact ⟨fun number state held => sound.latest number state (stored_of_dropFront held),
        fun number state held => sound.cached number state (stored_of_dropFront held),
        sound.noted⟩
  | start =>
      rw [Trace.step] at taken
      split at taken
      · cases taken
        exact ⟨sound.latest, sound.cached, sound.noted⟩
      · cases taken
  | advance oldest =>
      rw [Trace.step] at taken
      split at taken
      · cases taken
        exact ⟨sound.latest, sound.cached, sound.noted⟩
      · cases taken
  | interesting oldest =>
      cases taken
      exact ⟨sound.latest, sound.cached, sound.noted⟩
  | precommit vector =>
      cases taken
      exact ⟨sound.latest, sound.cached, sound.noted⟩
  | elsewhere number state =>
      rw [Trace.step, Option.ite_none_right_eq_some] at taken
      obtain ⟨changeable, made⟩ := taken
      cases made
      have open_state := unsettled_of_changeable changeable
      exact sound.write open_state.1 open_state.2
  | finish number state =>
      rw [Trace.step] at taken
      split at taken
      · cases taken
        exact sound
      · rw [Option.ite_none_right_eq_some] at taken
        have open_state := unsettled_of_changeable taken.1
        exact (sound.setState open_state.1 open_state.2 taken.2).1
  | bury number =>
      rw [Trace.step, Option.ite_none_right_eq_some] at taken
      obtain ⟨is_active, taken⟩ := taken
      split at taken
      · rename_i read_only
        cases taken
        have genuine : Genuine trace.dbb.inventory trace.dbb.readOnly number dead :=
          ⟨fun is_committed => absurd is_committed (by decide), fun writable => by
            rw [read_only] at writable
            cases writable⟩
        exact (sound.set genuine).remember genuine
      · rw [Option.map_eq_some_iff] at taken
        obtain ⟨written, set, rfl⟩ := taken
        obtain ⟨written_sound, genuine⟩ :=
          sound.setState (by decide) (by rw [is_active]; decide) set
        exact written_sound.remember genuine
  | note number =>
      rw [Trace.step] at taken
      split at taken
      · cases taken
      · rename_i held
        cases taken
        exact sound.remember (sound.cached number committed held)
      · rename_i held
        cases taken
        exact sound.remember (sound.cached number dead held)
      · rw [Option.map_eq_some_iff] at taken
        obtain ⟨fetched, read, rfl⟩ := taken
        have fetched_sound := sound.fetch read
        split
        · exact fetched_sound
        · exact fetched_sound.remember (genuine_fetchState _ _ number)
  | store number state =>
      rw [Trace.step, Option.ite_none_right_eq_some] at taken
      obtain ⟨mem, made⟩ := taken
      cases made
      exact sound.set (sound.noted number state mem)

/-- What a whole run preserves. -/
theorem Sound.run {trace after : Trace tipBytes} (sound : Sound trace) {events : List Event}
    (path : trace.run events = some after) : Sound after := by
  induction events generalizing trace with
  | nil =>
      cases path
      exact sound
  | cons event events ih =>
      rw [Trace.run, List.foldlM_cons] at path
      obtain ⟨next, taken, rest⟩ := Option.bind_eq_some_iff.mp path
      exact ih (sound.step taken) rest

end Trace
end TipCache
end Firebird
