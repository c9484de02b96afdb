import Firebird.Jrd.Tra.StartStep

/-!
# Runs from an opened database
-/

namespace Firebird
namespace Start

open TransactionState

variable {tipBytes : Nat} {swept : Nat → Prop} {world : World tipBytes}

/-- What can happen from a world on, by allowed actions only. -/
inductive Run (allowed : World tipBytes → Action → Prop) (start : World tipBytes) :
    World tipBytes → Prop where
  | refl : Run allowed start start
  | step {world after : World tipBytes} (action : Action) : Run allowed start world →
      allowed world action → world.step action = some after → Run allowed start after

/-- One action after the other. -/
def World.run {tipBytes : Nat} (world : World tipBytes) : List Action → Option (World tipBytes)
  | [] => some world
  | action :: rest => (world.step action).bind (·.run rest)

theorem run_of_actions {tipBytes : Nat} {start world after : World tipBytes}
    {actions : List Action} (begun : Run (fun _ _ => True) start world)
    (taken : world.run actions = some after) : Run (fun _ _ => True) start after := by
  induction actions generalizing world with
  | nil =>
      cases taken
      exact begun
  | cons action rest induction =>
      rw [World.run, Option.bind_eq_some_iff] at taken
      obtain ⟨next, stepped, rest_taken⟩ := taken
      exact induction (begun.step action trivial stepped) rest_taken

/-- A database that has just been opened.  No transaction has begun, but transaction 1 of a new
database, which begins below the oldest transaction of its header page. -/
structure Opened (world : World tipBytes) : Prop where
  oldest_pos : 0 < world.hdr_oldest_transaction
  oldest : ∀ number, 0 < number → number < world.hdr_oldest_transaction →
    world.inventory.fetchState number = committed ∨ world.inventory.fetchState number = dead
  oldest_active : Bound world.inventory world.hdr_oldest_active
  oldest_snapshot : Bound world.inventory world.hdr_oldest_snapshot
  active_le : world.hdr_oldest_active ≤ world.hdr_next_transaction
  unborn : ∀ number, world.hdr_next_transaction < number →
    world.inventory.fetchState number = active
  processes : ∀ process,
    (world.processes process).dbb_oldest_transaction ≤ world.hdr_oldest_transaction ∧
      (world.processes process).dbb_oldest_active ≤ world.hdr_oldest_active ∧
      (world.processes process).dbb_oldest_snapshot ≤ world.hdr_oldest_snapshot ∧
      (world.processes process).dbb_pc_transactions = none ∧
      (world.processes process).cache = TipCache.empty tipBytes
  transactions : ∀ number transaction, world.transactions number = some transaction →
    number = 1 ∧ world.hdr_next_transaction = 1 ∧ world.inventory.fetchState 1 = active ∧
      transaction = world.begun transaction.process transaction.readCommitted
  lck_data : ∀ number, world.lck_data number = (world.transactions number).map fun transaction =>
    world.provisional transaction.readCommitted

theorem Opened.settled (opened : Opened world) :
    Settled (fun _ => True) world.inventory world.hdr_oldest_transaction :=
  fun number positive below => (opened.oldest number positive below).imp_right (⟨·, trivial⟩)

theorem Opened.coherent (opened : Opened world)
    (settled : Settled swept world.inventory world.hdr_oldest_transaction) :
    Coherent swept world := by
  refine ⟨opened.oldest_pos, settled, opened.oldest_active, opened.active_le,
    fun number late => ⟨opened.unborn number late, ?_⟩, fun process => ?_,
    fun number data locked => ?_, fun number transaction held => ?_⟩
  · rw [opened.lck_data, Option.map_eq_none_iff, Option.eq_none_iff_forall_ne_some]
    intro transaction held
    obtain ⟨rfl, next, -⟩ := opened.transactions number transaction held
    omega
  · obtain ⟨oldest, oldest_active, -, precommitted, cache⟩ := opened.processes process
    refine ⟨settled.mono oldest, opened.oldest_active.mono oldest_active,
      oldest_active.trans opened.active_le, fun number state stored => ?_,
      fun number _ listed => ?_⟩
    · rw [cache] at stored
      cases stored
    · rw [precommitted] at listed
      cases listed
  · rw [opened.lck_data, Option.map_eq_some_iff] at locked
    obtain ⟨transaction, held, rfl⟩ := locked
    obtain ⟨rfl, next, -⟩ := opened.transactions number transaction held
    exact ⟨provisional_pos opened.oldest_pos _, (provisional_le opened.active_le _).trans_eq next⟩
  · obtain ⟨rfl, next, alive, as_begun⟩ := opened.transactions number transaction held
    have locked : world.lck_data world.hdr_next_transaction =
        some (world.provisional transaction.readCommitted) := by
      rw [next, opened.lck_data, held]
      rfl
    have sane := @sane_begun tipBytes swept world opened.oldest_pos settled
      opened.oldest_active (next ▸ alive) world.lck_data transaction.process _ locked
    rw [next] at sane ⊢
    rw [as_begun]
    exact sane

/-- A database whose transactions, with numbers up to 3, have all committed. -/
def quietWorld : World 1 where
  inventory :=
    { tipBytes := 1
      tipBytes_pos := Nat.one_pos
      tip_transactions sequence _ := if sequence = 0 then 0xFF else 0 }
  sized := rfl
  hdr_oldest_transaction := 3
  hdr_oldest_active := 3
  hdr_oldest_snapshot := 3
  hdr_next_transaction := 3
  oldest_le_next := Nat.le_refl 3
  next_lt_max := by decide
  processes _ :=
    { dbb_oldest_transaction := 0
      dbb_oldest_active := 0
      dbb_oldest_snapshot := 0
      dbb_pc_transactions := none
      cache := TipCache.empty 1 }
  transactions _ := none
  lck_data _ := none

theorem opened_quietWorld : Opened quietWorld := by
  have finished : ∀ number < 4, quietWorld.inventory.fetchState number = committed := by decide
  have settled : ∀ number < 3, quietWorld.inventory.fetchState number = committed :=
    fun number below => finished number (below.trans (Nat.lt_succ_self 3))
  have bound : Bound quietWorld.inventory 3 := by
    intro number _ below is_active
    cases (settled number below).symm.trans is_active
  refine ⟨by decide, fun number _ below => .inl (settled number below), bound, bound,
    Nat.le_refl 3,
    fun number late => ?_, fun _ => ⟨Nat.zero_le 3, Nat.zero_le 3, Nat.zero_le 3, rfl, rfl⟩,
    fun _ _ held => (nomatch held), fun _ => rfl⟩
  have late : 3 < number := late
  have not_first : number / 4 ≠ 0 := by omega
  change stateInByte (if number / 4 = 0 then 0xFF else 0) number = active
  rw [if_neg not_first]
  exact stateInByte_zero number

end Start
end Firebird
