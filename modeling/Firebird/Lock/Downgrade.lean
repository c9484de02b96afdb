import Firebird.Lock.Granting
import Firebird.Lock.Run

/-!
# Downgrading a lock

`downgrade` lowers a request to a level that the waiting requests of its lock can live with.  It sums
the waiting requests up in the highest level that one of them asks for, and leaves it to
`internal_convert` to bring the request to the level found.
-/

namespace Firebird
namespace LockManager

namespace Table

/-- The level that the loop of `downgrade` arrives at. -/
def downgradedLevel (table : Table) (request : Nat) : Level :=
  lowerLevel
    (table.pendingState request
      (table.locks (table.requests request).lrq_lock).lbl_requests .none) 6
    (table.requests request).lrq_state

/-- `downgrade` with its answer, called for a request whose owner may have left. -/
def downgradeCall (table : Table) (request : Nat) : Table × Level :=
  if (table.owners (table.requests request).lrq_owner).own_count = 0 then
    (table, .none)
  else
    let state := table.downgradedLevel request
    (table.downgrade request, if state = .none ∨ state = .null then .none else state)

/-! ## What it should come to -/

/-- The levels that other requests for the lock wait for. -/
def Awaited (table : Table) (request : Nat) (level : Level) : Prop :=
  ∃ pending ∈ (table.locks (table.requests request).lrq_lock).lbl_requests,
    (table.requests pending).pending = true ∧ pending ≠ request ∧
      (table.requests pending).lrq_requested = level

/-- The levels that stand in the way of nothing that is waited for. -/
def Unobstructive (table : Table) (request : Nat) (level : Level) : Prop :=
  ∀ awaited, table.Awaited request awaited → compatibility awaited level = true

/-- The strongest level not above the one a request has that obstructs nothing. -/
structure Strongest (table : Table) (request : Nat) (level : Level) : Prop where
  le : level.code ≤ (table.requests request).lrq_state.code
  unobstructive : table.Unobstructive request level
  greatest : ∀ other : Level, other.code ≤ (table.requests request).lrq_state.code →
    table.Unobstructive request other → other.code ≤ level.code

/-- The request holds the strongest level that obstructs nothing, or it is released because that
level is no lock. -/
def Yielded (before : Table) (request : Nat) (after : Table) : Prop :=
  if (after.requests request).in_use then
    before.Strongest request (after.requests request).lrq_state
  else
    ∃ level, before.Strongest request level ∧ level.code ≤ Level.null.code

/-- Shared write and protected read are both waited for, and nothing stronger is. -/
def Mixed (table : Table) (request : Nat) : Prop :=
  table.Awaited request .PR ∧ table.Awaited request .SW ∧ ¬table.Awaited request .PW ∧
    ¬table.Awaited request .EX

/-- The state of the lock without the request. -/
def stateWithout (table : Table) (request : Nat) : Level :=
  lockState (((table.withdraw (table.requests request).lrq_lock request).locks
    (table.requests request).lrq_lock).lbl_counts)

end Table

/-! ## The levels -/

namespace Level

theorem code_injective : ∀ first second : Level, first.code = second.code → first = second := by
  intro first second
  cases first <;> cases second <;> decide

theorem code_max (first second : Level) : (first.max second).code = Nat.max first.code second.code := by
  rw [Level.max]
  split
  · next less => exact (Nat.max_eq_left (Nat.le_of_lt less)).symm
  · next less => exact (Nat.max_eq_right (Nat.not_lt.mp less)).symm

theorem code_le (level : Level) : level.code ≤ Level.EX.code := by
  cases level <;> decide

end Level

/-- The loop finds the strongest level below the former one that fits the highest level awaited. -/
theorem lowerLevel_spec : ∀ pending_state state : Level,
    (Table.lowerLevel pending_state 6 state).code ≤ state.code ∧
      compatibility pending_state (Table.lowerLevel pending_state 6 state) = true ∧
      ∀ other : Level, other.code ≤ state.code → compatibility pending_state other = true →
        other.code ≤ (Table.lowerLevel pending_state 6 state).code := by
  intro pending_state state
  refine ⟨?_, ?_, fun other => ?_⟩
  · cases pending_state <;> cases state <;> decide
  · cases pending_state <;> cases state <;> decide
  · cases pending_state <;> cases state <;> cases other <;> decide

/-- Only shared write fits a level and not a lower one. -/
theorem compatibility_lower : ∀ lower upper level : Level, lower.code ≤ upper.code →
    compatibility upper level = true → compatibility lower level = false →
      lower = .PR ∧ upper = .SW ∧ level = .SW := by
  intro lower upper level
  cases lower <;> cases upper <;> cases level <;> decide

/-- Nothing that fits shared write is above it, and nothing that is not below it fits protected
read. -/
theorem compatibility_shared : ∀ level : Level, Level.SW.code ≤ level.code →
    compatibility .PR level = false ∧ (compatibility .SW level = true → level = .SW) := by
  intro level
  cases level <;> decide

/-! ## The highest level awaited -/

namespace Table

variable {table : Table} {request : Nat}

theorem max_eq (first second : Level) : first.max second = first ∨ first.max second = second := by
  rw [Level.max]
  split
  · exact .inl rfl
  · exact .inr rfl

/-- The first loop of `downgrade` finds the highest level that is asked for. -/
theorem pendingState_spec (queue : List Nat) (start : Level) :
    start.code ≤ (table.pendingState request queue start).code ∧
      (∀ pending ∈ queue, (table.requests pending).pending = true → pending ≠ request →
        (table.requests pending).lrq_requested.code ≤
          (table.pendingState request queue start).code) ∧
      (table.pendingState request queue start = start ∨
        ∃ pending ∈ queue, (table.requests pending).pending = true ∧ pending ≠ request ∧
          (table.requests pending).lrq_requested = table.pendingState request queue start) := by
  induction queue generalizing start with
  | nil => exact ⟨Nat.le_refl _, fun _ member => absurd member List.not_mem_nil, .inl rfl⟩
  | cons other queue ih =>
      rw [pendingState]
      split
      · next waits =>
          have code := Level.code_max (table.requests other).lrq_requested start
          dsimp only
          split
          · next exclusive =>
              refine ⟨Level.code_le start, fun pending _ _ _ => Level.code_le _, ?_⟩
              rcases max_eq (table.requests other).lrq_requested start with same | same
              · exact .inr ⟨other, List.mem_cons_self, waits.1, waits.2, same.symm.trans exclusive⟩
              · exact .inl (exclusive.symm.trans same)
          · obtain ⟨above, highest, attained⟩ :=
              ih ((table.requests other).lrq_requested.max start)
            rw [code] at above
            refine ⟨Nat.le_trans (Nat.le_max_right _ _) above, ?_, ?_⟩
            · intro pending member pends differ
              rcases List.mem_cons.mp member with rfl | member
              · exact Nat.le_trans (Nat.le_max_left _ _) above
              · exact highest pending member pends differ
            · rcases attained with same | ⟨pending, member, found⟩
              · rw [same]
                rcases max_eq (table.requests other).lrq_requested start with same | same
                · exact .inr ⟨other, List.mem_cons_self, waits.1, waits.2, same.symm⟩
                · exact .inl same
              · exact .inr ⟨pending, List.mem_cons_of_mem _ member, found⟩
      · next skipped =>
          obtain ⟨above, highest, attained⟩ := ih start
          refine ⟨above, ?_, ?_⟩
          · intro pending member pends differ
            rcases List.mem_cons.mp member with rfl | member
            · exact absurd ⟨pends, differ⟩ skipped
            · exact highest pending member pends differ
          · rcases attained with same | ⟨pending, member, found⟩
            · exact .inl same
            · exact .inr ⟨pending, List.mem_cons_of_mem _ member, found⟩

/-- The level found is as strong as any that obstructs nothing. -/
theorem downgradedLevel_greatest {level : Level}
    (le : level.code ≤ (table.requests request).lrq_state.code)
    (unobstructive : table.Unobstructive request level) :
    level.code ≤ (table.downgradedLevel request).code := by
  obtain ⟨-, -, attained⟩ := @pendingState_spec table request
    (table.locks (table.requests request).lrq_lock).lbl_requests .none
  refine (lowerLevel_spec _ _).2.2 level le ?_
  rcases attained with same | ⟨pending, found⟩
  · rw [same]
    cases level <;> rfl
  · exact unobstructive _ ⟨pending, found⟩

/-- The level found obstructs nothing, except that shared write obstructs protected read. -/
theorem downgradedLevel_unobstructive :
    table.Unobstructive request (table.downgradedLevel request) ∨
      table.Mixed request ∧ table.downgradedLevel request = .SW := by
  rw [or_iff_not_imp_left]
  intro obstructive
  obtain ⟨awaited, waits, refused⟩ : ∃ awaited, table.Awaited request awaited ∧
      compatibility awaited (table.downgradedLevel request) = false := by
    simpa [Unobstructive] using obstructive
  obtain ⟨-, highest, attained⟩ := @pendingState_spec table request
    (table.locks (table.requests request).lrq_lock).lbl_requests .none
  have below : ∀ level, table.Awaited request level → level.code ≤
      (table.pendingState request (table.locks (table.requests request).lrq_lock).lbl_requests
        .none).code := by
    rintro _ ⟨pending, member, pends, differ, rfl⟩
    exact highest pending member pends differ
  obtain ⟨read, top, found⟩ :=
    compatibility_lower _ _ _ (below awaited waits) (lowerLevel_spec _ _).2.1 refused
  rw [top] at attained below
  refine ⟨⟨read ▸ waits, ?_, fun stronger => ?_, fun stronger => ?_⟩, found⟩
  · rcases attained with empty | ⟨pending, attained⟩
    · cases empty
    · exact ⟨pending, attained⟩
  · exact absurd (below _ stronger) (by decide)
  · exact absurd (below _ stronger) (by decide)

/-- Where shared write and protected read are both waited for, the loop stops at shared write. -/
theorem downgradedLevel_mixed (mixed : table.Mixed request)
    (strong : Level.SW.code ≤ (table.requests request).lrq_state.code) :
    table.downgradedLevel request = .SW := by
  obtain ⟨-, write, no_protected, no_exclusive⟩ := mixed
  obtain ⟨-, highest, attained⟩ := @pendingState_spec table request
    (table.locks (table.requests request).lrq_lock).lbl_requests .none
  obtain ⟨pending, member, pends, differ, requested⟩ := write
  have above := highest pending member pends differ
  rw [requested] at above
  have top : table.pendingState request
      (table.locks (table.requests request).lrq_lock).lbl_requests .none = .SW := by
    have awaited : table.Awaited request (table.pendingState request
        (table.locks (table.requests request).lrq_lock).lbl_requests .none) := by
      rcases attained with empty | found
      · rw [empty] at above
        exact absurd above (by decide)
      · exact found
    cases level : table.pendingState request
        (table.locks (table.requests request).lrq_lock).lbl_requests .none with
    | SW => rfl
    | PW => exact absurd (level ▸ awaited) no_protected
    | EX => exact absurd (level ▸ awaited) no_exclusive
    | _ =>
        rw [level] at above
        exact absurd above (by decide)
  rw [downgradedLevel, top]
  cases state : (table.requests request).lrq_state <;> rw [state] at strong <;>
    first
    | rfl
    | exact absurd strong (by decide)

end Table

/-! ## What becomes of the request -/

namespace Table

variable {table : Table} {request : Nat}

theorem downgrade_eq (table : Table) (request : Nat) : table.downgrade request =
    if table.downgradedLevel request = .none ∨ table.downgradedLevel request = .null then
      table.internalDequeue request
    else (table.internalConvert request (table.downgradedLevel request) .noWait
      (table.requests request).lrq_ast_routine).1 :=
  rfl

/-- Without a wait `internal_convert` changes the level of a request or leaves it. -/
theorem internalConvert_noWait (type : Level) (ast_routine : Bool) :
    (((table.internalConvert request type .noWait ast_routine).1.requests request).in_use =
        (table.requests request).in_use) ∧
      ((table.internalConvert request type .noWait ast_routine).1.requests request).lrq_state =
        if compatibility type (table.stateWithout request) then type
        else (table.requests request).lrq_state := by
  have counts : lockState ((((table.setRequest request fun block =>
      { block with lrq_requested := type, blocking_seen := false }).withdraw
        (table.requests request).lrq_lock request).locks
          (table.requests request).lrq_lock).lbl_counts) = table.stateWithout request := by
    simp [stateWithout, withdraw]
  rw [internalConvert]
  dsimp only
  rw [counts]
  split
  · have idle (middle : Table) : ((middle.grant request).requests request).pending = false := by
      rw [requests_grant, Function.update_self]
      rfl
    rw [field_postPending Request.in_use (fun _ => rfl) (idle _),
      field_postPending Request.lrq_state (fun _ => rfl) (idle _), requests_grant,
      Function.update_self]
    constructor
    · simp [Request.afterGrant, withdraw]
    · simp [Request.afterGrant, withdraw]
  · rw [if_neg (by simp)]
    constructor
    · simp
    · simp

/-! ## When a downgrade does what it should -/

theorem Strongest.unique {first second : Level} (one : table.Strongest request first)
    (other : table.Strongest request second) : first = second :=
  Level.code_injective _ _ (Nat.le_antisymm (other.greatest first one.le one.unobstructive)
    (one.greatest second other.le other.unobstructive))

/-- The level the loop arrives at is the strongest that obstructs nothing, unless shared write and
protected read are both waited for and the request was not below them. -/
theorem strongest_downgradedLevel
    (plain : ¬(table.Mixed request ∧ Level.SW.code ≤ (table.requests request).lrq_state.code)) :
    table.Strongest request (table.downgradedLevel request) := by
  have le : (table.downgradedLevel request).code ≤ (table.requests request).lrq_state.code :=
    (lowerLevel_spec _ _).1
  refine ⟨le, ?_, fun _ below => downgradedLevel_greatest below⟩
  rcases @downgradedLevel_unobstructive table request with unobstructive | ⟨mixed, write⟩
  · exact unobstructive
  · exact absurd ⟨mixed, write ▸ le⟩ plain

/-- Where protected read is awaited, no level from shared write on obstructs nothing. -/
theorem Mixed.obstructive (mixed : table.Mixed request) {level : Level}
    (strong : Level.SW.code ≤ level.code) : ¬table.Unobstructive request level := fun unobstructive =>
  absurd (unobstructive _ mixed.1) (by rw [(compatibility_shared level strong).1]; decide)

/-- The call brings the request to the strongest level that obstructs nothing exactly when, for an
owner that is still there, the levels awaited are not mixed with the request at shared write or
above, and the strongest level is no lock, the present one, or one that fits the other granted
requests. -/
theorem downgradeCall_yields_iff (table : Table) (request : Nat)
    (in_use : (table.requests request).in_use = true) :
    table.Yielded request (table.downgradeCall request).1 ↔
      if (table.owners (table.requests request).lrq_owner).own_count = 0 then
        table.Unobstructive request (table.requests request).lrq_state
      else
        ¬(table.Mixed request ∧ Level.SW.code ≤ (table.requests request).lrq_state.code) ∧
          ∀ level, table.Strongest request level → level.code ≤ Level.null.code ∨
            level = (table.requests request).lrq_state ∨
              compatibility level (table.stateWithout request) = true := by
  rw [downgradeCall]
  split
  · rw [Yielded, if_pos in_use]
    exact ⟨fun strongest => strongest.unobstructive, fun unobstructive =>
      ⟨Nat.le_refl _, unobstructive, fun _ le _ => le⟩⟩
  dsimp only
  rw [downgrade_eq]
  by_cases weak : table.downgradedLevel request = .none ∨ table.downgradedLevel request = .null
  · -- The request is released.
    have low : (table.downgradedLevel request).code ≤ Level.null.code := by
      rcases weak with level | level <;> rw [level] <;> decide
    have plain : ¬(table.Mixed request ∧
        Level.SW.code ≤ (table.requests request).lrq_state.code) := fun mixed => by
      rw [downgradedLevel_mixed mixed.1 mixed.2] at low
      exact absurd low (by decide)
    have strongest := strongest_downgradedLevel plain
    have released : ((table.internalDequeue request).requests request).in_use = false :=
      in_use_releaseRequest _ request
    rw [if_pos weak, Yielded, if_neg (by rw [released]; decide)]
    refine ⟨fun _ => ⟨plain, fun level found => .inl ?_⟩, fun _ => ⟨_, strongest, low⟩⟩
    rw [found.unique strongest]
    exact low
  · obtain ⟨kept, state⟩ := @internalConvert_noWait table request (table.downgradedLevel request)
      (table.requests request).lrq_ast_routine
    have high : ¬(table.downgradedLevel request).code ≤ Level.null.code := by
      cases level : table.downgradedLevel request <;> simp_all [Level.code]
    rw [if_neg weak, Yielded, kept, if_pos in_use, state]
    constructor
    · intro strongest
      have plain : ¬(table.Mixed request ∧
          Level.SW.code ≤ (table.requests request).lrq_state.code) := by
        rintro ⟨mixed, strong⟩
        rw [downgradedLevel_mixed mixed strong] at strongest
        refine mixed.obstructive ?_ strongest.unobstructive
        split
        · exact Nat.le_refl _
        · exact strong
      have target := strongest_downgradedLevel plain
      refine ⟨plain, fun level found => ?_⟩
      rw [found.unique target]
      by_cases fits : compatibility (table.downgradedLevel request) (table.stateWithout request)
      · exact .inr (.inr fits)
      · rw [if_neg fits] at strongest
        exact .inr (.inl (target.unique strongest))
    · rintro ⟨plain, meets⟩
      have target := strongest_downgradedLevel plain
      rcases meets _ target with low | same | fits
      · exact absurd low high
      · rw [same, ite_self, ← same]
        exact target
      · rw [if_pos fits]
        exact target

end Table

/-- Three owners, the first of which holds a lock at shared write. -/
def writer : Table :=
  ((((Table.initial.createOwner 0).createOwner 1).createOwner 2).allocRequest none 0 .SW true
    0).createLock 0 0 0 [] .SW 0

/-- A request that comes without a prior one, for the lock of `writer`. -/
def joined (table : Table) (request : Nat) (type : Level) (lck_wait : Wait) : Table :=
  ((table.allocRequest none request type true request).enqueueLock request 0 0 lck_wait).1

/-- The third owner waits for protected read while the first holds shared write. -/
def readerWaits : Table := joined writer 2 .PR .wait

/-- The third owner waits for protected read while both others hold shared write. -/
def readerWaitsForTwo : Table := joined (joined writer 1 .SW .noWait) 2 .PR .wait

theorem downgradeCall_yields_readerWaits :
    readerWaits.Yielded 0 (readerWaits.downgradeCall 0).1 := by
  refine (readerWaits.downgradeCall_yields_iff 0 rfl).mpr ?_
  rw [if_neg (by decide)]
  refine ⟨fun mixed => ?_, fun level _ => .inr (.inr ?_)⟩
  · obtain ⟨pending, member, pends, differ, requested⟩ := mixed.1.2.1
    have last : pending = 2 := by
      rcases List.mem_pair.mp (show pending ∈ [0, 2] from member) with rfl | rfl
      · exact absurd rfl differ
      · rfl
    rw [last] at requested
    exact absurd requested (by decide)
  · cases level <;> rfl

theorem readerWaitsForTwo_reachable : Reachable (fun _ => True) readerWaitsForTwo := by
  have owners : Reachable (fun _ => True)
      (((Table.initial.createOwner 0).createOwner 1).createOwner 2) := by
    refine .step (.step (.step (.initial trivial) (.createOwner ?_) trivial) (.createOwner ?_)
      trivial) (.createOwner ?_) trivial
    · decide
    · decide
    · decide
  have held : Reachable (fun _ => True) writer :=
    owners.step (.createLock (by decide) (by decide) (fun block found => nomatch found) rfl rfl
      (by decide)) trivial
  have both : Reachable (fun _ => True) (joined writer 1 .SW .noWait) :=
    held.step (@Step.enqueueLock _ none _ _ _ 0 [] _ _ _ _ (by decide) (by decide)
      (fun block found => nomatch found) rfl rfl) trivial
  exact both.step (@Step.enqueueLock _ none _ _ _ 0 [] _ _ _ _ (by decide) (by decide)
    (fun block found => nomatch found) rfl rfl) trivial

/-- A shared writer among two cannot become a protected reader and stays where it was. -/
theorem downgradeCall_obstructs : ¬∀ table request, Reachable (fun _ => True) table →
    (table.requests request).in_use = true →
      (table.owners (table.requests request).lrq_owner).own_count ≠ 0 →
        table.Yielded request (table.downgradeCall request).1 := by
  intro yields
  have yielded := yields readerWaitsForTwo 0 readerWaitsForTwo_reachable rfl (by decide)
  have stays : ((readerWaitsForTwo.downgradeCall 0).1.requests 0).lrq_state = .SW := by decide
  rw [Table.Yielded, if_pos (by decide), stays] at yielded
  exact absurd (yielded.unobstructive .PR ⟨2, by decide, rfl, by decide, rfl⟩) (by decide)

-- The caller is told otherwise.
example : (readerWaitsForTwo.downgradeCall 0).2 = .PR := by decide

end LockManager
end Firebird
