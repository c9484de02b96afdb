import Mathlib
import Firebird.Jrd.Vio.Chase

/-!
# The version a reader gets

A version may be passed when its writer is hidden from the reader, when it is being backed out, or
when it is the one change of the reader's own savepoint that a stable cursor must not see.  Each
turn of the loop passes such versions only, and the loop stops at the first other one.
-/

namespace Firebird

open TransactionState

theorem traState_set (bits : List UInt8) (oldest number other : Nat) (state : TransactionState) :
    let offset := transOffset (number - snapshotBase oldest)
    let changed := bits.set offset (setInByte (bits.getD offset 0) number state)
    traState changed oldest other = state ∨
      traState changed oldest other = traState bits oldest other := by
  intro offset changed
  rw [traState, traState, List.getD_eq_getElem?_getD, List.getElem?_set]
  split
  · rename_i same
    split
    · rw [Option.getD_some, stateInByte_setInByte]
      split
      · exact .inl rfl
      · rw [← same]
        exact .inr rfl
    · rename_i outside
      rw [← same, List.getD_eq_getElem?_getD, List.getElem?_eq_none (Nat.le_of_not_lt outside)]
      exact .inr rfl
  · rw [List.getD_eq_getElem?_getD]
    exact .inr rfl

namespace Reader

variable (reader : Reader)

/-- The answers of `TRA_snapshot_state` before it looks at recorded states. -/
def numberState (view : View) (number : Nat) : Option WriterState :=
  if number ≠ 0 ∧ view.states.precommitted number = true then
    some .precommitted
  else if number = reader.tra_number then
    some .us
  else if number < reader.tra_oldest ∨ number = 0 ∨
      reader.readOnlyDatabase = true ∧ reader.tra_top < number then
    some .committed
  else
    none

/-- Its answers from the recorded states. -/
def recordedState (view : View) (number : Nat) : WriterState :=
  if reader.readCommitted = true then
    .ofTransaction (view.states.tpc number)
  else if reader.system = true then
    if view.states.tpc number = active then .committed else .ofTransaction (view.states.tpc number)
  else if reader.commitSubTrans number = true then
    .committed
  else if reader.tra_top < number then
    .active
  else
    .ofTransaction (traState view.tra_transactions reader.tra_oldest number)

theorem snapshotState_eq (view : View) (number : Nat) :
    reader.snapshotState view number =
      (reader.numberState view number).getD (reader.recordedState view number) := by
  rw [snapshotState, numberState]
  by_cases precommitted : number ≠ 0 ∧ view.states.precommitted number = true
  · rw [if_pos precommitted, if_pos precommitted, Option.getD_some]
  rw [if_neg precommitted, if_neg precommitted]
  by_cases own : number = reader.tra_number
  · rw [if_pos own, if_pos own, Option.getD_some]
  rw [if_neg own, if_neg own]
  by_cases old : number < reader.tra_oldest
  · rw [if_pos old, if_pos (.inl old), Option.getD_some]
  by_cases zero : number = 0
  · rw [if_neg old, if_pos zero, if_pos (.inr (.inl zero)), Option.getD_some]
  by_cases young : reader.readOnlyDatabase = true ∧ reader.tra_top < number
  · rw [if_neg old, if_neg zero, if_pos young, if_pos (.inr (.inr young)), Option.getD_some]
  have recent : ¬(number < reader.tra_oldest ∨ number = 0 ∨
      reader.readOnlyDatabase = true ∧ reader.tra_top < number) := by
    rintro (case | case | case)
    · exact old case
    · exact zero case
    · exact young case
  rw [if_neg old, if_neg zero, if_neg young, if_neg recent, Option.getD_none, recordedState]

theorem ofTransaction_ne_us (state : TransactionState) : WriterState.ofTransaction state ≠ .us := by
  cases state <;> decide

theorem recordedState_ne_us (view : View) (number : Nat) :
    reader.recordedState view number ≠ .us := by
  rw [recordedState]
  split
  · exact ofTransaction_ne_us _
  split
  · split
    · decide
    · exact ofTransaction_ne_us _
  split
  · decide
  split
  · decide
  · exact ofTransaction_ne_us _

/-- A wait stores its outcome, if it stores anything, as a recorded state. -/
theorem recordedState_wait (view : View) (number : Nat) (waited : Waited) (other : Nat) :
    (reader.wait view number waited).2.states.precommitted = view.states.precommitted ∧
      (reader.recordedState (reader.wait view number waited).2 other =
          reader.recordedState view other ∨
        reader.recordedState (reader.wait view number waited).2 other ≠ .committed) := by
  cases waited with
  | refused => exact ⟨rfl, .inl rfl⟩
  | precommitted => exact ⟨rfl, .inl rfl⟩
  | found found =>
      by_cases done : found = committed
      · subst done
        exact ⟨rfl, .inl rfl⟩
      have hidden : WriterState.ofTransaction (if found = active then dead else found) ≠
          .committed := by
        cases found with
        | committed => exact absurd rfl done
        | _ => decide
      rw [wait.eq_4 _ _ _ _ done]
      generalize (if found = active then dead else found) = state at hidden
      dsimp only
      split
      · exact ⟨rfl, .inl rfl⟩
      split
      · rename_i committed_reader
        refine ⟨rfl, ?_⟩
        rw [recordedState, recordedState, if_pos committed_reader, if_pos committed_reader]
        change WriterState.ofTransaction (Function.update view.states.tpc number state other) = _ ∨
          WriterState.ofTransaction (Function.update view.states.tpc number state other) ≠ _
        rw [Function.update_apply]
        split
        · exact .inr hidden
        · exact .inl rfl
      · rename_i snapshot_reader
        refine ⟨rfl, ?_⟩
        have changed := traState_set view.tra_transactions reader.tra_oldest number other state
        rw [recordedState, recordedState, if_neg snapshot_reader, if_neg snapshot_reader]
        rcases changed with now | same
        · rw [now]
          split
          · exact .inl rfl
          split
          · exact .inl rfl
          split
          · exact .inl rfl
          · exact .inr hidden
        · rw [same]
          exact .inl rfl

/-- Storing the outcome of a wait hides writers at most. -/
theorem snapshotState_wait (view : View) (number : Nat) (waited : Waited) (other : Nat) :
    (reader.snapshotState (reader.wait view number waited).2 other = .committed →
        reader.snapshotState view other = .committed) ∧
      (reader.snapshotState (reader.wait view number waited).2 other = .us ↔
        reader.snapshotState view other = .us) := by
  obtain ⟨same_precommitted, recorded⟩ := reader.recordedState_wait view number waited other
  have number_eq : reader.numberState (reader.wait view number waited).2 other =
      reader.numberState view other := by
    rw [numberState, numberState, same_precommitted]
  rw [snapshotState_eq, snapshotState_eq, number_eq]
  cases reader.numberState view other with
  | some state => exact ⟨id, Iff.rfl⟩
  | none =>
      rw [Option.getD_none, Option.getD_none]
      constructor
      · intro visible
        rcases recorded with same | hidden
        · rwa [← same]
        · exact absurd visible hidden
      · constructor
        · exact fun own => absurd own (reader.recordedState_ne_us _ _)
        · exact fun own => absurd own (reader.recordedState_ne_us _ _)

/-- The savepoint of the reader has changed the record without a trace in the undo log. -/
def Unstable : Prop :=
  reader.noundo = false ∧ reader.system = false ∧ reader.getUndoData = .udForceBack

end Reader

/-! ## Passed versions -/

namespace Chase

section Verdict

variable {Data : Type} (applyDiff : Data → Data → Data) (reader : Reader)
-- The transactions met as holders of the record's garbage collection lock.
variable (held : Nat → Prop)
-- The writers in limbo that a wait found committed.
variable (resolved : Nat → Prop)

/-- A writer that is not visible in the reader's snapshot, or backs out this record just now. -/
def HiddenWriter (view : View) (number : Nat) : Prop :=
  held number ∨
    reader.snapshotState view number ≠ .committed ∧ reader.snapshotState view number ≠ .us

/-- A version that must not be returned: its writer is hidden, or it is being backed out. -/
def Hidden (view : View) (version : Version Data) : Prop :=
  version.gcActive = true ∨ HiddenWriter reader held view version.transaction_nr

/-- The reader's own change under its savepoint. -/
def Undone (view : View) (version : Version Data) : Prop :=
  reader.Unstable ∧ reader.snapshotState view version.transaction_nr = .us

/-- All versions are hidden. -/
def AllHidden (view : View) (versions : List (Version Data)) : Prop :=
  ∀ version ∈ versions, Hidden reader held view version

/-- All versions but one are hidden, and that one is the reader's own change. -/
def OneUndone (view : View) (versions : List (Version Data)) : Prop :=
  ∃ before own after, versions = before ++ own :: after ∧ Undone reader view own ∧
    AllHidden reader held view before ∧ AllHidden reader held view after

/-- The versions may all be passed. -/
def Passed (view : View) (versions : List (Version Data)) : Prop :=
  AllHidden reader held view versions ∨ OneUndone reader held view versions

/-- A version that may be returned: committed or the reader's own in the snapshot, or committed by
now though in limbo there. -/
def Shown (view : View) (number : Nat) : Prop :=
  reader.snapshotState view number = .committed ∨ reader.snapshotState view number = .us ∨
    reader.snapshotState view number = .limbo ∧ reader.ignoreLimbo = false ∧ resolved number ∨
    reader.snapshotState view number = .precommitted ∧ reader.isTemporary = true ∧
      number = reader.tra_number

/-- What the routine answers. -/
def Verdict : Step Data → Prop
  | .returned true chase =>
      Passed reader held chase.view chase.rpb.newer ∧
        Shown reader resolved chase.view chase.rpb.version.transaction_nr ∧
        chase.rpb.version.deleted = false
  | .returned false chase =>
      chase.rpb.version.damaged = true ∨
        Passed reader held chase.view chase.rpb.newer ∧
          Shown reader resolved chase.view chase.rpb.version.transaction_nr ∧
          chase.rpb.version.deleted = true ∨
        Passed reader held chase.view (chase.rpb.newer ++ [chase.rpb.version]) ∧
          (chase.rpb.older = [] ∨ reader.garbageCollector = true)
  | .gone => True
  | .undone => reader.noundo = false ∧ reader.system = false ∧ reader.getUndoData = .udExists
  | .raised (.recordInLimbo _) | .raised .transactionInLimbo => reader.ignoreLimbo = false
  | .raised (.readConflict _) =>
      reader.readCommitted = true ∧ (reader.recVersion = false ∨ reader.writelock = true)
  | .raised .noBackVersion => False
  | .again _ => True

/-- The versions left behind may be passed, and so may one more of the reader's own if the routine
is forced to go back. -/
def Behind (view : View) (versions : List (Version Data)) (forceBack : Nat) : Prop :=
  AllHidden reader held view versions ∧ (forceBack = 0 ∨ forceBack = 1 ∧ reader.Unstable) ∨
    OneUndone reader held view versions ∧ forceBack = 0

/-- What the state at the start of a turn says about the version. -/
inductive StateOk (chase : Chase Data) : Prop where
  | plain (number : chase.rpb.rpb_transaction_nr = chase.rpb.version.transaction_nr)
      (flag : chase.rpb.rpb_gc_active = chase.rpb.version.gcActive)
      (state : chase.state = reader.snapshotState chase.view chase.rpb.version.transaction_nr)
  /-- Another process holds the record's garbage collection lock. -/
  | backingOut (flag : chase.rpb.version.gcActive = true) (still : chase.rpb.rpb_gc_active = true)
      (holder : held chase.rpb.rpb_transaction_nr) (state : chase.state = .active)
  /-- A backout that was not finished. -/
  | backedOut (flag : chase.rpb.version.gcActive = true)
      (number : chase.rpb.rpb_transaction_nr = chase.rpb.version.transaction_nr)
      (state : chase.state = .dead)

/-- The invariant of the loop. -/
structure Good (chase : Chase Data) : Prop where
  behind : Behind reader held chase.view chase.rpb.newer chase.forceBack
  stateOk : StateOk reader held chase

/-- A step that keeps the invariant or answers as it should. -/
def Fine : Step Data → Prop
  | .again chase => chase.Good reader held
  | done => Verdict reader held resolved done

variable {reader held resolved}

theorem Behind.passed {view : View} {versions : List (Version Data)} {forceBack : Nat}
    (behind : Behind reader held view versions forceBack) :
    Passed reader held view versions := by
  rcases behind with ⟨hidden, _⟩ | ⟨one, _⟩
  · exact .inl hidden
  · exact .inr one

theorem Behind.push_hidden {view : View} {versions : List (Version Data)} {forceBack : Nat}
    (behind : Behind reader held view versions forceBack) {version : Version Data}
    (hidden : Hidden reader held view version) :
    Behind reader held view (versions ++ [version]) forceBack := by
  have all (list : List (Version Data)) (others : AllHidden reader held view list) :
      AllHidden reader held view (list ++ [version]) := by
    intro other member
    rcases List.mem_append.mp member with earlier | last
    · exact others other earlier
    · exact List.mem_singleton.mp last ▸ hidden
  rcases behind with ⟨others, force⟩ | ⟨⟨before, own, after, rfl, undone, first, second⟩, force⟩
  · exact .inl ⟨all versions others, force⟩
  · exact .inr ⟨⟨before, own, after ++ [version], by simp, undone, first, all after second⟩, force⟩

theorem Behind.push_undone {view : View} {versions : List (Version Data)}
    (others : AllHidden reader held view versions) {version : Version Data}
    (undone : Undone reader view version) :
    Behind reader held view (versions ++ [version]) 0 :=
  .inr ⟨⟨versions, version, [], rfl, undone, others, fun _ member => absurd member List.not_mem_nil⟩,
    rfl⟩

theorem Behind.primary {view : View} {versions : List (Version Data)} {forceBack : Nat}
    (behind : Behind reader held view versions forceBack) (view' : View) :
    @Behind Data reader held view' [] forceBack := by
  have none (list : View) : @AllHidden Data reader held list [] :=
    fun _ member => absurd member List.not_mem_nil
  rcases behind with ⟨_, force⟩ | ⟨_, force⟩
  · exact .inl ⟨none view', force⟩
  · exact .inl ⟨none view', .inl force⟩

/-! ## One turn -/

variable {turn : Turn Data} {chase : Chase Data}

theorem resume_fine (lock : ∀ number, turn.gcLock = some number → held number)
    (behind : Behind reader held chase.view chase.rpb.newer chase.forceBack)
    (number : chase.rpb.rpb_transaction_nr = chase.rpb.version.transaction_nr)
    (flag : chase.rpb.rpb_gc_active = chase.rpb.version.gcActive) :
    Fine reader held resolved (chase.resume reader turn) := by
  rw [Chase.resume]
  split
  · rename_i backing
    have still := backing.2
    cases taken : turn.gcLock with
    | some holder =>
        exact ⟨behind, .backingOut (flag ▸ still) still (lock holder taken) rfl⟩
    | none => exact ⟨behind, .backedOut (flag ▸ still) number rfl⟩
  · exact ⟨behind, .plain number flag (congrArg (reader.snapshotState chase.view) number)⟩

theorem get_eq_some {found : Chase Data} {scene : Option (Scene Data)} {own : List (Version Data)}
    (taken : chase.get scene own = some found) :
    ∃ version older, found.rpb = .primary version older ∧ found.forceBack = chase.forceBack := by
  rw [get.eq_def] at taken
  cases scene with
  | none =>
      cases own with
      | nil => cases taken
      | cons version older =>
          cases taken
          exact ⟨version, older, rfl, rfl⟩
  | some scene =>
      cases chain_eq : scene.chain with
      | nil => simp [chain_eq] at taken
      | cons version older =>
          simp only [chain_eq, Option.some.injEq] at taken
          subst taken
          exact ⟨version, older, rfl, rfl⟩

theorem restart_fine (lock : ∀ number, turn.gcLock = some number → held number)
    {versions : List (Version Data)}
    (behind : Behind reader held chase.view versions chase.forceBack)
    (own : List (Version Data)) : Fine reader held resolved (chase.restart reader turn own) := by
  rw [restart]
  cases taken : chase.get turn.next own with
  | none => trivial
  | some found =>
      obtain ⟨version, older, rpb_eq, force_eq⟩ := get_eq_some taken
      apply resume_fine lock
      · rw [rpb_eq, force_eq]
        exact behind.primary found.view
      · rw [rpb_eq]
        rfl
      · rw [rpb_eq]
        rfl

theorem moveBack_fine (lock : ∀ number, turn.gcLock = some number → held number)
    (behind : Behind reader held chase.view (chase.rpb.newer ++ [chase.rpb.version])
      chase.forceBack) (more : chase.rpb.older ≠ []) :
    Fine reader held resolved (chase.moveBack reader turn) := by
  rw [moveBack]
  cases ahead : chase.rpb.older with
  | nil => exact absurd ahead more
  | cons version older => exact resume_fine lock behind rfl rfl

theorem fetchBack_fine (lock : ∀ number, turn.gcLock = some number → held number)
    (behind : Behind reader held chase.view (chase.rpb.newer ++ [chase.rpb.version])
      chase.forceBack) (more : chase.rpb.older ≠ []) :
    Fine reader held resolved (chase.fetchBack reader turn) := by
  rw [fetchBack]
  split
  · exact moveBack_fine lock behind more
  · exact restart_fine lock behind _

theorem active_fine (lock : ∀ number, turn.gcLock = some number → held number)
    (behind : Behind reader held chase.view (chase.rpb.newer ++ [chase.rpb.version])
      chase.forceBack)
    (updated : ∀ version : Version Data, version.transaction_nr = chase.rpb.rpb_transaction_nr →
      Behind reader held chase.view (chase.rpb.newer ++ [version]) chase.forceBack) :
    Fine reader held resolved (chase.active applyDiff reader turn) := by
  rw [active]
  split
  · rename_i last
    exact .inr (.inr ⟨behind.passed, .inl (List.isEmpty_iff.mp last)⟩)
  rename_i more
  rw [List.isEmpty_iff] at more
  split
  · rename_i collector
    exact .inr (.inr ⟨behind.passed, .inr collector⟩)
  split
  · exact fetchBack_fine lock behind more
  dsimp only
  split
  · exact restart_fine lock behind _
  rename_i version older same header
  split
  · exact moveBack_fine lock behind more
  split
  · exact restart_fine lock behind _
  rename_i writer
  have pushed := updated version (not_not.mp writer)
  split
  · rename_i last
    exact .inr (.inr ⟨pushed.passed, .inl (List.isEmpty_iff.mp last)⟩)
  rename_i onward
  rw [List.isEmpty_iff] at onward
  split
  · exact fetchBack_fine lock pushed onward
  · exact fetchBack_fine lock pushed onward

theorem dead_fine (lock : ∀ number, turn.gcLock = some number → held number)
    (newer : Behind reader held chase.view chase.rpb.newer chase.forceBack)
    (behind : Behind reader held chase.view (chase.rpb.newer ++ [chase.rpb.version])
      chase.forceBack) :
    Fine reader held resolved (chase.dead applyDiff reader turn) := by
  rw [dead]
  split
  swap
  · exact restart_fine lock behind _
  split
  · rename_i last
    exact .inr (.inr ⟨behind.passed, .inl (List.isEmpty_iff.mp last)⟩)
  rename_i more
  rw [List.isEmpty_iff] at more
  split
  swap
  · exact fetchBack_fine lock behind more
  dsimp only
  split
  · exact restart_fine lock behind _
  split
  · exact restart_fine lock behind _
  split
  · exact resume_fine lock newer rfl rfl
  split
  · exact fetchBack_fine lock behind more
  · exact fetchBack_fine lock behind more

theorem getUndoData_ne_twice (reader : Reader) : reader.getUndoData ≠ .udForceTwice := by
  rw [Reader.getUndoData]
  split
  · split
    · decide
    · split
      · decide
      · decide
  · decide

theorem us_fine (lock : ∀ number, turn.gcLock = some number → held number)
    (behind : Behind reader held chase.view chase.rpb.newer chase.forceBack)
    (number : chase.rpb.rpb_transaction_nr = chase.rpb.version.transaction_nr)
    (flag : chase.rpb.rpb_gc_active = chase.rpb.version.gcActive)
    (shown : Shown reader resolved chase.view chase.rpb.version.transaction_nr) :
    Fine reader held resolved (chase.us reader turn) := by
  have result : Fine reader held resolved (.returned (!chase.rpb.version.deleted) chase) := by
    cases deleted : chase.rpb.version.deleted with
    | false => exact ⟨behind.passed, shown, deleted⟩
    | true => exact .inr (.inl ⟨behind.passed, shown, deleted⟩)
  rw [us]
  split
  swap
  · exact result
  rename_i stable
  obtain ⟨undo, primary, user⟩ := stable
  split
  · rename_i exists_eq
    exact ⟨undo, user, exists_eq⟩
  · rename_i force_eq
    have first : chase.rpb.newer = [] := by
      simpa [RecordParam.chained] using primary
    refine resume_fine lock (.inl ⟨?_, .inr ⟨rfl, undo, user, force_eq⟩⟩) number flag
    intro version member
    rw [first] at member
    exact absurd member List.not_mem_nil
  · rename_i twice_eq
    exact absurd twice_eq (getUndoData_ne_twice reader)
  · exact result

theorem committed_fine (lock : ∀ number, turn.gcLock = some number → held number)
    (behind : Behind reader held chase.view chase.rpb.newer chase.forceBack)
    (shown : Shown reader resolved chase.view chase.rpb.version.transaction_nr) :
    Fine reader held resolved (chase.committed reader turn) := by
  rw [committed]
  split
  · rename_i deleted
    exact .inr (.inl ⟨behind.passed, shown, deleted⟩)
  rename_i present
  rw [Bool.not_eq_true] at present
  split
  · exact ⟨behind.passed, shown, present⟩
  split
  · exact ⟨behind.passed, shown, present⟩
  split
  · exact ⟨behind.passed, shown, present⟩
  · exact restart_fine lock behind _

/-- What the state at the `switch` says about the version. -/
inductive Ready (reader : Reader) (held : Nat → Prop) (resolved : Nat → Prop) (chase : Chase Data) :
    Prop where
  | committed (state : chase.state = .committed)
      (shown : Shown reader resolved chase.view chase.rpb.version.transaction_nr)
  | own (state : chase.state = .us)
      (number : chase.rpb.rpb_transaction_nr = chase.rpb.version.transaction_nr)
      (flag : chase.rpb.rpb_gc_active = chase.rpb.version.gcActive)
      (shown : Shown reader resolved chase.view chase.rpb.version.transaction_nr)
      (writer : reader.snapshotState chase.view chase.rpb.version.transaction_nr = .us ∨
        HiddenWriter reader held chase.view chase.rpb.version.transaction_nr)
  | backout (state : chase.state = .dead ∨ chase.state = .precommitted)
      (hidden : Hidden reader held chase.view chase.rpb.version)
  | away (state : chase.state = .active ∨ chase.state = .limbo)
      (hidden : Hidden reader held chase.view chase.rpb.version)
      (writer : HiddenWriter reader held chase.view chase.rpb.rpb_transaction_nr)

theorem branch_fine (lock : ∀ number, turn.gcLock = some number → held number)
    (behind : Behind reader held chase.view chase.rpb.newer chase.forceBack)
    (ready : Ready reader held resolved chase) :
    Fine reader held resolved (chase.branch applyDiff reader turn) := by
  rw [branch]
  cases ready with
  | committed state shown =>
      simp only [state, reduceCtorEq, false_and, if_false]
      exact committed_fine lock behind shown
  | own state number flag shown writer =>
      by_cases force : chase.forceBack = 0
      · simp only [state, force, ne_eq, not_true, and_false, if_false]
        exact us_fine lock behind number flag shown
      · simp only [state, force, ne_eq, not_false_eq_true, and_self, if_true]
        rcases behind with ⟨hidden, forced⟩ | ⟨_, unforced⟩
        swap
        · exact absurd unforced force
        obtain ⟨one, unstable⟩ := forced.resolve_left force
        rcases writer with mine | other
        · refine active_fine applyDiff lock ?_ ?_
          · rw [one]
            exact Behind.push_undone hidden ⟨unstable, mine⟩
          · intro version same
            rw [one]
            exact Behind.push_undone hidden
              ⟨unstable, by rw [same]; exact number ▸ mine⟩
        · have none_left : Behind reader held chase.view chase.rpb.newer (chase.forceBack - 1) :=
            .inl ⟨hidden, .inl (by omega)⟩
          refine active_fine applyDiff lock (none_left.push_hidden (.inr other)) ?_
          intro version same
          exact none_left.push_hidden (.inr (by rw [same, number]; exact other))
  | backout state hidden =>
      have finished := @dead_fine _ applyDiff _ _ resolved _ _ lock behind
        (behind.push_hidden hidden)
      rcases state with state | state
      · simpa only [state, reduceCtorEq, false_and, if_false] using finished
      · simpa only [state, reduceCtorEq, false_and, if_false] using finished
  | away state hidden writer =>
      have finished := @active_fine _ applyDiff _ _ resolved _ _ lock (behind.push_hidden hidden)
        fun version same => behind.push_hidden (.inr (by rw [same]; exact writer))
      rcases state with state | state
      · simpa only [state, reduceCtorEq, false_and, if_false] using finished
      · simp only [state, reduceCtorEq, false_and, if_false]
        split
        · exact finished
        · rename_i limbo
          exact (Bool.not_eq_true _).mp limbo

/-! ## Waiting -/

theorem HiddenWriter.wait {view : View} {other : Nat}
    (hidden : HiddenWriter reader held view other) (number : Nat) (waited : Waited) :
    HiddenWriter reader held (reader.wait view number waited).2 other := by
  rcases hidden with holder | ⟨not_committed, not_us⟩
  · exact .inl holder
  · have stored := reader.snapshotState_wait view number waited other
    exact .inr ⟨fun now => not_committed (stored.1 now), fun now => not_us (stored.2.mp now)⟩

theorem AllHidden.wait {view : View} {versions : List (Version Data)}
    (hidden : AllHidden reader held view versions) (number : Nat) (waited : Waited) :
    AllHidden reader held (reader.wait view number waited).2 versions :=
  fun version member => (hidden version member).imp id fun writer => writer.wait number waited

theorem Behind.wait {view : View} {versions : List (Version Data)} {forceBack : Nat}
    (behind : Behind reader held view versions forceBack) (number : Nat) (waited : Waited) :
    Behind reader held (reader.wait view number waited).2 versions forceBack := by
  rcases behind with ⟨hidden, force⟩ | ⟨⟨before, own, after, rfl, undone, first, second⟩, force⟩
  · exact .inl ⟨hidden.wait number waited, force⟩
  · have still := (reader.snapshotState_wait view number waited own.transaction_nr).2.mpr undone.2
    exact .inr ⟨⟨before, own, after, rfl, ⟨undone.1, still⟩, first.wait number waited,
      second.wait number waited⟩, force⟩

/-- What the state says about the version once a writer in limbo was waited for. -/
inductive Settled (reader : Reader) (held : Nat → Prop) (resolved : Nat → Prop) (chase : Chase Data) :
    Prop where
  | known (number : chase.rpb.rpb_transaction_nr = chase.rpb.version.transaction_nr)
      (flag : chase.rpb.rpb_gc_active = chase.rpb.version.gcActive)
      (committed : chase.state = .committed →
        Shown reader resolved chase.view chase.rpb.version.transaction_nr)
      (own : chase.state = .us →
        Shown reader resolved chase.view chase.rpb.version.transaction_nr ∧
          (reader.snapshotState chase.view chase.rpb.version.transaction_nr = .us ∨
            HiddenWriter reader held chase.view chase.rpb.version.transaction_nr))
      (hidden : chase.state ≠ .committed → chase.state ≠ .us →
        HiddenWriter reader held chase.view chase.rpb.version.transaction_nr)
      (precommitted : chase.state = .precommitted →
        reader.snapshotState chase.view chase.rpb.version.transaction_nr = .precommitted ∨
          chase.rpb.version.transaction_nr ≠ reader.tra_number)
  | backingOut (flag : chase.rpb.version.gcActive = true) (still : chase.rpb.rpb_gc_active = true)
      (holder : held chase.rpb.rpb_transaction_nr) (state : chase.state = .active)
  | backedOut (flag : chase.rpb.version.gcActive = true)
      (number : chase.rpb.rpb_transaction_nr = chase.rpb.version.transaction_nr)
      (state : chase.state = .dead)

theorem settled_of_plain (number : chase.rpb.rpb_transaction_nr = chase.rpb.version.transaction_nr)
    (flag : chase.rpb.rpb_gc_active = chase.rpb.version.gcActive)
    (state : chase.state = reader.snapshotState chase.view chase.rpb.version.transaction_nr) :
    Settled reader held resolved chase := by
  refine .known number flag ?_ ?_ ?_ ?_
  · intro committed
    exact .inl (state ▸ committed)
  · intro own
    exact ⟨.inr (.inl (state ▸ own)), .inl (state ▸ own)⟩
  · intro not_committed not_own
    exact .inr ⟨state ▸ not_committed, state ▸ not_own⟩
  · intro precommitted
    exact .inl (state ▸ precommitted)

theorem Settled.ready (settled : Settled reader held resolved chase) :
    Ready reader held resolved chase := by
  cases settled with
  | known number flag committed own hidden precommitted =>
      cases state : chase.state with
      | committed => exact .committed state (committed state)
      | us => exact .own state number flag (own state).1 (own state).2
      | dead =>
          have writer := hidden (by rw [state]; decide) (by rw [state]; decide)
          exact .backout (.inl state) (.inr writer)
      | precommitted =>
          have writer := hidden (by rw [state]; decide) (by rw [state]; decide)
          exact .backout (.inr state) (.inr writer)
      | active =>
          have writer := hidden (by rw [state]; decide) (by rw [state]; decide)
          exact .away (.inl state) (.inr writer) (number ▸ writer)
      | limbo =>
          have writer := hidden (by rw [state]; decide) (by rw [state]; decide)
          exact .away (.inr state) (.inr writer) (number ▸ writer)
  | backingOut flag still holder state => exact .away (.inl state) (.inl flag) (.inl holder)
  | backedOut flag number state => exact .backout (.inl state) (.inl flag)

theorem get_ready (chase : Chase Data) {found : Chase Data} {scene : Option (Scene Data)} {own : List (Version Data)}
    (behind : Behind reader held chase.view chase.rpb.newer chase.forceBack)
    (taken : chase.get scene own = some found) :
    Behind reader held found.view found.rpb.newer found.forceBack ∧
      found.rpb.rpb_transaction_nr = found.rpb.version.transaction_nr ∧
      found.rpb.rpb_gc_active = found.rpb.version.gcActive := by
  obtain ⟨version, older, rpb_eq, force_eq⟩ := get_eq_some taken
  rw [rpb_eq, force_eq]
  exact ⟨behind.primary found.view, rfl, rfl⟩

theorem readWait_fine (lock : ∀ number, turn.gcLock = some number → held number)
    (behind : Behind reader held chase.view chase.rpb.newer chase.forceBack)
    (settled : Settled reader held resolved chase) :
    Fine reader held resolved (chase.readWait applyDiff reader turn) := by
  rw [readWait]
  split
  swap
  · exact branch_fine applyDiff lock behind settled.ready
  rename_i waits
  split
  · dsimp only
    split
    · trivial
    rename_i found taken
    obtain ⟨found_behind, number, flag⟩ :=
      get_ready (chase.wait reader turn.waitedRead) (behind.wait _ _) taken
    split
    · rename_i active
      split
      · rename_i strict
        exact strict
      · have writer : HiddenWriter reader held found.view found.rpb.version.transaction_nr := by
          rw [number] at active
          exact .inr ⟨by rw [active]; decide, by rw [active]; decide⟩
        have ready : Ready reader held resolved { found with state := .limbo } :=
          .away (.inr rfl) (.inr writer) (number ▸ writer)
        exact branch_fine applyDiff lock found_behind ready
    · have settled : Settled reader held resolved
          { found with
            state := reader.snapshotState found.view found.rpb.rpb_transaction_nr } :=
        settled_of_plain number flag (congrArg (reader.snapshotState found.view) number)
      exact branch_fine applyDiff lock found_behind settled.ready
  split
  · dsimp only
    split
    · exact waits
    split
    · trivial
    · rename_i found taken
      have waited_behind : Behind reader held
          ((chase.wait reader turn.waitedRead).checkPrecommitted reader).view
          ((chase.wait reader turn.waitedRead).checkPrecommitted reader).rpb.newer
          ((chase.wait reader turn.waitedRead).checkPrecommitted reader).forceBack := by
        rw [checkPrecommitted]
        split
        · exact behind.wait _ _
        · exact behind.wait _ _
      obtain ⟨found_behind, number, flag⟩ := get_ready _ waited_behind taken
      exact ⟨found_behind, .plain number flag (congrArg (reader.snapshotState found.view) number)⟩
  · exact branch_fine applyDiff lock behind settled.ready

theorem wait_state (reader : Reader) (view : View) (number : Nat) (waited : Waited) :
    (reader.wait view number waited).1 ≠ .us ∧
      ((reader.wait view number waited).1 = .committed →
        waited = .found .committed ∧ (reader.wait view number waited).2 = view) := by
  cases waited with
  | refused => exact ⟨by simp [Reader.wait], by simp [Reader.wait]⟩
  | precommitted => exact ⟨by simp [Reader.wait], by simp [Reader.wait]⟩
  | found found =>
      by_cases done : found = TransactionState.committed
      · subst done
        exact ⟨by simp [Reader.wait], fun _ => ⟨rfl, rfl⟩⟩
      have first_eq : (reader.wait view number (.found found)).1 =
          .ofTransaction (if found = TransactionState.active then .dead else found) := by
        rw [Reader.wait.eq_4 _ _ _ _ done]
        dsimp only
        split
        · rfl
        split
        · rfl
        · rfl
      rw [first_eq]
      refine ⟨Reader.ofTransaction_ne_us _, fun visible => ?_⟩
      cases found with
      | committed => exact absurd rfl done
      | _ => cases visible

/-- A writer in limbo is waited for: it is found committed, or it stays hidden. -/
theorem limboWait_settled (wait : ∀ number, turn.waited number = .found .committed → resolved number)
    (good : Good reader held chase) :
    Behind reader held (chase.limboWait reader turn).view (chase.limboWait reader turn).rpb.newer
        (chase.limboWait reader turn).forceBack ∧
      Settled reader held resolved (chase.limboWait reader turn) := by
  obtain ⟨behind, stateOk⟩ := good
  rw [limboWait]
  split
  swap
  · refine ⟨behind, ?_⟩
    cases stateOk with
    | plain number flag state => exact settled_of_plain number flag state
    | backingOut flag still holder state => exact .backingOut flag still holder state
    | backedOut flag number state => exact .backedOut flag number state
  rename_i in_limbo
  obtain ⟨limbo, strict⟩ := in_limbo
  cases stateOk with
  | backingOut flag still holder state =>
      rw [limbo] at state
      cases state
  | backedOut flag number state =>
      rw [limbo] at state
      cases state
  | plain number flag state =>
      rw [limbo] at state
      have before : HiddenWriter reader held chase.view chase.rpb.version.transaction_nr :=
        .inr ⟨by rw [← state]; decide, by rw [← state]; decide⟩
      have after := before.wait chase.rpb.rpb_transaction_nr
        (turn.waited chase.rpb.rpb_transaction_nr)
      have not_own : chase.rpb.version.transaction_nr ≠ reader.tra_number := by
        intro own
        rw [Reader.snapshotState] at state
        split at state
        · cases state
        · cases state
      obtain ⟨not_us, committed⟩ := wait_state reader chase.view chase.rpb.rpb_transaction_nr
        (turn.waited chase.rpb.rpb_transaction_nr)
      dsimp only
      split
      · refine ⟨behind.wait _ _, .known number flag ?_ ?_ (fun _ _ => after) ?_⟩
        · intro visible
          cases visible
        · intro own
          cases own
        · intro precommitted
          cases precommitted
      · refine ⟨behind.wait _ _, .known number flag ?_ (fun own => absurd own not_us)
          (fun _ _ => after) (fun _ => .inr not_own)⟩
        intro visible
        obtain ⟨found, same⟩ := committed visible
        refine .inr (.inr (.inl ⟨?_, strict, number ▸ wait _ found⟩))
        change reader.snapshotState (reader.wait _ _ _).2 _ = .limbo
        rw [same]
        exact state.symm

theorem checkPrecommitted_settled (settled : Settled reader held resolved chase) :
    Settled reader held resolved (chase.checkPrecommitted reader) := by
  rw [checkPrecommitted]
  split
  swap
  · exact settled
  rename_i state
  cases settled with
  | backingOut flag still holder active =>
      rw [state] at active
      cases active
  | backedOut flag number dead =>
      rw [state] at dead
      cases dead
  | known number flag committed own hidden precommitted =>
      have writer := hidden (by rw [state]; decide) (by rw [state]; decide)
      have origin := precommitted state
      rw [number, Reader.checkPrecommitted]
      split
      · rename_i temporary
        split
        · rename_i mine
          have recorded := origin.resolve_right fun differ => differ mine.symm
          refine .known number flag (fun visible => by cases visible)
            (fun _ => ⟨.inr (.inr (.inr ⟨recorded, temporary.2, mine.symm⟩)), .inr writer⟩)
            (fun _ _ => writer) (fun stays => by cases stays)
        split
        · exact .known number flag (fun visible => by cases visible) (fun mine => by cases mine)
            (fun _ _ => writer) (fun stays => by cases stays)
        · exact .known number flag (fun visible => by cases visible) (fun mine => by cases mine)
            (fun _ _ => writer) (fun _ => origin)
      · exact .known number flag (fun visible => by cases visible) (fun mine => by cases mine)
          (fun _ _ => writer) (fun _ => origin)

theorem turn_fine (lock : ∀ number, turn.gcLock = some number → held number)
    (wait : ∀ number, turn.waited number = .found .committed → resolved number) (good : Good reader held chase) :
    Fine reader held resolved (Chase.turn applyDiff reader turn chase) := by
  rw [Chase.turn]
  split
  · rename_i damaged
    exact .inl damaged
  · obtain ⟨behind, settled⟩ := limboWait_settled wait good
    refine readWait_fine applyDiff lock ?_ (checkPrecommitted_settled settled)
    rw [checkPrecommitted]
    split
    · exact behind
    · exact behind

/-- Every turn keeps the invariant, so the loop can only end with the right answer. -/
theorem run_fine {schedule : List (Turn Data)}
    (lock : ∀ turn ∈ schedule, ∀ number, turn.gcLock = some number → held number)
    (wait : ∀ turn ∈ schedule, ∀ number, turn.waited number = .found .committed → resolved number)
    (good : Good reader held chase) :
    Verdict reader held resolved (chase.run applyDiff reader schedule) := by
  induction schedule generalizing chase with
  | nil => trivial
  | cons turn schedule ih =>
      have fine := turn_fine applyDiff (lock turn List.mem_cons_self) (wait turn List.mem_cons_self)
        good
      rw [run]
      generalize Chase.turn applyDiff reader turn chase = step at fine
      cases step with
      | again next =>
          exact ih (fun other member => lock other (List.mem_cons_of_mem _ member))
            (fun other member => wait other (List.mem_cons_of_mem _ member)) fine
      | returned found final => exact fine
      | gone => trivial
      | undone => exact fine
      | raised error => exact fine

theorem fastPath_fine (good : Good reader held chase) :
    Fine reader held resolved (chase.fastPath reader) := by
  rw [fastPath]
  split
  swap
  · exact good
  rename_i fast
  obtain ⟨visible, _, present, _⟩ := fast
  refine ⟨good.behind.passed, ?_, present⟩
  cases good.stateOk with
  | plain number flag state =>
      rw [state] at visible
      exact visible.imp id .inl
  | backingOut flag still holder state => simp [state] at visible
  | backedOut flag number state => simp [state] at visible

theorem opened_good (view : View) (version : Version Data) (older : List (Version Data))
    {gcLock : Option Nat} (lock : ∀ number, gcLock = some number → held number) :
    Good reader held (opened reader view version older gcLock) ∧
      (opened reader view version older gcLock).rpb.newer = [] := by
  have none_passed : @AllHidden Data reader held view [] :=
    fun _ member => absurd member List.not_mem_nil
  rw [opened]
  split
  · rename_i flag
    cases taken : gcLock with
    | some number =>
        exact ⟨⟨.inl ⟨none_passed, .inl rfl⟩, .backingOut flag flag (lock number taken) rfl⟩, rfl⟩
    | none => exact ⟨⟨.inl ⟨none_passed, .inl rfl⟩, .backedOut flag rfl rfl⟩, rfl⟩
  · exact ⟨⟨.inl ⟨none_passed, .inl rfl⟩, .plain rfl rfl rfl⟩, rfl⟩

theorem enter_fine (view : View) (version : Version Data) (older : List (Version Data))
    {gcLock : Option Nat} (lock : ∀ number, gcLock = some number → held number) :
    Fine reader held resolved (enter reader view version older gcLock) := by
  obtain ⟨entered, first⟩ := @opened_good _ reader held view version older gcLock lock
  rw [enter]
  generalize opened reader view version older gcLock = chase at entered first
  split
  swap
  · exact fastPath_fine entered
  rename_i stable
  split
  · rename_i exists_eq
    exact ⟨stable.2.1, stable.2.2, exists_eq⟩
  · rename_i force_eq
    refine fastPath_fine ⟨.inl ⟨?_, .inr ⟨rfl, stable.2.1, stable.2.2, force_eq⟩⟩, ?_⟩
    · intro other member
      rw [first] at member
      exact absurd member List.not_mem_nil
    · cases entered.stateOk with
      | plain number flag state => exact .plain number flag state
      | backingOut flag still holder state => exact .backingOut flag still holder state
      | backedOut flag number state => exact .backedOut flag number state
  · rename_i twice_eq
    exact absurd twice_eq (getUndoData_ne_twice reader)
  · exact fastPath_fine entered

end Verdict

end Chase

end Firebird
