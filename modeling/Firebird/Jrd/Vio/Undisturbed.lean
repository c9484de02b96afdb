import Firebird.Jrd.Vio.Visible

/-!
# The chase while nobody else touches the record

Without interference every turn of the loop makes progress: it goes back one version, takes away the
primary version or the back versions, or notes that it is forced back.  So the loop ends, and what
it has taken away does not change the answer for the record as it was on entry.
-/

namespace Firebird

namespace Chase

variable {Data : Type} (applyDiff : Data → Data → Data) {reader : Reader}

/-- Nobody changes the record, holds a latch or its garbage collection lock; a wait on a writer in
limbo always ends the same way. -/
structure Quiet (waits : Nat → Waited) (turn : Turn Data) : Prop where
  waited : turn.waited = waits
  reread : turn.reread = .unchanged
  latched : turn.latched = true
  next : turn.next = none
  gcLock : turn.gcLock = none

/-- The reader does not wait for the writers of the versions it reads. -/
def DoesNotWait (reader : Reader) : Prop :=
  ¬(reader.readCommitted = true ∧ (reader.recVersion = false ∨ reader.writelock = true))

/-- The writer of a version and whether it deleted the record: what garbage collection keeps. -/
def writing (version : Version Data) : Nat × Bool := (version.transaction_nr, version.deleted)

/-- A version stored as differences holds data. -/
def DeltasHoldData : List (Version Data) → Prop
  | newer :: older :: rest =>
      (newer.delta = true → older.deleted = false) ∧ DeltasHoldData (older :: rest)
  | _ => True

/-- The chase stands on the same version, with the same view. -/
structure SamePlace (before after : Chase Data) : Prop where
  view : after.view = before.view
  newer : after.rpb.newer = before.rpb.newer
  version : after.rpb.version = before.rpb.version
  older : after.rpb.older = before.rpb.older
  prior : after.rpb.rpb_prior = before.rpb.rpb_prior
  forceBack : after.forceBack = before.forceBack

variable (reader) in
/-- The progress of one turn. -/
inductive Advance (before after : Chase Data) : Prop where
  /-- Back by one version. -/
  | back {version : Version Data} {rest : List (Version Data)}
      (ahead : before.rpb.older = version :: rest)
      (newer : after.rpb.newer = before.rpb.newer ++ [before.rpb.version])
      (version_eq : after.rpb.version = version) (older : after.rpb.older = rest)
      (force : after.forceBack ≤ before.forceBack)
      (prior : before.rpb.rpb_prior = priorBehind applyDiff before.rpb.newer →
        (before.rpb.version.deleted = true → priorBehind applyDiff before.rpb.newer = none) →
        after.rpb.rpb_prior =
          before.rpb.version.priorFor applyDiff (priorBehind applyDiff before.rpb.newer))
  /-- The primary version is backed out. -/
  | backout (first : before.rpb.newer = [])
      (hidden : Hidden reader (fun _ => False) before.view before.rpb.version)
      (newer : after.rpb.newer = []) (prior : after.rpb.rpb_prior = none)
      (chain : after.rpb.version :: after.rpb.older =
        Chase.backout applyDiff before.rpb.version before.rpb.older)
  /-- The back versions are purged. -/
  | purge (first : before.rpb.newer = []) (more : before.rpb.older ≠ [])
      (state : before.state = .committed) (present : before.rpb.version.deleted = false)
      (newer : after.rpb.newer = []) (prior : after.rpb.rpb_prior = none)
      (version : after.rpb.version =
        { before.rpb.version with delta := false, gcActive := false })
      (older : after.rpb.older = [])
      (number : after.rpb.rpb_transaction_nr = before.rpb.version.transaction_nr)
      (fresh : after.state = reader.snapshotState before.view before.rpb.version.transaction_nr)
  /-- The chase is forced back from the reader's own change. -/
  | force (same : after.rpb.newer = before.rpb.newer ∧ after.rpb.version = before.rpb.version ∧
        after.rpb.older = before.rpb.older ∧ after.rpb.rpb_prior = before.rpb.rpb_prior)
      (was : before.forceBack = 0) (now : after.forceBack = 1)

variable (reader) in
/-- What one turn does to the place of the chase. -/
def Progress (before : Chase Data) : Step Data → Prop
  | .again after => Advance applyDiff reader before after ∧ after.view = before.view
  | .returned _ after => after.rpb = before.rpb ∧ after.view = before.view
  | _ => True

variable {waits : Nat → Waited} {turn : Turn Data} {chase : Chase Data}

theorem resume_quiet (quiet : Quiet waits turn) :
    ∃ next, chase.resume reader turn = .again next ∧ SamePlace chase next := by
  rw [resume, quiet.gcLock]
  split
  · exact ⟨_, rfl, ⟨rfl, rfl, rfl, rfl, rfl, rfl⟩⟩
  · exact ⟨_, rfl, ⟨rfl, rfl, rfl, rfl, rfl, rfl⟩⟩

/-- Fetching the next older version, with its prior record set up. -/
theorem moveBack_progress (quiet : Quiet waits turn) {before : Chase Data}
    (view : chase.view = before.view) (newer : chase.rpb.newer = before.rpb.newer)
    (version : chase.rpb.version = before.rpb.version) (older : chase.rpb.older = before.rpb.older)
    (force : chase.forceBack ≤ before.forceBack)
    (prior : before.rpb.rpb_prior = priorBehind applyDiff before.rpb.newer →
      (before.rpb.version.deleted = true → priorBehind applyDiff before.rpb.newer = none) →
      chase.rpb.rpb_prior =
        before.rpb.version.priorFor applyDiff (priorBehind applyDiff before.rpb.newer)) :
    Progress applyDiff reader before (chase.moveBack reader turn) := by
  rw [moveBack]
  cases ahead : chase.rpb.older with
  | nil => trivial
  | cons back rest =>
      dsimp only
      obtain ⟨next, next_eq, same⟩ := @resume_quiet _ reader waits turn
        { chase with
          rpb := ⟨chase.rpb.newer ++ [chase.rpb.version], back, rest, chase.rpb.rpb_prior,
            back.transaction_nr, back.gcActive⟩ } quiet
      rw [next_eq]
      refine ⟨.back (older ▸ ahead) ?_ same.version same.older ?_ ?_, same.view.trans view⟩
      · rw [same.newer, newer, version]
      · rw [same.forceBack]
        exact force
      · intro before_prior holds_data
        rw [same.prior]
        exact prior before_prior holds_data

theorem fetchBack_progress (quiet : Quiet waits turn) {before : Chase Data}
    (view : chase.view = before.view) (newer : chase.rpb.newer = before.rpb.newer)
    (version : chase.rpb.version = before.rpb.version) (older : chase.rpb.older = before.rpb.older)
    (force : chase.forceBack ≤ before.forceBack)
    (prior : before.rpb.rpb_prior = priorBehind applyDiff before.rpb.newer →
      (before.rpb.version.deleted = true → priorBehind applyDiff before.rpb.newer = none) →
      chase.rpb.rpb_prior =
        before.rpb.version.priorFor applyDiff (priorBehind applyDiff before.rpb.newer)) :
    Progress applyDiff reader before (chase.fetchBack reader turn) := by
  rw [fetchBack, if_pos quiet.latched]
  exact moveBack_progress applyDiff quiet view newer version older force prior

theorem data_eq_of_prior (prior : chase.rpb.rpb_prior = priorBehind applyDiff chase.rpb.newer) :
    chase.data applyDiff = chase.rpb.version.data applyDiff (priorBehind applyDiff chase.rpb.newer) := by
  rw [data, RecordParam.chained]
  cases newer : chase.rpb.newer with
  | nil => rfl
  | cons first rest =>
      rw [newer] at prior
      rw [prior]
      rfl

theorem active_progress (quiet : Quiet waits turn) {before : Chase Data}
    (view : chase.view = before.view) (place : chase.rpb = before.rpb)
    (force : chase.forceBack ≤ before.forceBack)
    (number : chase.rpb.rpb_transaction_nr = chase.rpb.version.transaction_nr) :
    Progress applyDiff reader before (chase.active applyDiff reader turn) := by
  have newer : chase.rpb.newer = before.rpb.newer := by rw [place]
  have version : chase.rpb.version = before.rpb.version := by rw [place]
  have older : chase.rpb.older = before.rpb.older := by rw [place]
  rw [active]
  split
  · exact ⟨place, view⟩
  rename_i more
  split
  · exact ⟨place, view⟩
  split
  · rename_i whole
    refine fetchBack_progress applyDiff quiet view newer version older force ?_
    intro _ _
    rw [← place, Version.priorFor, whole]
    rfl
  rename_i delta
  rw [Bool.not_eq_false] at delta
  rw [quiet.reread]
  dsimp only [Reread.header]
  have prior_eq : before.rpb.rpb_prior = priorBehind applyDiff before.rpb.newer →
      (chase.readData applyDiff).rpb.rpb_prior =
        before.rpb.version.priorFor applyDiff (priorBehind applyDiff before.rpb.newer) := by
    intro prior
    rw [← place] at prior ⊢
    rw [readData, Version.priorFor, if_pos delta, ← data_eq_of_prior applyDiff prior]
    exact if_pos ⟨by simpa using more, delta⟩
  split
  · exact moveBack_progress applyDiff quiet view newer version older force
      fun prior _ => prior_eq prior
  split
  · rename_i differ
    exact absurd number.symm differ
  split
  · rename_i whole
    rw [delta] at whole
    cases whole
  · exact fetchBack_progress applyDiff quiet view newer version older force
      fun prior _ => prior_eq prior

theorem dead_progress (quiet : Quiet waits turn)
    (hidden : Hidden reader (fun _ => False) chase.view chase.rpb.version)
    (number : chase.rpb.rpb_transaction_nr = chase.rpb.version.transaction_nr) :
    Progress applyDiff reader chase (chase.dead applyDiff reader turn) := by
  rw [dead]
  split
  swap
  · rename_i cleanup
    have first : chase.rpb.newer = [] := by
      simp only [not_or, RecordParam.chained] at cleanup
      simpa using cleanup.2.2.2.1
    rw [restart, quiet.next]
    cases older : chase.rpb.older with
    | nil => trivial
    | cons back rest =>
        obtain ⟨next, next_eq, same⟩ := @resume_quiet _ reader waits turn
          { chase with
            rpb := .primary
              { back with
                damaged := false
                gcActive := false
                stored := back.data applyDiff (chase.rpb.version.priorFor applyDiff none) }
              rest } quiet
        change Progress applyDiff reader chase (resume reader turn _)
        rw [next_eq]
        refine ⟨.backout first hidden same.newer same.prior ?_, same.view⟩
        rw [same.version, same.older, older]
        rfl
  split
  · exact ⟨rfl, rfl⟩
  rename_i more
  split
  swap
  · rename_i stub
    rw [not_or, Bool.not_eq_false, Bool.not_eq_true] at stub
    refine fetchBack_progress applyDiff quiet rfl rfl rfl rfl (Nat.le_refl _) ?_
    intro prior holds_data
    rw [prior, holds_data stub.1, Version.priorFor, stub.2]
    rfl
  rw [quiet.reread]
  dsimp only [Reread.header]
  rw [if_neg (by decide), if_neg (not_not.mpr number.symm)]
  split
  · rename_i delta
    refine fetchBack_progress applyDiff quiet rfl rfl rfl rfl (Nat.le_refl _) ?_
    intro prior _
    rw [Version.priorFor, if_pos delta, ← data_eq_of_prior applyDiff prior]
  · rename_i whole
    refine fetchBack_progress applyDiff quiet rfl rfl rfl rfl (Nat.le_refl _) ?_
    intro _ _
    rw [Version.priorFor, if_neg whole, readData]
    exact if_neg fun both => whole both.2

theorem us_progress (quiet : Quiet waits turn) (unforced : chase.forceBack = 0) :
    Progress applyDiff reader chase (chase.us reader turn) := by
  rw [us]
  split
  swap
  · exact ⟨rfl, rfl⟩
  split
  · trivial
  · obtain ⟨next, next_eq, same⟩ := @resume_quiet _ reader waits turn
      { chase with forceBack := 1 } quiet
    rw [next_eq]
    exact ⟨.force ⟨same.newer, same.version, same.older, same.prior⟩ unforced same.forceBack,
      same.view⟩
  · rename_i twice_eq
    exact absurd twice_eq (getUndoData_ne_twice reader)
  · exact ⟨rfl, rfl⟩

theorem committed_progress (quiet : Quiet waits turn) (state : chase.state = .committed) :
    Progress applyDiff reader chase (chase.committed reader turn) := by
  rw [committed]
  split
  · exact ⟨rfl, rfl⟩
  rename_i present
  split
  · exact ⟨rfl, rfl⟩
  rename_i cleanup
  split
  · exact ⟨rfl, rfl⟩
  split
  · exact ⟨rfl, rfl⟩
  simp only [not_or, RecordParam.chained] at cleanup
  have first : chase.rpb.newer = [] := by simpa using cleanup.2.2.1
  have more : chase.rpb.older ≠ [] := by simpa using cleanup.2.1
  rw [restart, quiet.next]
  change Progress applyDiff reader chase (resume reader turn
    { chase with
      rpb := .primary { chase.rpb.version with delta := false, gcActive := false } [] })
  rw [resume, if_neg (fun both => by cases both.2)]
  exact ⟨.purge first more state ((Bool.not_eq_true _).mp present) rfl rfl rfl rfl rfl rfl, rfl⟩

theorem branch_progress (quiet : Quiet waits turn)
    (ready : Ready reader (fun _ => False) (fun number => waits number = .found .committed) chase)
    (number : chase.rpb.rpb_transaction_nr = chase.rpb.version.transaction_nr) :
    Progress applyDiff reader chase (chase.branch applyDiff reader turn) := by
  rw [branch]
  cases ready with
  | committed state shown =>
      simp only [state, reduceCtorEq, false_and, if_false]
      exact committed_progress applyDiff quiet state
  | own state _ flag shown writer =>
      by_cases force : chase.forceBack = 0
      · simp only [state, force, ne_eq, not_true, and_false, if_false]
        exact us_progress applyDiff quiet force
      · simp only [state, force, ne_eq, not_false_eq_true, and_self, if_true]
        exact active_progress applyDiff quiet rfl rfl (Nat.sub_le _ _) number
  | backout state hidden =>
      have finished := dead_progress applyDiff quiet hidden number
      rcases state with state | state
      · simpa only [state, reduceCtorEq, false_and, if_false] using finished
      · simpa only [state, reduceCtorEq, false_and, if_false] using finished
  | away state hidden writer =>
      have finished := @active_progress _ applyDiff reader waits turn chase quiet chase rfl rfl
        (Nat.le_refl _) number
      rcases state with state | state
      · simpa only [state, reduceCtorEq, false_and, if_false] using finished
      · simp only [state, reduceCtorEq, false_and, if_false]
        split
        · exact finished
        · trivial

/-! ## Whole turns -/

variable (reader turn chase) in
/-- The chase once its state is settled. -/
def settle : Chase Data := (chase.limboWait reader turn).checkPrecommitted reader

theorem settle_place :
    (settle reader turn chase).rpb = chase.rpb ∧
      (settle reader turn chase).forceBack = chase.forceBack ∧
      (settle reader turn chase).view = (chase.limboWait reader turn).view := by
  have waited : (chase.limboWait reader turn).rpb = chase.rpb ∧
      (chase.limboWait reader turn).forceBack = chase.forceBack := by
    rw [limboWait]
    split
    · dsimp only
      split
      · exact ⟨rfl, rfl⟩
      · exact ⟨rfl, rfl⟩
    · exact ⟨rfl, rfl⟩
  rw [settle, checkPrecommitted]
  split
  · exact ⟨waited.1, waited.2, rfl⟩
  · exact ⟨waited.1, waited.2, rfl⟩

theorem AllHidden.settle {held : Nat → Prop} {versions : List (Version Data)}
    (hidden : AllHidden reader held chase.view versions) :
    AllHidden reader held (Chase.settle reader turn chase).view versions := by
  rw [settle_place.2.2, limboWait]
  split
  · dsimp only
    split
    · exact hidden.wait _ _
    · exact hidden.wait _ _
  · exact hidden

theorem turn_progress (quiet : Quiet waits turn) (direct : DoesNotWait reader)
    (good : Good reader (fun _ => False) chase) (sound : chase.rpb.version.damaged = false) :
    Progress applyDiff reader (settle reader turn chase) (Chase.turn applyDiff reader turn chase) := by
  have resolve : ∀ number, turn.waited number = .found .committed →
      waits number = .found .committed := by
    rw [quiet.waited]
    exact fun _ => id
  have settled := checkPrecommitted_settled (limboWait_settled resolve good).2
  have number : (settle reader turn chase).rpb.rpb_transaction_nr =
      (settle reader turn chase).rpb.version.transaction_nr := by
    cases settled with
    | known number => exact number
    | backingOut flag still holder state => exact absurd holder id
    | backedOut flag number state => exact number
  rw [Chase.turn, if_neg (by simp [sound]), readWait, if_neg direct]
  exact branch_progress applyDiff quiet settled.ready number

variable (reader waits) in
/-- The next turn returns the version. -/
structure Certain (chase : Chase Data) : Prop where
  newer : chase.rpb.newer = []
  older : chase.rpb.older = []
  sound : chase.rpb.version.damaged = false
  present : chase.rpb.version.deleted = false
  number : chase.rpb.rpb_transaction_nr = chase.rpb.version.transaction_nr
  state : chase.state = .committed ∨ chase.state = .limbo ∧ reader.ignoreLimbo = false ∧
    waits chase.rpb.version.transaction_nr = .found .committed

theorem Certain.returns (certain : Certain reader waits chase) (quiet : Quiet waits turn)
    (direct : DoesNotWait reader) :
    ∃ after, Chase.turn applyDiff reader turn chase = .returned true after ∧
      after.rpb = chase.rpb ∧ after.view = (settle reader turn chase).view := by
  have settled : (settle reader turn chase).state = .committed := by
    rw [settle, limboWait]
    rcases certain.state with committed | ⟨limbo, strict, found⟩
    · rw [if_neg (by rw [committed]; simp), checkPrecommitted, if_neg (by rw [committed]; decide)]
      exact committed
    · have waited : (chase.wait reader turn.waited).state = .committed := by
        rw [wait, quiet.waited, certain.number, found]
        rfl
      dsimp only
      rw [if_pos ⟨limbo, strict⟩, if_neg (by rw [waited]; decide), checkPrecommitted,
        if_neg (by rw [waited]; decide)]
      exact waited
  have place := @settle_place _ reader turn chase
  rw [Chase.turn, if_neg (by simp [certain.sound]), readWait, if_neg direct]
  change ∃ after, branch applyDiff reader turn (settle reader turn chase) = _ ∧ _
  rw [branch]
  simp only [settled, reduceCtorEq, false_and, if_false]
  rw [committed, place.1, if_neg (by simp [certain.present]), if_pos (.inr (.inl (by simp [certain.older])))]
  exact ⟨_, rfl, place.1, rfl⟩

/-- A state that settles as committed is so in the snapshot, or by the wait. -/
theorem settle_committed (quiet : Quiet waits turn) (good : Good reader (fun _ => False) chase)
    (state : (settle reader turn chase).state = .committed) :
    (settle reader turn chase).view = chase.view ∧
      chase.rpb.rpb_transaction_nr = chase.rpb.version.transaction_nr ∧
      chase.state = reader.snapshotState chase.view chase.rpb.version.transaction_nr ∧
      (chase.state = .committed ∨ chase.state = .limbo ∧ reader.ignoreLimbo = false ∧
        waits chase.rpb.version.transaction_nr = .found .committed) := by
  have place := @settle_place _ reader turn chase
  rw [place.2.2]
  have waited : (chase.limboWait reader turn).state = .committed := by
    rw [settle, checkPrecommitted] at state
    split at state
    · rw [Reader.checkPrecommitted] at state
      split at state
      · split at state
        · cases state
        split at state
        · cases state
        · cases state
      · cases state
    · exact state
  have plain (committed_or_limbo : chase.state = .committed ∨ chase.state = .limbo) :
      chase.rpb.rpb_transaction_nr = chase.rpb.version.transaction_nr ∧
        chase.state = reader.snapshotState chase.view chase.rpb.version.transaction_nr := by
    cases good.stateOk with
    | plain number flag state => exact ⟨number, state⟩
    | backingOut flag still holder state => exact absurd holder id
    | backedOut flag number state => simp [state] at committed_or_limbo
  rw [limboWait] at waited ⊢
  split at waited
  swap
  · rename_i same
    rw [if_neg same]
    exact ⟨rfl, (plain (.inl waited)).1, (plain (.inl waited)).2, .inl waited⟩
  rename_i limbo
  rw [if_pos limbo]
  dsimp only at waited ⊢
  split at waited
  · cases waited
  rename_i ended
  rw [if_neg ended]
  have found := (wait_state reader chase.view chase.rpb.rpb_transaction_nr
    (turn.waited chase.rpb.rpb_transaction_nr)).2 waited
  refine ⟨found.2, (plain (.inr limbo.1)).1, (plain (.inr limbo.1)).2,
    .inr ⟨limbo.1, limbo.2, ?_⟩⟩
  rw [← quiet.waited, ← (plain (.inr limbo.1)).1]
  exact found.1

/-! ## Whole runs -/

theorem map_writing_backout (version : Version Data) (older : List (Version Data)) :
    (Chase.backout applyDiff version older).map writing = older.map writing := by
  cases older with
  | nil => rfl
  | cons back rest => rfl

theorem deltasHoldData_backout {version : Version Data} {older : List (Version Data)}
    (holds : DeltasHoldData (version :: older)) :
    DeltasHoldData (Chase.backout applyDiff version older) := by
  cases older with
  | nil => trivial
  | cons back rest =>
      cases rest with
      | nil => trivial
      | cons next rest => exact holds.2

/-- Behind a version stored as differences there is data, so nothing is carried over a deletion. -/
theorem priorBehind_of_deleted {newer older : List (Version Data)} {version : Version Data}
    (holds : DeltasHoldData (newer ++ version :: older)) (deleted : version.deleted = true) :
    priorBehind applyDiff newer = none := by
  rcases List.eq_nil_or_concat newer with rfl | ⟨front, last, rfl⟩
  · rfl
  rw [List.concat_eq_append] at holds ⊢
  have pair : ∀ front : List (Version Data),
      DeltasHoldData (front ++ [last] ++ version :: older) → last.delta = true →
        version.deleted = false := by
    intro front
    induction front with
    | nil => exact fun both => both.1
    | cons first front ih =>
        intro both
        cases front with
        | nil => exact ih both.2
        | cons second front => exact ih both.2
  rw [priorBehind_append, Version.priorFor, if_neg]
  intro delta
  rw [pair front holds delta] at deleted
  cases deleted

variable (reader waits) in
/-- Where the chase stands in the record as it was on entry. -/
structure Traced (origin : List (Version Data)) (chase : Chase Data) : Prop where
  split : ∃ dropped purged : List (Version Data),
    origin.map writing =
        dropped.map writing ++ chase.rpb.chain.map writing ++ purged.map writing ∧
      AllHidden reader (fun _ => False) chase.view dropped ∧
      (purged ≠ [] → Certain reader waits chase)
  prior : DeltasHoldData origin →
    DeltasHoldData chase.rpb.chain ∧
      chase.rpb.rpb_prior = priorBehind applyDiff chase.rpb.newer

theorem Traced.advance {origin : List (Version Data)} {after : Chase Data}
    (traced : Traced applyDiff reader waits origin chase) (quiet : Quiet waits turn)
    (direct : DoesNotWait reader) (good : Good reader (fun _ => False) chase)
    (sound : chase.rpb.version.damaged = false)
    (turned : Chase.turn applyDiff reader turn chase = .again after) :
    Traced applyDiff reader waits origin after := by
  obtain ⟨⟨dropped, purged, origin_eq, hidden, certain⟩, prior⟩ := traced
  have nothing_purged : purged = [] := by
    by_contra some_purged
    obtain ⟨final, returns, _⟩ := (certain some_purged).returns applyDiff quiet direct
    rw [turned] at returns
    cases returns
  subst nothing_purged
  obtain ⟨same_rpb, same_force, _⟩ := @settle_place _ reader turn chase
  have progress := turn_progress applyDiff quiet direct good sound
  rw [turned] at progress
  obtain ⟨advance, view_eq⟩ := progress
  have still_hidden : AllHidden reader (fun _ => False) after.view dropped :=
    view_eq ▸ AllHidden.settle hidden
  have hidden_now (version_hidden : Hidden reader (fun _ => False)
      (settle reader turn chase).view chase.rpb.version) :
      AllHidden reader (fun _ => False) after.view (dropped ++ [chase.rpb.version]) := by
    intro version member
    rcases List.mem_append.mp member with before | last
    · exact still_hidden version before
    · rw [List.mem_singleton.mp last, view_eq]
      exact version_hidden
  cases advance with
  | back ahead newer version_eq older force prior_eq =>
      rw [same_rpb] at ahead newer prior_eq
      have chain_eq : after.rpb.chain = chase.rpb.chain := by
        rw [RecordParam.chain, RecordParam.chain, newer, version_eq, older, ahead,
          List.append_assoc]
        rfl
      refine ⟨⟨dropped, [], chain_eq ▸ origin_eq, still_hidden, fun some_purged =>
        absurd rfl some_purged⟩, fun holds => ?_⟩
      obtain ⟨holds_now, prior_now⟩ := prior holds
      refine ⟨chain_eq ▸ holds_now, ?_⟩
      rw [newer, priorBehind_append]
      exact prior_eq prior_now fun deleted => priorBehind_of_deleted applyDiff holds_now deleted
  | backout first version_hidden newer prior_eq chain =>
      rw [same_rpb] at first version_hidden chain
      have chain_eq : after.rpb.chain =
          Chase.backout applyDiff chase.rpb.version chase.rpb.older := by
        rw [RecordParam.chain, newer]
        exact chain
      refine ⟨⟨dropped ++ [chase.rpb.version], [], ?_, hidden_now version_hidden,
        fun some_purged => absurd rfl some_purged⟩, fun holds => ?_⟩
      · rw [origin_eq, chain_eq, map_writing_backout, RecordParam.chain, first]
        simp
      · have holds_now := (prior holds).1
        rw [RecordParam.chain, first] at holds_now
        rw [chain_eq, newer]
        exact ⟨deltasHoldData_backout applyDiff holds_now, prior_eq⟩
  | purge first more state present newer prior_eq version older number fresh =>
      rw [same_rpb] at first more present version number fresh
      obtain ⟨same_view, number_eq, state_eq, why⟩ := settle_committed quiet good state
      have sure : Certain reader waits after := by
        refine ⟨newer, older, ?_, ?_, ?_, ?_⟩
        · rw [version]
          exact sound
        · rw [version]
          exact present
        · rw [number, version]
        · rw [fresh, same_view, ← state_eq, version]
          exact why
      refine ⟨⟨dropped, chase.rpb.older, ?_, still_hidden, fun _ => sure⟩, fun _ => ?_⟩
      · rw [origin_eq, RecordParam.chain, RecordParam.chain, first, newer, version, older]
        simp [writing]
      · rw [RecordParam.chain, newer, older]
        exact ⟨trivial, prior_eq⟩
  | force same was now =>
      rw [same_rpb] at same
      obtain ⟨newer, version, older, prior_eq⟩ := same
      have chain_eq : after.rpb.chain = chase.rpb.chain := by
        rw [RecordParam.chain, RecordParam.chain, newer, version, older]
      refine ⟨⟨dropped, [], chain_eq ▸ origin_eq, still_hidden, fun some_purged =>
        absurd rfl some_purged⟩, fun holds => ?_⟩
      rw [chain_eq, newer, prior_eq]
      exact prior holds

/-- A bound on the turns that are left. -/
def weight (chase : Chase Data) : Nat :=
  3 * (chase.rpb.chain.length * chase.rpb.chain.length) + 2 * chase.rpb.older.length +
    (1 - chase.forceBack)

theorem Advance.weight_lt {before after : Chase Data}
    (advance : Advance applyDiff reader before after) : after.weight < before.weight := by
  have grows (fewer more : Nat) (less : fewer < more) :
      3 * (fewer * fewer) + 2 * fewer + 3 ≤ 3 * (more * more) := by
    obtain ⟨rest, rfl⟩ := Nat.exists_eq_add_of_lt less
    have expand : (fewer + rest + 1) * (fewer + rest + 1) =
        fewer * fewer + 2 * (fewer * rest) + rest * rest + 2 * fewer + 2 * rest + 1 := by
      simp only [Nat.add_mul, Nat.mul_add, Nat.mul_one, Nat.one_mul, Nat.mul_comm rest fewer]
      omega
    rw [expand]
    omega
  rw [weight, weight]
  cases advance with
  | back ahead newer version_eq older force prior_eq =>
      have chain_eq : after.rpb.chain.length = before.rpb.chain.length := by
        rw [RecordParam.chain, RecordParam.chain, newer, older, ahead]
        simp
      rw [chain_eq, older, ahead, List.length_cons]
      omega
  | backout first version_hidden newer prior_eq chain =>
      have lengths := congrArg List.length (map_writing_backout applyDiff before.rpb.version
        before.rpb.older)
      rw [← chain, List.length_map, List.length_map, List.length_cons] at lengths
      have after_eq : after.rpb.chain.length = before.rpb.older.length := by
        rw [RecordParam.chain, newer]
        exact lengths
      have before_eq : before.rpb.chain.length = before.rpb.older.length + 1 := by
        rw [RecordParam.chain, first]
        rfl
      have := grows before.rpb.older.length (before.rpb.older.length + 1) (Nat.lt_succ_self _)
      rw [after_eq, before_eq]
      omega
  | purge first more state present newer prior_eq version older number fresh =>
      have after_eq : after.rpb.chain.length = 1 := by
        rw [RecordParam.chain, newer, older]
        rfl
      have before_eq : before.rpb.chain.length = before.rpb.older.length + 1 := by
        rw [RecordParam.chain, first]
        rfl
      have some_older : 0 < before.rpb.older.length := List.length_pos_iff.mpr more
      have := grows 1 (before.rpb.older.length + 1) (by omega)
      rw [after_eq, before_eq, older, List.length_nil]
      omega
  | force same was now =>
      obtain ⟨newer, version, older, _⟩ := same
      rw [RecordParam.chain, RecordParam.chain, newer, version, older, was, now]
      omega

/-- The answer for the record as it was on entry: what was taken away before the version is hidden,
and what was taken away behind it does not matter. -/
def Answers (reader : Reader) (origin : List (Version Data)) : Step Data → Prop
  | .returned found chase =>
      (∃ dropped purged : List (Version Data),
        origin.map writing =
            dropped.map writing ++ chase.rpb.chain.map writing ++ purged.map writing ∧
          AllHidden reader (fun _ => False) chase.view dropped ∧
          (purged ≠ [] → found = true)) ∧
        (DeltasHoldData origin →
          chase.data applyDiff =
            chase.rpb.version.data applyDiff (priorBehind applyDiff chase.rpb.newer))
  | .again _ => False
  | _ => True

theorem Traced.answers {origin : List (Version Data)} {after : Chase Data} {found : Bool}
    (traced : Traced applyDiff reader waits origin chase) (place : after.rpb = chase.rpb)
    (still : ∀ versions : List (Version Data), AllHidden reader (fun _ => False) chase.view versions →
      AllHidden reader (fun _ => False) after.view versions)
    (sure : Certain reader waits chase → found = true) :
    Answers applyDiff reader origin (.returned found after) := by
  obtain ⟨⟨dropped, purged, origin_eq, hidden, certain⟩, prior⟩ := traced
  refine ⟨⟨dropped, purged, place ▸ origin_eq, still dropped hidden,
    fun some_purged => sure (certain some_purged)⟩, fun holds => ?_⟩
  have prior_now := (prior holds).2
  rw [← place] at prior_now
  exact data_eq_of_prior applyDiff prior_now

theorem run_answers {origin : List (Version Data)} {schedule : List (Turn Data)}
    (direct : DoesNotWait reader) (quiet : ∀ turn ∈ schedule, Quiet waits turn)
    (good : Good reader (fun _ => False) chase)
    (traced : Traced applyDiff reader waits origin chase)
    (enough : chase.weight < schedule.length) :
    Answers applyDiff reader origin (chase.run applyDiff reader schedule) := by
  induction schedule generalizing chase with
  | nil => exact absurd enough (Nat.not_lt_zero _)
  | cons turn schedule ih =>
      have quiet_now := quiet turn List.mem_cons_self
      have fine := @turn_fine _ applyDiff reader (fun _ => False)
        (fun number => waits number = .found .committed) turn chase
        (by rw [quiet_now.gcLock]; exact fun _ held => by cases held)
        (by rw [quiet_now.waited]; exact fun _ => id) good
      rw [run]
      by_cases sound : chase.rpb.version.damaged = false
      swap
      · rw [Chase.turn, if_pos ((Bool.not_eq_false _).mp sound)]
        exact traced.answers applyDiff rfl (fun _ => id) fun certain => absurd certain.sound sound
      have progress := turn_progress applyDiff quiet_now direct good sound
      cases turned : Chase.turn applyDiff reader turn chase with
      | again after =>
          rw [turned] at fine progress
          have lighter := progress.1.weight_lt
          have same : (settle reader turn chase).weight = chase.weight := by
            rw [weight, weight, settle_place.1, settle_place.2.1]
          rw [List.length_cons] at enough
          exact ih (fun other member => quiet other (List.mem_cons_of_mem _ member)) fine
            (traced.advance applyDiff quiet_now direct good sound turned) (by omega)
      | returned found after =>
          rw [turned] at progress
          refine traced.answers applyDiff (progress.1.trans settle_place.1)
            (fun versions hidden => progress.2 ▸ AllHidden.settle hidden) ?_
          intro certain
          obtain ⟨final, returns, _⟩ := certain.returns applyDiff quiet_now direct
          rw [turned] at returns
          cases returns
          rfl
      | gone => trivial
      | undone => trivial
      | raised error => trivial

/-- Turns that always suffice for a chain of the given length. -/
def turns (length : Nat) : Nat := 3 * (length * length) + 2 * length + 1

theorem fastPath_cases (reader : Reader) (chase : Chase Data) :
    chase.fastPath reader = .returned true chase ∨ chase.fastPath reader = .again chase := by
  rw [fastPath]
  split
  · exact .inl rfl
  · exact .inr rfl

/-- The part before the loop leaves the chase on the primary version. -/
theorem enter_cases (view : View) (version : Version Data) (older : List (Version Data)) :
    ∃ forceBack ≤ 1, ∃ chase : Chase Data, chase.rpb.chain = version :: older ∧
      chase.rpb.newer = [] ∧ chase.rpb.rpb_prior = none ∧ chase.forceBack = forceBack ∧
      (enter reader view version older none = .undone ∨
        enter reader view version older none = .returned true chase ∨
        enter reader view version older none = .again chase) := by
  have opened_eq : (opened reader view version older none).rpb.chain = version :: older ∧
      (opened reader view version older none).rpb.newer = [] ∧
      (opened reader view version older none).rpb.rpb_prior = none ∧
      (opened reader view version older none).forceBack = 0 := by
    rw [opened]
    split
    · exact ⟨rfl, rfl, rfl, rfl⟩
    · exact ⟨rfl, rfl, rfl, rfl⟩
  obtain ⟨chain, newer, prior, force⟩ := opened_eq
  rw [enter]
  generalize opened reader view version older none = chase at chain newer prior force
  split
  swap
  · exact ⟨0, Nat.zero_le _, chase, chain, newer, prior, force, .inr (fastPath_cases reader chase)⟩
  split
  · exact ⟨0, Nat.zero_le _, chase, chain, newer, prior, force, .inl rfl⟩
  · exact ⟨1, Nat.le_refl _, { chase with forceBack := 1 }, chain, newer, prior, rfl,
      .inr (fastPath_cases reader _)⟩
  · rename_i twice_eq
    exact absurd twice_eq (getUndoData_ne_twice reader)
  · exact ⟨0, Nat.zero_le _, chase, chain, newer, prior, force, .inr (fastPath_cases reader chase)⟩

end Chase

/-- The version returned is the newest one that the reader may see, in the chain as last fetched;
without interference an answer comes, and it is the answer for the record as it was on entry. -/
theorem chaseRecordVersion_newest {Data : Type} (applyDiff : Data → Data → Data) (reader : Reader)
    (view : View) (version : Version Data) (older : List (Version Data)) (gcLock : Option Nat)
    (schedule : List (Turn Data)) :
    Chase.Verdict reader
        (fun number => gcLock = some number ∨ ∃ turn ∈ schedule, turn.gcLock = some number)
        (fun number => ∃ turn ∈ schedule, turn.waited number = .found .committed)
        (chaseRecordVersion applyDiff reader view version older gcLock schedule) ∧
      ∀ waits : Nat → Waited, Chase.DoesNotWait reader → gcLock = none →
        (∀ turn ∈ schedule, Chase.Quiet waits turn) →
        Chase.turns (version :: older).length ≤ schedule.length →
        Chase.Answers applyDiff reader (version :: older)
          (chaseRecordVersion applyDiff reader view version older gcLock schedule) := by
  constructor
  · have fine := @Chase.enter_fine Data reader
      (fun number => gcLock = some number ∨ ∃ turn ∈ schedule, turn.gcLock = some number)
      (fun number => ∃ turn ∈ schedule, turn.waited number = .found .committed) view version older
      gcLock fun _ => .inl
    rw [chaseRecordVersion]
    generalize Chase.enter reader view version older gcLock = entered at fine
    cases entered with
    | again chase =>
        exact Chase.run_fine applyDiff
          (fun turn member number taken => .inr ⟨turn, member, taken⟩)
          (fun turn member number found => ⟨turn, member, found⟩) fine
    | returned found chase => exact fine
    | gone => trivial
    | undone => exact fine
    | raised error => exact fine
  · intro waits direct unlocked quiet enough
    subst unlocked
    have fine := @Chase.enter_fine Data reader (fun _ => False)
      (fun number => waits number = .found .committed) view version older none
      fun _ held => by cases held
    obtain ⟨forceBack, forced, chase, chain, newer, prior, force_eq, entered⟩ :=
      @Chase.enter_cases Data reader view version older
    have none_hidden : Chase.AllHidden reader (fun _ => False) chase.view
        ([] : List (Version Data)) :=
      fun _ member => absurd member List.not_mem_nil
    have traced : Chase.Traced applyDiff reader waits (version :: older) chase := by
      refine ⟨⟨[], [], ?_, none_hidden, fun some_purged => absurd rfl some_purged⟩,
        fun holds => ?_⟩
      · rw [chain]
        simp
      · rw [chain, newer, prior]
        exact ⟨holds, rfl⟩
    rw [chaseRecordVersion]
    rcases entered with undone | returned | again
    · rw [undone]
      trivial
    · rw [returned]
      exact traced.answers applyDiff rfl (fun _ => id) fun _ => rfl
    · rw [again] at fine ⊢
      refine Chase.run_answers applyDiff direct quiet fine traced ?_
      have lengths : chase.rpb.older.length + 1 = (version :: older).length := by
        rw [← chain, RecordParam.chain, newer]
        rfl
      rw [Chase.turns] at enough
      rw [Chase.weight, chain]
      omega

/-- Transaction 20 with a snapshot from 10 on, under the background garbage collector. -/
def snapshotReader : Reader where
  tra_number := 20
  tra_top := 20
  tra_oldest := 10
  oldest_snapshot := 10
  readCommitted := false
  recVersion := false
  ignoreLimbo := false
  system := false
  commitSubTrans _ := false
  savePoint := none
  attTransactions := [20]
  noCleanup := false
  notifyGc := true
  garbageCollector := false
  gcCooperative := false
  readOnlyDatabase := false
  isTemporary := false
  writelock := false
  noundo := false

/-- In the snapshot, transaction 12 is in limbo and 13 is active. -/
def limboView : View where
  tra_transactions := [0, 1, 0, 0]
  states := { tpc := fun _ => .committed, precommitted := fun _ => false }

/-- A version without flags. -/
def plainVersion (transaction_nr : Nat) : Version Nat where
  transaction_nr
  deleted := false
  damaged := false
  delta := false
  gcActive := false
  stored := transaction_nr

/-- A turn in which nobody else does anything; writers in limbo are found committed. -/
def resolvingTurn : Turn Nat where
  waited _ := .found .committed
  waitedRead _ := .refused
  refetched := none
  reread := .unchanged
  latched := true
  gcEnabled := true
  next := none
  gcLock := none

/-- Behind an active writer the committed version is found. -/
theorem chaseRecordVersion_newest_active :
    Chase.Answers (fun _ stored => stored) snapshotReader [plainVersion 13, plainVersion 5]
      (chaseRecordVersion (fun _ stored => stored) snapshotReader limboView (plainVersion 13)
        [plainVersion 5] none (List.replicate 17 resolvingTurn)) := by
  refine (chaseRecordVersion_newest (fun _ stored => stored) snapshotReader limboView
    (plainVersion 13) [plainVersion 5] none (List.replicate 17 resolvingTurn)).2
    (fun _ => .found .committed) (fun waits => by cases waits.1) rfl ?_ (by decide)
  intro turn member
  rw [List.eq_of_mem_replicate member]
  exact ⟨rfl, rfl, rfl, rfl, rfl⟩

/-- A version is returned though its writer is in limbo in the snapshot. -/
theorem chaseRecordVersion_limbo :
    ¬∀ (reader : Reader) (view : View) (version : Version Nat) (older : List (Version Nat))
      (gcLock : Option Nat) (schedule : List (Turn Nat)) (chase : Chase Nat),
      chaseRecordVersion (fun _ stored => stored) reader view version older gcLock schedule =
        .returned true chase →
      reader.snapshotState view chase.rpb.version.transaction_nr = .committed ∨
        reader.snapshotState view chase.rpb.version.transaction_nr = .us := by
  intro claim
  have visible := claim snapshotReader limboView (plainVersion 12) [] none [resolvingTurn] _ rfl
  revert visible
  decide

end Firebird
