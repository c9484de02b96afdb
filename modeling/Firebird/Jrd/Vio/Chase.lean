import Firebird.Jrd.Vio.Version

/-!
# `VIO_chase_record_version`

The loop over the versions of a record.  Whenever the routine gives up its latch, others may change
the record: what each turn of the loop meets (the outcome of waiting, of taking a latch or a lock,
and the record found when it is fetched again) comes from a schedule.
-/

namespace Firebird

/-- The `record_param` of the chase, with the versions left behind and the versions still ahead. -/
structure RecordParam (Data : Type) where
  /-- The versions newer than the current one; there are none on the primary version. -/
  newer : List (Version Data)
  version : Version Data
  /-- The chain behind `rpb_b_page` and `rpb_b_line`. -/
  older : List (Version Data)
  rpb_prior : Option Data
  rpb_transaction_nr : Nat
  rpb_gc_active : Bool

/-- `rpb_chained`. -/
def RecordParam.chained {Data : Type} (rpb : RecordParam Data) : Bool := !rpb.newer.isEmpty

/-- The chain of the record as the reader has seen it. -/
def RecordParam.chain {Data : Type} (rpb : RecordParam Data) : List (Version Data) :=
  rpb.newer ++ rpb.version :: rpb.older

/-- The header of the primary version, as `DPM_get` reads it. -/
def RecordParam.primary {Data : Type} (version : Version Data) (older : List (Version Data)) :
    RecordParam Data :=
  ⟨[], version, older, none, version.transaction_nr, version.gcActive⟩

/-- A record as others leave it. -/
structure Scene (Data : Type) where
  chain : List (Version Data)
  states : States

/-- What `DPM_fetch` finds in the place of a version after `VIO_data` gave up the latch. -/
inductive Reread (Data : Type) where
  | lost
  | unchanged
  /-- Another header, with its back versions; the flag says that the pointers and the other flags
  are those from before. -/
  | found (version : Version Data) (older : List (Version Data)) (same : Bool)

/-- The header and back versions that `DPM_fetch` finds, and whether the pointers and the flags are
those from before. -/
def Reread.header {Data : Type} (rpb : RecordParam Data) :
    Reread Data → Option (Version Data × List (Version Data) × Bool)
  | .lost => none
  | .unchanged => some (rpb.version, rpb.older, true)
  | .found version older same => some (version, older, same)

/-- What one turn of the loop meets. -/
structure Turn (Data : Type) where
  /-- `wait` on a writer in limbo, by its number. -/
  waited : Nat → Waited
  /-- `wait` on a writer by a reader without record versions. -/
  waitedRead : Nat → Waited
  /-- What `DPM_get` finds after that wait; nothing if nobody changed the record. -/
  refetched : Option (Scene Data)
  reread : Reread Data
  /-- `DPM_fetch_back` gets its latch in time. -/
  latched : Bool
  /-- `gcGuard.gcEnabled()`. -/
  gcEnabled : Bool
  /-- What the last `DPM_get` of the turn finds; nothing if nobody but the reader changed it. -/
  next : Option (Scene Data)
  /-- The data of the record's garbage collection lock, if another process holds it. -/
  gcLock : Option Nat

/-- The variables of the loop. -/
structure Chase (Data : Type) where
  view : View
  rpb : RecordParam Data
  state : WriterState
  forceBack : Nat

/-- Errors that the chase posts. -/
inductive ChaseError where
  /-- `isc_rec_in_limbo`. -/
  | recordInLimbo (number : Nat)
  /-- `isc_deadlock`, `isc_trainlim`. -/
  | transactionInLimbo
  /-- `isc_deadlock`, `isc_read_conflict`, `isc_concurrent_transaction`. -/
  | readConflict (number : Nat)
  /-- `BUGCHECK(291)`. -/
  | noBackVersion
  deriving DecidableEq, Repr

/-- The outcome of a turn. -/
inductive Step (Data : Type) where
  | returned (found : Bool) (chase : Chase Data)
  /-- The record is gone; the routine returns `false`. -/
  | gone
  /-- The routine returns `true` with a record from the undo log. -/
  | undone
  | raised (error : ChaseError)
  | again (chase : Chase Data)

namespace Chase

variable {Data : Type} (applyDiff : Data → Data → Data)

/-- `DPM_get`, given the record as the reader's own actions leave it. -/
def get (chase : Chase Data) (scene : Option (Scene Data)) (own : List (Version Data)) :
    Option (Chase Data) :=
  let (chain, states) :=
    match scene with
    | some scene => (scene.chain, scene.states)
    | none => (own, chase.view.states)
  match chain with
  | [] => none
  | version :: older =>
      some { chase with view := { chase.view with states }, rpb := .primary version older }

/-- `checkGCActive`. -/
def checkGCActive (chase : Chase Data) (gcLock : Option Nat) : Chase Data :=
  match gcLock with
  | some number =>
      { chase with rpb := { chase.rpb with rpb_transaction_nr := number }, state := .active }
  | none => { chase with rpb := { chase.rpb with rpb_gc_active := false }, state := .dead }

/-- The record after `VIO_backout` of its primary version: the first back version takes its place, as
a whole. -/
def backout (version : Version Data) (older : List (Version Data)) : List (Version Data) :=
  match older with
  | [] => []
  | back :: rest =>
      { back with
        damaged := false
        gcActive := false
        stored := back.data applyDiff (version.priorFor applyDiff none) } :: rest

/-- The record after `purge` of its back versions. -/
def purge (version : Version Data) : List (Version Data) :=
  [{ version with delta := false, gcActive := false }]

/-- The end of a turn. -/
def resume (reader : Reader) (turn : Turn Data) (chase : Chase Data) : Step Data :=
  let state := reader.snapshotState chase.view chase.rpb.rpb_transaction_nr
  if chase.rpb.chained = false ∧ chase.rpb.rpb_gc_active = true then
    .again ({ chase with state }.checkGCActive turn.gcLock)
  else
    .again { chase with state }

/-- Back to the primary version. -/
def restart (reader : Reader) (turn : Turn Data) (own : List (Version Data))
    (chase : Chase Data) : Step Data :=
  match chase.get turn.next own with
  | some chase => chase.resume reader turn
  | none => .gone

/-- The header of the next older version is fetched. -/
def moveBack (reader : Reader) (turn : Turn Data) (chase : Chase Data) : Step Data :=
  match chase.rpb.older with
  | [] => .raised .noBackVersion
  | version :: older =>
      let newer := chase.rpb.newer ++ [chase.rpb.version]
      resume reader turn
        { chase with
          rpb :=
            ⟨newer, version, older, chase.rpb.rpb_prior, version.transaction_nr,
              version.gcActive⟩ }

/-- `DPM_fetch_back`, with a new start after a latch timeout. -/
def fetchBack (reader : Reader) (turn : Turn Data) (chase : Chase Data) : Step Data :=
  if turn.latched then
    chase.moveBack reader turn
  else
    chase.restart reader turn chase.rpb.chain

/-- The record that `VIO_data` builds. -/
def data (chase : Chase Data) : Data :=
  chase.rpb.version.data applyDiff (if chase.rpb.chained then chase.rpb.rpb_prior else none)

/-- `VIO_data`: the prior record for the next version is set up. -/
def readData (chase : Chase Data) : Chase Data :=
  let prior :=
    if chase.rpb.older.isEmpty = false ∧ chase.rpb.version.delta = true then
      some (chase.data applyDiff)
    else
      none
  { chase with rpb := { chase.rpb with rpb_prior := prior } }

/-- `case tra_active`. -/
def active (reader : Reader) (turn : Turn Data) (chase : Chase Data) : Step Data :=
  if chase.rpb.older.isEmpty then
    .returned false chase
  else if reader.garbageCollector then
    .returned false chase
  else if chase.rpb.version.delta = false then
    fetchBack reader turn { chase with rpb := { chase.rpb with rpb_prior := none } }
  else
    let temp := chase.rpb
    let chase := chase.readData applyDiff
    match turn.reread.header temp with
    | none => chase.restart reader turn temp.chain
    | some (version, older, _) =>
        if temp.chained then
          chase.moveBack reader turn
        else if version.transaction_nr ≠ temp.rpb_transaction_nr then
          chase.restart reader turn temp.chain
        else
          let found := { chase with rpb := { chase.rpb with version, older } }
          if older.isEmpty then
            .returned false found
          else if version.delta = false then
            fetchBack reader turn { found with rpb := { found.rpb with rpb_prior := none } }
          else
            found.fetchBack reader turn

/-- `case tra_dead` and `case tra_precommitted`. -/
def dead (reader : Reader) (turn : Turn Data) (chase : Chase Data) : Step Data :=
  if reader.noCleanup ∨ reader.notifyGc ∨ turn.gcEnabled = false ∨ chase.rpb.chained ∨
      chase.rpb.rpb_gc_active then
    if chase.rpb.older.isEmpty then
      .returned false chase
    else if chase.rpb.version.deleted = false ∨ chase.rpb.version.delta = true then
      let temp := chase.rpb
      let record := chase.data applyDiff
      let chase := chase.readData applyDiff
      let same :=
        if temp.version.delta then
          { chase with rpb := { chase.rpb with rpb_prior := some record } }
        else
          chase
      match turn.reread.header temp with
      | none => chase.restart reader turn temp.chain
      | some (version, _, samePointers) =>
          if samePointers = false then
            chase.restart reader turn temp.chain
          else if version.transaction_nr ≠ temp.rpb_transaction_nr then
            resume reader turn
              { chase with
                rpb :=
                  { chase.rpb with
                    version
                    rpb_transaction_nr := version.transaction_nr
                    rpb_gc_active := version.gcActive } }
          else
            same.fetchBack reader turn
    else
      chase.fetchBack reader turn
  else
    chase.restart reader turn (backout applyDiff chase.rpb.version chase.rpb.older)

/-- `case tra_us`. -/
def us (reader : Reader) (turn : Turn Data) (chase : Chase Data) : Step Data :=
  let result : Step Data := .returned (!chase.rpb.version.deleted) chase
  if reader.noundo = false ∧ chase.rpb.chained = false ∧ reader.system = false then
    match reader.getUndoData with
    | .udExists => .undone
    | .udForceBack => resume reader turn { chase with forceBack := 1 }
    | .udForceTwice => resume reader turn { chase with forceBack := 2 }
    | .udNone => result
  else
    result

/-- `case tra_committed`. -/
def committed (reader : Reader) (turn : Turn Data) (chase : Chase Data) : Step Data :=
  let cannotGC :=
    reader.oldest_snapshot ≤ chase.rpb.rpb_transaction_nr ∨ chase.rpb.older.isEmpty ∨
      chase.rpb.chained ∨ reader.noCleanup
  if chase.rpb.version.deleted then
    .returned false chase
  else if cannotGC then
    .returned true chase
  else if reader.gcCooperative = false ∧ reader.notifyGc = true ∧ reader.isTemporary = false then
    .returned true chase
  else if turn.gcEnabled = false then
    .returned true chase
  else
    chase.restart reader turn (purge chase.rpb.version)

/-- The `switch` on the state. -/
def branch (reader : Reader) (turn : Turn Data) (chase : Chase Data) : Step Data :=
  let chase :=
    if chase.state = .us ∧ chase.forceBack ≠ 0 then
      { chase with state := .active, forceBack := chase.forceBack - 1 }
    else
      chase
  match chase.state with
  | .dead | .precommitted => chase.dead applyDiff reader turn
  | .limbo =>
      if reader.ignoreLimbo then
        chase.active applyDiff reader turn
      else
        .raised (.recordInLimbo chase.rpb.rpb_transaction_nr)
  | .active => chase.active applyDiff reader turn
  | .us => chase.us reader turn
  | .committed => chase.committed reader turn

/-- `wait` on the writer of the current version. -/
def wait (reader : Reader) (waited : Nat → Waited) (chase : Chase Data) : Chase Data :=
  let number := chase.rpb.rpb_transaction_nr
  let (state, view) := reader.wait chase.view number (waited number)
  { chase with state, view }

/-- A writer in limbo is waited for, unless such writers are ignored. -/
def limboWait (reader : Reader) (turn : Turn Data) (chase : Chase Data) : Chase Data :=
  if chase.state = .limbo ∧ reader.ignoreLimbo = false then
    let waited := chase.wait reader turn.waited
    if waited.state = .active then { waited with state := .limbo } else waited
  else
    chase

/-- `check_precommitted`, for a writer that is. -/
def checkPrecommitted (reader : Reader) (chase : Chase Data) : Chase Data :=
  if chase.state = .precommitted then
    { chase with
      state :=
        reader.checkPrecommitted chase.rpb.rpb_transaction_nr chase.rpb.rpb_gc_active }
  else
    chase

/-- The part of the turn from the wait of a reader without record versions on. -/
def readWait (reader : Reader) (turn : Turn Data) (chase : Chase Data) : Step Data :=
  if reader.readCommitted = true ∧ (reader.recVersion = false ∨ reader.writelock = true) then
    if chase.state = .limbo then
      let waited := chase.wait reader turn.waitedRead
      match waited.get turn.refetched chase.rpb.chain with
      | none => .gone
      | some found =>
          let state := reader.snapshotState found.view found.rpb.rpb_transaction_nr
          if state = .active then
            if reader.ignoreLimbo = false then
              .raised .transactionInLimbo
            else
              branch applyDiff reader turn { found with state := .limbo }
          else
            branch applyDiff reader turn { found with state }
    else if chase.state = .active ∧ chase.rpb.rpb_gc_active = false then
      let waited := (chase.wait reader turn.waitedRead).checkPrecommitted reader
      if waited.state = .active then
        .raised (.readConflict chase.rpb.rpb_transaction_nr)
      else
        match waited.get turn.refetched chase.rpb.chain with
        | none => .gone
        | some found =>
            .again
              { found with
                state := reader.snapshotState found.view found.rpb.rpb_transaction_nr }
    else
      branch applyDiff reader turn chase
  else
    branch applyDiff reader turn chase

/-- One turn of the loop. -/
def turn (reader : Reader) (turn : Turn Data) (chase : Chase Data) : Step Data :=
  if chase.rpb.version.damaged then
    .returned false chase
  else
    readWait applyDiff reader turn ((chase.limboWait reader turn).checkPrecommitted reader)

/-- The loop, for as long as the schedule goes. -/
def run (reader : Reader) (chase : Chase Data) : List (Turn Data) → Step Data
  | [] => .again chase
  | turn :: schedule =>
      match Chase.turn applyDiff reader turn chase with
      | .again next => run reader next schedule
      | done => done

/-- The fast path: the record is visible, and no older version is a candidate for garbage
collection. -/
def fastPath (reader : Reader) (chase : Chase Data) : Step Data :=
  if (chase.state = .committed ∨ chase.state = .us) ∧ chase.forceBack = 0 ∧
      chase.rpb.version.deleted = false ∧ chase.rpb.version.damaged = false ∧
      (chase.rpb.older.isEmpty = true ∨
        reader.oldest_snapshot ≤ chase.rpb.rpb_transaction_nr) then
    .returned true chase
  else
    .again chase

/-- The variables on entry, with the state of the primary version. -/
def opened (reader : Reader) (view : View) (version : Version Data) (older : List (Version Data))
    (gcLock : Option Nat) : Chase Data :=
  let rpb := RecordParam.primary version older
  let chase : Chase Data := ⟨view, rpb, reader.snapshotState view rpb.rpb_transaction_nr, 0⟩
  if rpb.rpb_gc_active then chase.checkGCActive gcLock else chase

/-- The part of the routine before the loop. -/
def enter (reader : Reader) (view : View) (version : Version Data) (older : List (Version Data))
    (gcLock : Option Nat) : Step Data :=
  let chase := opened reader view version older gcLock
  if chase.state = .us ∧ reader.noundo = false ∧ reader.system = false then
    match reader.getUndoData with
    | .udExists => .undone
    | .udForceBack => fastPath reader { chase with forceBack := 1 }
    | .udForceTwice => fastPath reader { chase with forceBack := 2 }
    | .udNone => chase.fastPath reader
  else
    chase.fastPath reader

end Chase

/-- `VIO_chase_record_version`, called with the primary version latched. -/
def chaseRecordVersion {Data : Type} (applyDiff : Data → Data → Data) (reader : Reader)
    (view : View) (version : Version Data) (older : List (Version Data)) (gcLock : Option Nat)
    (schedule : List (Turn Data)) : Step Data :=
  match Chase.enter reader view version older gcLock with
  | .again chase => chase.run applyDiff reader schedule
  | done => done

end Firebird
