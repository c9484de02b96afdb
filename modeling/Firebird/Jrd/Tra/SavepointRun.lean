import Firebird.Jrd.Tra.SavepointLog

/-!
# Rollbacks through every sequence of changes and savepoints

The logs on the stack of savepoints cover the time since each was started, as long as one entry of a
bitmap stands for one version on top.  A second version of the transaction's own on a record that
the savepoint has already touched breaks this: backing out takes away one version only, and old data
goes back under the format of the newer one.
-/

namespace Firebird
namespace Savepoints

open UndoLog

/-- The savepoint has the record in one of its bitmaps. -/
def Savepoint.Touches (savepoint : Savepoint) (relation number : Nat) : Prop :=
  ∃ action, getAction savepoint.actions relation = some action ∧ number ∈ action.records

/-- Undoing the savepoint backs out a version of the record. -/
def Savepoint.BacksOut (savepoint : Savepoint) (relation number : Nat) : Prop :=
  ∃ action, getAction savepoint.actions relation = some action ∧ number ∈ action.records ∧
    locate action.undo number = none

/-- A record of which undoing the first savepoint backs out a version is not touched by the other
one. -/
def Mergeable (savepoint next : Savepoint) : Prop :=
  ∀ relation number, savepoint.BacksOut relation number → ¬ next.Touches relation number

/-- The savepoints from the current one to the numbered one. -/
def upTo (number : Nat) : List Savepoint → List Savepoint
  | [] => []
  | savepoint :: rest =>
      if savepoint.number = number then [savepoint] else savepoint :: upTo number rest

/-- The contents that a transaction finds: those of the first version which is its own or of a
transaction it sees. -/
def contents (transaction : Nat) (sees : Nat → Bool) (chain : List Version) :
    Option (Nat × List UInt8) :=
  (chain.find? fun version => version.transaction == transaction || sees version.transaction).bind
    fun version => version.data.map fun data => (version.format, data)

/-- What the callers keep to: a record is stored into a free slot, and changed or erased when the
transaction finds it in its primary version. -/
def Legal (sees : Nat → Bool) (transaction : Transaction) : Event → Prop
  | .store relation number _ _ => transaction.store (relation, number) = []
  | .modify relation number _ _ | .erase relation number =>
      ∃ primary back, transaction.store (relation, number) = primary :: back ∧
        (primary.transaction = transaction.number ∨ sees primary.transaction = true) ∧
        primary.data ≠ none
  | .startSavepoint root => root = true → transaction.savePoints = []
  | .reuseSavepoint number =>
      number ≤ transaction.savePointNumber ∧ number ∉ transaction.savePoints.map (·.number)
  | .rollbackToSavepoint number =>
      ∃ savepoint ∈ transaction.savePoints, savepoint.number = number ∧ savepoint.root = false
  | _ => True

/-- A new version on top of one of the transaction's own is only made under a savepoint that has not
touched the record, and merged only into one that has not; a savepoint is released from within the
stack only next to the current one; and those above the target of a rollback have higher
numbers. -/
def Careful (transaction : Transaction) : Event → Prop
  | .modify relation number format _ =>
      ∀ primary back, transaction.store (relation, number) = primary :: back →
        primary.transaction = transaction.number → primary.format ≠ format →
          ∀ current ∈ transaction.savePoints.head?, ¬ current.Touches relation number
  | .rollforwardSavepoint =>
      ∀ current next rest, transaction.savePoints = current :: next :: rest →
        Mergeable current next
  | .releaseOnly skipped =>
      skipped = 0 ∧ ∀ current savepoint next rest,
        transaction.savePoints = current :: savepoint :: next :: rest → Mergeable savepoint next
  | .rollbackToSavepoint number =>
      (∀ savepoint ∈ upTo number transaction.savePoints, number ≤ savepoint.number) ∧
        (upTo number transaction.savePoints).Pairwise Mergeable
  | _ => True

/-- A transaction with the store that each of its savepoints was started in. -/
structure Watched where
  transaction : Transaction
  started : Nat → Store

section Run

variable (approxSize : RecordBitmap → Nat)

/-- A step, remembering the store at the start of a savepoint. -/
def Watched.step (watched : Watched) (event : Event) : Except Fault Watched := do
  let transaction ← watched.transaction.step approxSize event
  pure {
    transaction
    started := match event with
      | .startSavepoint _ =>
          Function.update watched.started transaction.savePointNumber transaction.store
      | .reuseSavepoint number => Function.update watched.started number transaction.store
      | _ => watched.started }

/-- A condition that every event of a sequence meets in the state it happens in. -/
def Throughout (condition : Transaction → Event → Prop) : Watched → List Event → Prop
  | _, [] => True
  | watched, event :: events =>
      condition watched.transaction event ∧
        ∀ after, watched.step approxSize event = .ok after → Throughout condition after events

/-- The transaction finds the same contents in every record of two stores. -/
def Same (transaction : Nat) (sees : Nat → Bool) (store other : Store) : Prop :=
  ∀ key, contents transaction sees (other key) = contents transaction sees (store key)

/-- A rollback leads back to the start of the savepoint, and rolling forward changes no record. -/
def Kept (sees : Nat → Bool) (watched after : Watched) : Event → Prop
  | .rollbackSavepoint =>
      ∀ current ∈ watched.transaction.savePoints.head?,
        Same watched.transaction.number sees (watched.started current.number)
          after.transaction.store
  | .rollbackToSavepoint number =>
      Same watched.transaction.number sees (watched.started number) after.transaction.store
  | .rollforwardSavepoint | .releaseOnly _ =>
      Same watched.transaction.number sees watched.transaction.store after.transaction.store
  | _ => True

/-- Every step comes to its end and keeps what it must. -/
def Upheld (sees : Nat → Bool) : Watched → List Event → Prop
  | _, [] => True
  | watched, event :: events =>
      ∃ after, watched.step approxSize event = .ok after ∧ Kept sees watched after event ∧
        Upheld sees after events

end Run

/-- Savepoints restore what they were started with, in every sequence of changes and savepoint
operations of a transaction. -/
def SavepointsRestore : Prop :=
  ∀ (approxSize : RecordBitmap → Nat) (sees : Nat → Bool) (watched : Watched)
    (events : List Event), watched.transaction.savePoints = [] →
    Throughout approxSize (Legal sees) watched events → Upheld approxSize sees watched events

/-- Each savepoint of a stack covers the time from its start to that of the one above, and only the
last one can be the transaction level one. -/
structure Sound (transaction bound : Nat) (started : Nat → Store) (savePoints : List Savepoint)
    (now : Store) : Prop where
  stacked : Stacked
    (savePoints.map fun savepoint =>
      (log transaction savepoint.actions, started savepoint.number)) now
  wellFormed : ∀ savepoint ∈ savePoints, WellFormed savepoint.actions
  numbers : (savePoints.map (·.number)).Nodup
  bounded : ∀ savepoint ∈ savePoints, savepoint.number ≤ bound
  rooted : savePoints.Pairwise fun savepoint _ => savepoint.root = false

section Marks

variable {transaction : Nat} {savepoint next : Savepoint} {relation number : Nat}

theorem touches_iff :
    savepoint.Touches relation number ↔ marks savepoint.actions (relation, number) ≠ none := by
  unfold Savepoint.Touches marks VerbAction.mark
  cases getAction savepoint.actions relation <;> simp

theorem backsOut_iff :
    savepoint.BacksOut relation number ↔
      marks savepoint.actions (relation, number) = some none := by
  unfold Savepoint.BacksOut marks VerbAction.mark
  cases getAction savepoint.actions relation <;> simp

/-- Old data that is written back does not change what a further undo gives. -/
theorem undoRecord_restored {item : UndoItem} {outer : Option UndoItem}
    {chain middle : List Version}
    (restored : (undoRecord transaction (some item) chain).toOption = some middle) :
    (undoRecord transaction outer middle).toOption =
      (undoRecord transaction outer chain).toOption := by
  cases chain with
  | nil => cases restored
  | cons primary back =>
      by_cases own : primary.transaction = transaction
      · simp only [undoRecord, ne_eq, own, not_true_eq_false, if_false] at restored
        obtain rfl := Option.some.inj restored
        cases outer <;> simp [undoRecord, own]
      · simp only [undoRecord, ne_eq, own, not_false_eq_true, if_true] at restored
        cases restored

theorem Mergeable.closable (mergeable : Mergeable savepoint next) :
    Closable (log transaction next.actions) (log transaction savepoint.actions) := by
  rintro ⟨relation, number⟩ outer inner next_held held value middle restored
  obtain ⟨next_mark, next_there, rfl⟩ := Option.map_eq_some_iff.mp next_held
  obtain ⟨mark, there, rfl⟩ := Option.map_eq_some_iff.mp held
  cases mark with
  | none =>
      refine absurd (touches_iff.mpr ?_) (mergeable relation number (backsOut_iff.mpr there))
      rw [next_there]
      exact Option.some_ne_none _
  | some item => exact undoRecord_restored restored

/-- Past a merge the condition holds when it holds of both savepoints. -/
theorem Mergeable.merge {merged lower : Savepoint} (savepoint_lower : Mergeable savepoint lower)
    (next_lower : Mergeable next lower)
    (merged_marks : ∀ key, marks merged.actions key =
      (marks next.actions key).or (marks savepoint.actions key)) : Mergeable merged lower := by
  intro relation number backs_out
  rw [backsOut_iff, merged_marks] at backs_out
  rcases Option.or_eq_some_iff.mp backs_out with held | ⟨-, held⟩
  · exact next_lower relation number (backsOut_iff.mpr held)
  · exact savepoint_lower relation number (backsOut_iff.mpr held)

end Marks

section Stack

variable {transaction bound number : Nat} {started : Nat → Store} {now : Store}
  {savepoint next : Savepoint} {rest : List Savepoint} {approxSize : RecordBitmap → Nat}

theorem Sound.nil : Sound transaction bound started [] now :=
  ⟨trivial, List.forall_mem_nil _, List.nodup_nil, List.forall_mem_nil _, List.Pairwise.nil⟩

theorem Sound.tail (sound : Sound transaction bound started (savepoint :: rest) now) :
    Sound transaction bound started rest (started savepoint.number) :=
  ⟨sound.stacked.2, fun other mem => sound.wellFormed other (List.mem_cons_of_mem _ mem),
    (List.nodup_cons.mp sound.numbers).2,
    fun other mem => sound.bounded other (List.mem_cons_of_mem _ mem),
    (List.pairwise_cons.mp sound.rooted).2⟩

theorem Savepoint.rollInto_eq_some {merged : Savepoint}
    (result : savepoint.rollInto approxSize next = some merged) :
    merged.number = next.number ∧ merged.root = next.root ∧
      merged.actions = mergeActions savepoint.actions next.actions := by
  unfold Savepoint.rollInto at result
  split at result
  · cases result
  · dsimp only at result
    split at result
    · cases result
    · obtain rfl := Option.some.inj result
      exact ⟨rfl, rfl, rfl⟩

theorem Savepoint.rollInto_of_not_root (approxSize : RecordBitmap → Nat)
    (savepoint : Savepoint) (not_root : next.root = false) :
    ∃ merged, savepoint.rollInto approxSize next = some merged := by
  simp [Savepoint.rollInto, not_root]

/-- The savepoint under the current one takes over its changes. -/
theorem Sound.rollInto (sound : Sound transaction bound started (savepoint :: next :: rest) now)
    (mergeable : Mergeable savepoint next) {merged : Savepoint}
    (result : savepoint.rollInto approxSize next = some merged) :
    Sound transaction bound started (merged :: rest) now ∧
      ∀ key, marks merged.actions key =
        (marks next.actions key).or (marks savepoint.actions key) := by
  obtain ⟨number_eq, root_eq, actions_eq⟩ := Savepoint.rollInto_eq_some result
  obtain ⟨above, below⟩ := List.forall_mem_cons.mp sound.wellFormed
  obtain ⟨next_wellFormed, deeper⟩ := List.forall_mem_cons.mp below
  obtain ⟨merged_wellFormed, merged_marks⟩ := mergeActions_spec above next_wellFormed
  rw [← actions_eq] at merged_wellFormed merged_marks
  have log_eq : log transaction merged.actions =
      (log transaction next.actions).close (log transaction savepoint.actions) := by
    funext key
    rw [log, merged_marks, Option.map_or]
    rfl
  have tail := sound.tail
  refine ⟨⟨?_, List.forall_mem_cons.mpr ⟨merged_wellFormed, deeper⟩, ?_, ?_, ?_⟩, merged_marks⟩
  · rw [List.map_cons, log_eq, number_eq]
    exact Stacked.close sound.stacked mergeable.closable
  · rw [List.map_cons, number_eq]
    exact tail.numbers
  · refine List.forall_mem_cons.mpr ⟨number_eq ▸ tail.bounded next List.mem_cons_self, ?_⟩
    exact fun other mem => tail.bounded other (List.mem_cons_of_mem _ mem)
  · refine List.pairwise_cons.mpr ⟨fun other mem => ?_, (List.pairwise_cons.mp tail.rooted).2⟩
    rw [root_eq]
    exact (List.pairwise_cons.mp tail.rooted).1 other mem

/-- Rolling the current savepoint forward keeps the stack sound in the same store. -/
theorem Sound.rollforward (approxSize : RecordBitmap → Nat)
    (sound : Sound transaction bound started (savepoint :: rest) now)
    (mergeable : ∀ next deeper, rest = next :: deeper → Mergeable savepoint next) :
    Sound transaction bound started (savepoint.rollforward approxSize rest) now ∧
      ((savepoint.rollforward approxSize rest).map (·.number)).Sublist (rest.map (·.number)) := by
  cases rest with
  | nil => exact ⟨Sound.nil, List.Sublist.refl _⟩
  | cons next deeper =>
      rw [Savepoint.rollforward]
      cases result : savepoint.rollInto approxSize next with
      | none => exact ⟨Sound.nil, List.nil_sublist _⟩
      | some merged =>
          obtain ⟨number_eq, -, -⟩ := Savepoint.rollInto_eq_some result
          refine ⟨(sound.rollInto (mergeable next deeper rfl) result).1, ?_⟩
          rw [List.map_cons, List.map_cons, number_eq]

/-- The savepoint under the current one is rolled forward into the one below it. -/
theorem Sound.releaseBelow {current : Savepoint}
    (sound : Sound transaction bound started (current :: savepoint :: rest) now)
    (mergeable : ∀ next deeper, rest = next :: deeper → Mergeable savepoint next) :
    Sound transaction bound started (current :: savepoint.rollforward approxSize rest) now := by
  obtain ⟨below, numbers⟩ := Sound.rollforward approxSize sound.tail mergeable
  obtain ⟨absent, -⟩ := List.nodup_cons.mp sound.numbers
  obtain ⟨wellFormed, -⟩ := List.forall_mem_cons.mp sound.wellFormed
  refine ⟨⟨sound.stacked.1, below.stacked⟩, List.forall_mem_cons.mpr ⟨wellFormed, below.wellFormed⟩,
    List.nodup_cons.mpr ⟨fun mem => absent (List.mem_cons_of_mem _ (numbers.mem mem)), below.numbers⟩,
    List.forall_mem_cons.mpr ⟨sound.bounded current List.mem_cons_self, below.bounded⟩,
    List.pairwise_cons.mpr ⟨fun _ _ => ?_, below.rooted⟩⟩
  exact (List.pairwise_cons.mp sound.rooted).1 savepoint List.mem_cons_self

theorem head_mem_upTo (savepoint : Savepoint) (rest : List Savepoint) :
    savepoint ∈ upTo number (savepoint :: rest) := by
  rw [upTo]
  split <;> exact List.mem_cons_self

/-- The loop of `rollbackToSavepoint` merges everything above the target into it. -/
theorem mergeDown_spec (approxSize : RecordBitmap → Nat)
    (sound : Sound transaction bound started (savepoint :: rest) now)
    (target : ∃ other ∈ savepoint :: rest, other.number = number ∧ other.root = false)
    (high : ∀ other ∈ upTo number (savepoint :: rest), number ≤ other.number)
    (mergeable : (upTo number (savepoint :: rest)).Pairwise Mergeable) :
    ∃ merged below, mergeDown approxSize number savepoint rest = merged :: below ∧
      merged.number = number ∧ Sound transaction bound started (merged :: below) now := by
  induction rest generalizing savepoint with
  | nil =>
      obtain ⟨other, mem, number_eq, -⟩ := target
      rw [List.mem_singleton.mp mem] at number_eq
      exact ⟨savepoint, [], rfl, number_eq, sound⟩
  | cons next rest inductive_hypothesis =>
      by_cases here : savepoint.number = number
      · refine ⟨savepoint, next :: rest, ?_, here, sound⟩
        rw [mergeDown, if_neg]
        omega
      · rw [upTo, if_neg here] at high mergeable
        obtain ⟨high_savepoint, high⟩ := List.forall_mem_cons.mp high
        obtain ⟨savepoint_merges, mergeable⟩ := List.pairwise_cons.mp mergeable
        obtain ⟨other, mem, other_number, other_root⟩ := target
        have mem_below : other ∈ next :: rest := by
          rcases List.mem_cons.mp mem with rfl | mem
          · exact absurd other_number here
          · exact mem
        have next_root : next.root = false := by
          rcases List.mem_cons.mp mem_below with rfl | deeper
          · exact other_root
          · exact (List.pairwise_cons.mp sound.tail.rooted).1 other deeper
        obtain ⟨merged, result⟩ :=
          Savepoint.rollInto_of_not_root approxSize savepoint next_root
        obtain ⟨number_eq, root_eq, -⟩ := Savepoint.rollInto_eq_some result
        obtain ⟨merged_sound, merged_marks⟩ :=
          sound.rollInto (savepoint_merges next (head_mem_upTo next rest)) result
        have next_high := high next (head_mem_upTo next rest)
        rw [mergeDown, if_pos ⟨by omega, next_high⟩, result]
        refine inductive_hypothesis merged_sound ?_ ?_ ?_
        · rcases List.mem_cons.mp mem_below with rfl | deeper
          · exact ⟨merged, List.mem_cons_self, number_eq.trans other_number, root_eq.trans other_root⟩
          · exact ⟨other, List.mem_cons_of_mem _ deeper, other_number, other_root⟩
        · rw [upTo] at high ⊢
          rw [number_eq]
          split
          · exact List.forall_mem_singleton.mpr (by omega)
          · rename_i further
            rw [if_neg further] at high
            exact List.forall_mem_cons.mpr ⟨by omega, (List.forall_mem_cons.mp high).2⟩
        · rw [upTo] at savepoint_merges mergeable ⊢
          rw [number_eq]
          split
          · exact List.pairwise_singleton _ _
          · rename_i further
            rw [if_neg further] at savepoint_merges mergeable
            obtain ⟨next_merges, deeper⟩ := List.pairwise_cons.mp mergeable
            refine List.pairwise_cons.mpr ⟨fun lower mem => ?_, deeper⟩
            exact (savepoint_merges lower (List.mem_cons_of_mem _ mem)).merge
              (next_merges lower mem) merged_marks

end Stack

section Steps

variable {transaction bound number : Nat} {started : Nat → Store} {now : Store}
  {savepoint : Savepoint} {rest : List Savepoint} {chain : List Version} {oldData : OldData}

/-- A change of a record keeps the stack sound when it can be taken back: by what is posted for it,
and by what the current savepoint already holds for the record. -/
theorem Sound.post (sound : Sound transaction bound started (savepoint :: rest) now)
    {relation : Nat}
    (posted : (undoRecord transaction (oldData.item number) chain).toOption =
      some (now (relation, number)))
    (held : savepoint.Touches relation number → ∀ item before,
      (undoRecord transaction item (now (relation, number))).toOption = some before →
        (undoRecord transaction item chain).toOption = some before) :
    Sound transaction bound started (savepoint.verbPost relation number oldData :: rest)
      (Function.update now (relation, number) chain) := by
  obtain ⟨wellFormed, deeper⟩ := List.forall_mem_cons.mp sound.wellFormed
  obtain ⟨post_wellFormed, post_marks⟩ :=
    Savepoint.verbPost_spec wellFormed relation number oldData
  have number_eq : (savepoint.verbPost relation number oldData).number = savepoint.number := by
    unfold Savepoint.verbPost
    split <;> rfl
  have root_eq : (savepoint.verbPost relation number oldData).root = savepoint.root := by
    unfold Savepoint.verbPost
    split <;> rfl
  have covers := sound.stacked.1
  refine ⟨⟨?_, number_eq ▸ sound.stacked.2⟩, List.forall_mem_cons.mpr ⟨post_wellFormed, deeper⟩, ?_, ?_, ?_⟩
  · rw [number_eq]
    cases entry : marks savepoint.actions (relation, number) with
    | none =>
        refine covers.record (fun chain => (undoRecord transaction (oldData.item number) chain).toOption)
          ?_ posted ?_ fun other differ => ?_
        · rw [log, entry]
          rfl
        · rw [log, post_marks, if_pos rfl, entry]
          rfl
        · rw [log, log, post_marks, if_neg differ]
    | some item =>
        have same : log transaction (savepoint.verbPost relation number oldData).actions =
            log transaction savepoint.actions := by
          funext other
          rw [log, log, post_marks]
          split
          · rename_i here
            rw [here, entry]
            rfl
          · rfl
        have touched : savepoint.Touches relation number := by
          rw [touches_iff, entry]
          exact Option.some_ne_none item
        have at_key : log transaction savepoint.actions (relation, number) =
            some fun chain => (undoRecord transaction item chain).toOption := by
          rw [log, entry]
          rfl
        have undoes := covers.of_some at_key
        rw [same]
        exact covers.absorb at_key ((held touched item _ undoes).trans undoes.symm)
  · rw [List.map_cons, number_eq]
    exact sound.numbers
  · exact List.forall_mem_cons.mpr ⟨number_eq ▸ sound.bounded _ List.mem_cons_self,
      fun other mem => sound.bounded other (List.mem_cons_of_mem _ mem)⟩
  · refine List.pairwise_cons.mpr ⟨fun other mem => ?_, (List.pairwise_cons.mp sound.rooted).2⟩
    rw [root_eq]
    exact (List.pairwise_cons.mp sound.rooted).1 other mem

/-- A new savepoint covers the empty time since its start. -/
theorem Sound.start {savePoints : List Savepoint} {root : Bool} {limit : Nat}
    (sound : Sound transaction bound started savePoints now)
    (fresh : number ∉ savePoints.map (·.number)) (within : number ≤ limit) (grows : bound ≤ limit)
    (rooted : root = true → savePoints = []) :
    Sound transaction limit (Function.update started number now)
      ({ number, root, actions := [] } :: savePoints) now := by
  have others : savePoints.map (fun savepoint => (log transaction savepoint.actions,
      Function.update started number now savepoint.number)) =
      savePoints.map fun savepoint => (log transaction savepoint.actions,
        started savepoint.number) := by
    refine List.map_congr_left fun other mem => ?_
    rw [Function.update_of_ne]
    rintro same
    exact fresh (List.mem_map.mpr ⟨other, mem, same⟩)
  refine ⟨?_, List.forall_mem_cons.mpr ⟨⟨List.nodup_nil, List.forall_mem_nil _⟩, sound.wellFormed⟩,
    List.nodup_cons.mpr ⟨fresh, sound.numbers⟩,
    List.forall_mem_cons.mpr ⟨within, fun other mem => (sound.bounded other mem).trans grows⟩,
    List.pairwise_cons.mpr ⟨fun other mem => ?_, sound.rooted⟩⟩
  · rw [List.map_cons, others]
    dsimp only
    rw [Function.update_self]
    exact sound.stacked.start
  · cases root with
    | false => rfl
    | true =>
        rw [rooted rfl] at mem
        cases mem

/-- Rolling the current savepoint back restores the store it was started in. -/
theorem Sound.rollback (sound : Sound transaction bound started (savepoint :: rest) now) :
    savepoint.rollback transaction now = .ok (started savepoint.number) :=
  rollback_eq (sound.wellFormed savepoint List.mem_cons_self) sound.stacked.1

end Steps

/-- The watched transaction has a sound stack. -/
def Watched.Sound (watched : Watched) : Prop :=
  Savepoints.Sound watched.transaction.number watched.transaction.savePointNumber watched.started
    watched.transaction.savePoints watched.transaction.store

section Step

variable {sees : Nat → Bool} {watched : Watched} {approxSize : RecordBitmap → Nat}
  {relation number format : Nat} {data : List UInt8}

theorem Watched.Sound.change (sound : watched.Sound) {chain : List Version} {oldData : OldData}
    (posted : (undoRecord watched.transaction.number (oldData.item number) chain).toOption =
      some (watched.transaction.store (relation, number)))
    (held : ∀ current ∈ watched.transaction.savePoints.head?, current.Touches relation number →
      ∀ item before, (undoRecord watched.transaction.number item
          (watched.transaction.store (relation, number))).toOption = some before →
        (undoRecord watched.transaction.number item chain).toOption = some before) :
    Watched.Sound
      { watched with transaction := watched.transaction.change relation number chain oldData } := by
  unfold Watched.Sound at sound ⊢
  dsimp only [Transaction.change, Transaction.verbPost]
  cases stack : watched.transaction.savePoints with
  | nil => exact Sound.nil
  | cons current rest =>
      rw [stack] at sound held
      exact sound.post posted (held current rfl)

/-- A stub or new data on a version of the transaction's own is taken back with the old data. -/
theorem Watched.Sound.changeInPlace (sound : watched.Sound) {primary : Version}
    {back : List Version} {old : List UInt8} (new : Option (List UInt8))
    (there : watched.transaction.store (relation, number) = primary :: back)
    (own : primary.transaction = watched.transaction.number) (old_eq : primary.data = some old) :
    Watched.Sound
      { watched with
        transaction := watched.transaction.change relation number
          ({ primary with data := new } :: back) (some (primary.format, old)) } := by
  refine sound.change ?_ fun current _ _ item before taken => ?_
  · have restored : { primary with data := some old } = primary := by rw [← old_eq]
    rw [there, OldData.item, Option.map_some, undoRecord, if_neg (not_not.mpr own)]
    exact congrArg (fun version => some (version :: back)) restored
  · rw [there] at taken
    rw [← taken]
    cases item <;> simp [undoRecord, own]

/-- A new version is taken back by backing it out, under a savepoint that has not touched the
record. -/
theorem Watched.Sound.push (sound : watched.Sound) (version : Version) {back : List Version}
    (there : watched.transaction.store (relation, number) = back)
    (own : version.transaction = watched.transaction.number)
    (first : ∀ current ∈ watched.transaction.savePoints.head?, current.Touches relation number →
      ∀ primary ∈ back.head?, primary.transaction ≠ watched.transaction.number) :
    Watched.Sound
      { watched with
        transaction := watched.transaction.change relation number (version :: back) none } := by
  refine sound.change ?_ fun current mem touched item before taken => ?_
  · rw [there, OldData.item, Option.map_none, undoRecord, if_neg (not_not.mpr own)]
    rfl
  · rw [there] at taken
    cases back with
    | nil => cases taken
    | cons primary back =>
        have foreign := first current mem touched primary rfl
        simp only [undoRecord, if_pos foreign] at taken
        cases taken

/-- Rolling back gives the store that the current savepoint was started in. -/
theorem rollbackSavepoint_eq {transaction : Transaction} {bound : Nat} {started : Nat → Store}
    {current : Savepoint} {rest : List Savepoint}
    (sound : Sound transaction.number bound started transaction.savePoints transaction.store)
    (stack : transaction.savePoints = current :: rest) :
    transaction.rollbackSavepoint =
        .ok { transaction with savePoints := rest, store := started current.number } ∧
      Sound transaction.number bound started rest (started current.number) := by
  rw [stack] at sound
  refine ⟨?_, sound.tail⟩
  simp only [Transaction.rollbackSavepoint, stack, sound.rollback]
  rfl

/-- Rolling back to a savepoint gives the store that it was started in. -/
theorem rollbackToSavepoint_eq (approxSize : RecordBitmap → Nat) {transaction : Transaction}
    {bound : Nat} {started : Nat → Store}
    (sound : Sound transaction.number bound started transaction.savePoints transaction.store)
    (target : ∃ savepoint ∈ transaction.savePoints,
      savepoint.number = number ∧ savepoint.root = false)
    (high : ∀ savepoint ∈ upTo number transaction.savePoints, number ≤ savepoint.number)
    (mergeable : (upTo number transaction.savePoints).Pairwise Mergeable) :
    ∃ below, transaction.rollbackToSavepoint approxSize number =
        .ok { transaction with savePoints := below, store := started number } ∧
      Sound transaction.number bound started below (started number) := by
  cases stack : transaction.savePoints with
  | nil =>
      obtain ⟨savepoint, mem, -⟩ := target
      rw [stack] at mem
      cases mem
  | cons current rest =>
      rw [stack] at sound target high mergeable
      obtain ⟨merged, below, result, rfl, merged_sound⟩ :=
        mergeDown_spec approxSize sound target high mergeable
      have rolled_back : ({ transaction with savePoints := merged :: below } :
          Transaction).rollbackSavepoint =
          .ok { transaction with savePoints := below, store := started merged.number } ∧
          Sound transaction.number bound started below (started merged.number) :=
        rollbackSavepoint_eq merged_sound rfl
      refine ⟨below, ?_, rolled_back.2⟩
      simp only [Transaction.rollbackToSavepoint, stack, result, le_refl, if_true]
      exact rolled_back.1

theorem Same.of_eq {transaction : Nat} {store other : Store} (same : other = store) :
    Same transaction sees store other := by
  intro key
  rw [same]

/-- Every step from a sound stack comes to its end, keeps what it must and leaves the stack
sound. -/
theorem Watched.Sound.step (approxSize : RecordBitmap → Nat) (sound : watched.Sound)
    (event : Event)
    (legal : Legal sees watched.transaction event) (careful : Careful watched.transaction event) :
    ∃ after, watched.step approxSize event = .ok after ∧ Kept sees watched after event ∧
      after.Sound := by
  cases event with
  | store relation number format data =>
      refine ⟨_, rfl, trivial, sound.push _ legal rfl fun current _ _ primary mem => ?_⟩
      cases mem
  | modify relation number format data =>
      obtain ⟨primary, back, there, -, some_data⟩ := legal
      obtain ⟨old, old_eq⟩ := Option.ne_none_iff_exists'.mp some_data
      by_cases in_place : primary.transaction = watched.transaction.number ∧
          primary.format = format
      · refine ⟨_, ?_, trivial, sound.changeInPlace (some data) there in_place.1 old_eq⟩
        simp only [Watched.step, Transaction.step, Transaction.modify, there, if_pos in_place,
          old_eq]
        rfl
      · have pushed := sound.push
          { transaction := watched.transaction.number, format, data := some data } there rfl
        refine ⟨_, ?_, trivial, pushed fun current mem touched first first_eq own => ?_⟩
        · simp only [Watched.step, Transaction.step, Transaction.modify, there, if_neg in_place]
          rfl
        · obtain rfl := Option.some.inj first_eq
          exact careful primary back there own (fun same => in_place ⟨own, same⟩) current mem touched
  | erase relation number =>
      obtain ⟨primary, back, there, -, some_data⟩ := legal
      obtain ⟨old, old_eq⟩ := Option.ne_none_iff_exists'.mp some_data
      by_cases own : primary.transaction = watched.transaction.number
      · refine ⟨_, ?_, trivial, sound.changeInPlace none there own old_eq⟩
        simp only [Watched.step, Transaction.step, Transaction.erase, there, if_pos own, old_eq]
        rfl
      · have pushed := sound.push
          { transaction := watched.transaction.number, format := primary.format, data := none }
          there rfl
        refine ⟨_, ?_, trivial, pushed fun current mem touched first first_eq => ?_⟩
        · simp only [Watched.step, Transaction.step, Transaction.erase, there, if_neg own]
          rfl
        · obtain rfl := Option.some.inj first_eq
          exact own
  | startSavepoint root =>
      refine ⟨_, rfl, trivial, ?_⟩
      refine Sound.start sound ?_ le_rfl (Nat.le_succ _) legal
      rintro mem
      obtain ⟨savepoint, there, number_eq⟩ := List.mem_map.mp mem
      have bounded := sound.bounded savepoint there
      dsimp only at number_eq
      omega
  | reuseSavepoint number =>
      exact ⟨_, rfl, trivial, Sound.start sound legal.2 legal.1 le_rfl (nomatch ·)⟩
  | rollbackSavepoint =>
      cases stack : watched.transaction.savePoints with
      | nil =>
          refine ⟨watched, ?_, fun current mem => ?_, sound⟩
          · simp only [Watched.step, Transaction.step, Transaction.rollbackSavepoint, stack]
            rfl
          · rw [stack] at mem
            cases mem
      | cons current rest =>
          obtain ⟨rolled_back, rest_sound⟩ := rollbackSavepoint_eq sound stack
          refine ⟨{ watched with
            transaction :=
              { watched.transaction with
                savePoints := rest
                store := watched.started current.number } }, ?_, fun other mem => ?_, rest_sound⟩
          · simp only [Watched.step, Transaction.step, rolled_back]
            rfl
          · rw [stack] at mem
            obtain rfl := Option.some.inj mem
            exact Same.of_eq rfl
  | rollbackToSavepoint number =>
      obtain ⟨high, mergeable⟩ := careful
      obtain ⟨below, rolled_back, below_sound⟩ :=
        rollbackToSavepoint_eq approxSize sound legal high mergeable
      refine ⟨{ watched with
        transaction :=
          { watched.transaction with savePoints := below, store := watched.started number } },
        ?_, Same.of_eq rfl, below_sound⟩
      simp only [Watched.step, Transaction.step, rolled_back]
      rfl
  | rollforwardSavepoint =>
      refine ⟨_, rfl, Same.of_eq ?_, ?_⟩
      · dsimp only [Transaction.rollforwardSavepoint]
        split <;> rfl
      · unfold Watched.Sound at sound ⊢
        dsimp only [Transaction.rollforwardSavepoint]
        cases stack : watched.transaction.savePoints with
        | nil =>
            dsimp only
            rw [stack]
            exact Sound.nil
        | cons current rest =>
            rw [stack] at sound
            refine (Sound.rollforward approxSize sound fun next deeper rest_eq => ?_).1
            exact careful current next deeper (rest_eq ▸ stack)
  | releaseOnly skipped =>
      obtain ⟨rfl, mergeable⟩ := careful
      refine ⟨_, rfl, Same.of_eq ?_, ?_⟩
      · dsimp only [Transaction.releaseOnly]
        split
        · rfl
        · split <;> rfl
      · unfold Watched.Sound at sound ⊢
        dsimp only [Transaction.releaseOnly]
        cases stack : watched.transaction.savePoints with
        | nil =>
            dsimp only
            rw [stack]
            exact Sound.nil
        | cons current below =>
            rw [stack] at sound
            dsimp only
            rw [List.drop_zero]
            cases below with
            | nil =>
                dsimp only
                rw [stack]
                exact sound
            | cons savepoint rest =>
                refine sound.releaseBelow fun next deeper rest_eq => ?_
                exact mergeable current savepoint next deeper (rest_eq ▸ stack)

end Step

/-- Every rollback leads back to the start of its savepoint, and no roll forward changes a record,
in every sequence of steps that never hides a second version of the transaction's own behind one
entry of a bitmap and releases no savepoint from further down the stack. -/
theorem restored_of_careful (approxSize : RecordBitmap → Nat) (sees : Nat → Bool) (watched : Watched)
    (events : List Event) (opened : watched.transaction.savePoints = [])
    (legal : Throughout approxSize (Legal sees) watched events)
    (careful : Throughout approxSize Careful watched events) :
    Upheld approxSize sees watched events := by
  have sound : watched.Sound := by
    unfold Watched.Sound
    rw [opened]
    exact Sound.nil
  clear opened
  induction events generalizing watched with
  | nil => trivial
  | cons event events inductive_hypothesis =>
      obtain ⟨legal_now, legal_later⟩ := legal
      obtain ⟨careful_now, careful_later⟩ := careful
      obtain ⟨after, stepped, kept, after_sound⟩ :=
        Watched.Sound.step approxSize sound event legal_now careful_now
      refine ⟨after, stepped, kept, ?_⟩
      exact inductive_hypothesis after (legal_later after stepped) (careful_later after stepped)
        after_sound

section Examples

variable {approxSize : RecordBitmap → Nat} {sees : Nat → Bool}
  {condition : Transaction → Event → Prop} {watched after : Watched} {event : Event}
  {events : List Event}

theorem Throughout.cons (now : condition watched.transaction event)
    (stepped : watched.step approxSize event = .ok after)
    (later : Throughout approxSize condition after events) :
    Throughout approxSize condition watched (event :: events) := by
  refine ⟨now, fun other other_stepped => ?_⟩
  rw [stepped] at other_stepped
  exact Except.ok.inj other_stepped ▸ later

theorem Upheld.next (upheld : Upheld approxSize sees watched (event :: events))
    (stepped : watched.step approxSize event = .ok after) :
    Kept sees watched after event ∧ Upheld approxSize sees after events := by
  obtain ⟨other, other_stepped, kept, later⟩ := upheld
  rw [stepped] at other_stepped
  obtain rfl := Except.ok.inj other_stepped
  exact ⟨kept, later⟩

/-- A transaction that has just been started on an empty database. -/
def freshTransaction : Watched where
  transaction := { number := 5, savePoints := [], savePointNumber := 0, store := fun _ => [] }
  started := fun _ _ => []

/-- A record is stored under the transaction level savepoint and changed in place under the next
one, which is then rolled back. -/
def changedInPlace : List Event :=
  [.startSavepoint true, .store 0 7 1 [1], .startSavepoint false, .modify 0 7 1 [2],
    .rollbackToSavepoint 2]

theorem changedInPlace_upheld :
    Upheld List.length (fun _ => false) freshTransaction changedInPlace := by
  refine restored_of_careful List.length (fun _ => false) freshTransaction changedInPlace rfl ?_ ?_
  · refine .cons (fun _ => rfl) rfl (.cons rfl rfl (.cons (fun root => nomatch root) rfl
      (.cons ?_ rfl (.cons ?_ rfl trivial))))
    · exact ⟨⟨5, 1, some [1]⟩, [], rfl, Or.inl rfl, nofun⟩
    · exact ⟨_, List.mem_cons_self, rfl, rfl⟩
  · refine .cons trivial rfl (.cons trivial rfl (.cons trivial rfl (.cons ?_ rfl (.cons ?_ rfl
      trivial))))
    · intro primary back there own differ
      obtain ⟨rfl, rfl⟩ := List.cons.inj there
      exact absurd rfl differ
    · exact ⟨by decide, List.pairwise_singleton _ _⟩

/-- A record is stored and changed in a newer format under one savepoint. -/
def changedFormat : List Event :=
  [.startSavepoint false, .store 0 7 1 [1], .modify 0 7 2 [2], .rollbackSavepoint]

/-- Rolling back takes away the newer version only. -/
theorem not_savepointsRestore : ¬ SavepointsRestore := by
  intro restore
  have upheld := restore List.length (fun _ => false) freshTransaction changedFormat rfl
    (.cons nofun rfl (.cons rfl rfl (.cons ⟨⟨5, 1, some [1]⟩, [], rfl, Or.inl rfl, nofun⟩ rfl
      (.cons trivial rfl trivial))))
  have kept := ((((upheld.next rfl).2.next rfl).2.next rfl).2.next rfl).1
  have same := kept _ rfl (0, 7)
  revert same
  decide

end Examples

end Savepoints
end Firebird
