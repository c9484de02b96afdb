import Firebird.Lock.SelfRelativeQueueRecovery

/-!
# Runs over the lock table queues

A process that dies inside an operation is recovered from when its owner is above 0, when the field
`shb_insert_prior` of an earlier death does not pair with its own first write, and when a node whose
removal was interrupted is removed again only while its old links do not lead into the queues.
-/

namespace Firebird
namespace SelfRelativeQueue

open LinkedRing

/-- The links that a second removal would write are there already, or on no queue. -/
def Unmoved (heads : Set Ptr) (memory : Memory) (node : Ptr) : Prop :=
  (OnQueue heads memory (memory.forward node) →
    memory.backward (memory.forward node) = memory.backward node) ∧
  (OnQueue heads memory (memory.backward node) →
    memory.forward (memory.backward node) = memory.forward node)

/-- A process that dies after a count of writes in the range has an owner above 0. -/
def Owned (owner : Int) (died : Option Nat) (first last : Nat) : Prop :=
  ∀ count, died = some count → first ≤ count → count ≤ last → 0 < owner

/-- The condition under which the queues survive an event. -/
def Careful (heads : Set Ptr) (table : Table) : Event → Prop
  | .acquire owner died =>
      (table.memory.removeNode ≠ 0 → Owned owner died 0 3) ∧
      (table.memory.insertQue ≠ 0 → table.memory.insertPrior ≠ 0 → Owned owner died 0 2)
  | .insertTail lockSrq _ died =>
      Owned table.activeOwner died 1 6 ∧
      (died = some 1 → table.memory.insertPrior = 0 ∨
        table.memory.insertPrior = table.memory.backward lockSrq)
  | .removeQue node died =>
      Owned table.activeOwner died 1 3 ∧
      (¬ OnQueue heads table.memory node → Unmoved heads table.memory node)
  | .release => True

/-- What holds of the table between two events. -/
inductive Recoverable (heads : Set Ptr) (table : Table) (contents : Contents) : Prop
  | idle (idle : Idle heads table.memory contents)
  | inserting (dead : table.held = false) (owned : 0 < table.activeOwner)
      (inserting : Inserting heads table.memory contents)
  | removing (dead : table.held = false) (owned : 0 < table.activeOwner)
      (removing : Removing heads table.memory contents)

variable {heads : Set Ptr} {table : Table} {contents : Contents}

theorem Recoverable.of_held (recoverable : Recoverable heads table contents)
    (held : table.held = true) : Idle heads table.memory contents := by
  cases recoverable with
  | idle idle => exact idle
  | inserting dead _ _ => simp [held] at dead
  | removing dead _ _ => simp [held] at dead

theorem reached_length (routine : Routine) (died : Option Nat) :
    ∃ count, reached routine died = routine.take count ∧
      (died = some count ∨ died = none ∧ count = routine.length) := by
  cases died with
  | none => exact ⟨routine.length, (List.take_length).symm, .inr ⟨rfl, rfl⟩⟩
  | some count => exact ⟨count, rfl, .inl rfl⟩

/-- The recovery finishes the marked work, or leaves it marked when its process dies. -/
theorem acquire_recoverable {owner : Int} {died : Option Nat}
    (recoverable : Recoverable heads table contents)
    (careful : Careful heads table (.acquire owner died)) :
    Recoverable heads (table.acquire owner died) contents := by
  cases recoverable with
  | idle idle =>
      have nothing : perform (reached (if table.activeOwner > 0 then recovery table.memory else [])
          died) table.memory = table.memory := by
        have no_work : (if table.activeOwner > 0 then recovery table.memory else []) = [] := by
          rcases idle.insert with clear | clear <;> simp [recovery, idle.removeNode, clear]
        rw [no_work]
        cases died <;> simp [reached, perform]
      refine .idle ?_
      rw [Table.acquire, nothing]
      exact idle
  | inserting dead owned inserting =>
      have work : (if table.activeOwner > 0 then recovery table.memory else []) = undoInsert := by
        simp [recovery, owned, inserting.removeNode, inserting.insertQue, inserting.insertPrior]
      obtain ⟨count, writes, ended⟩ := reached_length undoInsert died
      obtain ⟨unfinished, finished⟩ := undoInsert_reached inserting count
      by_cases few : count ≤ 2
      · have died_eq : died = some count := by
          rcases ended with ended | ⟨-, ended⟩
          · exact ended
          · rw [ended] at few
            simp [undoInsert] at few
        refine .inserting (by simp [Table.acquire, died_eq])
          (careful.2 inserting.insertQue inserting.insertPrior count died_eq (Nat.zero_le _) few) ?_
        simp only [Table.acquire, work, writes]
        exact unfinished few
      · refine .idle ?_
        simp only [Table.acquire, work, writes]
        exact finished (by omega)
  | removing dead owned removing =>
      have work : (if table.activeOwner > 0 then recovery table.memory else []) =
          removeQue table.memory.removeNode := by
        simp [recovery, owned, removing.removeNode]
      obtain ⟨count, writes, ended⟩ := reached_length (removeQue table.memory.removeNode) died
      obtain ⟨unfinished, finished⟩ := removeQue_reached removing.removeNode removing.insert
        removing.outside removing.holds count
      by_cases few : count ≤ 3
      · have died_eq : died = some count := by
          rcases ended with ended | ⟨-, ended⟩
          · exact ended
          · rw [ended] at few
            simp [removeQue] at few
        refine .removing (by simp [Table.acquire, died_eq])
          (careful.1 removing.removeNode count died_eq (Nat.zero_le _) few) ?_
        simp only [Table.acquire, work, writes]
        rcases Nat.eq_zero_or_pos count with rfl | some_write
        · exact removing
        · exact unfinished some_write few
      · refine .idle ?_
        simp only [Table.acquire, work, writes]
        exact finished (by omega)

/-- An insertion happens, or is undone once its process has died. -/
theorem insertTail_recoverable {lockSrq node : Ptr} {died : Option Nat}
    (recoverable : Recoverable heads table contents)
    (legal : Legal heads table (.insertTail lockSrq node died))
    (careful : Careful heads table (.insertTail lockSrq node died)) :
    ∃ after, contents.Explains (.insertTail lockSrq node died) after ∧
      Recoverable heads (table.step (.insertTail lockSrq node died)) after := by
  obtain ⟨held, is_head, node_pos, off_queue⟩ := legal
  obtain ⟨owned, first_write⟩ := careful
  have idle := recoverable.of_held held
  have fresh : ¬ InRings heads contents node := by
    rwa [← idle.holds.onQueue_iff]
  obtain ⟨count, writes, ended⟩ := reached_length (insertTail lockSrq node) died
  by_cases few : count ≤ 6
  · have died_eq : died = some count := by
      rcases ended with ended | ⟨-, ended⟩
      · exact ended
      · rw [ended] at few
        simp [insertTail] at few
    refine ⟨contents, .inr ⟨by simp [died_eq], rfl⟩, ?_⟩
    have dead : (table.step (.insertTail lockSrq node died)).held = false := by
      simp [Table.step, died_eq]
    obtain rfl | rfl | several : count = 0 ∨ count = 1 ∨ 2 ≤ count := by omega
    · refine .idle ?_
      simp only [Table.step, writes]
      exact idle
    · have owner_pos := owned 1 died_eq le_rfl few
      rcases insertTail_first node idle is_head (first_write died_eq) with clear | marked
      · refine .idle ?_
        simp only [Table.step, writes]
        exact clear
      · refine .inserting dead owner_pos ?_
        simp only [Table.step, writes]
        exact marked
    · refine .inserting dead (owned count died_eq (by omega) few) ?_
      simp only [Table.step, writes]
      exact insertTail_unfinished idle is_head fresh several few
  · refine ⟨contents.append lockSrq node, .inl rfl, .idle ?_⟩
    simp only [Table.step, writes]
    exact insertTail_finished idle is_head node_pos fresh (by omega)

/-- A node off the queues whose old links do not lead into them is removed again without effect. -/
theorem Holds.detach_unmoved {node : Ptr} {memory : Memory}
    (holds : Holds heads memory.toLinks contents) (unmoved : Unmoved heads memory node) :
    Holds heads (detach memory.toLinks node) contents := by
  refine ⟨holds.1.congr (fun member inside => ?_) fun member inside => ?_, holds.2⟩
  · by_cases at_prior : member = memory.backward node
    · subst at_prior
      have equal := unmoved.2 (holds.onQueue_iff.mpr inside)
      simp [detach, equal]
    · simp [detach, at_prior]
  · by_cases at_next : member = memory.forward node
    · subst at_next
      have equal := unmoved.1 (holds.onQueue_iff.mpr inside)
      simp [detach, equal]
    · simp [detach, at_next]

/-- A removal happens, or is done by the recovery once its process has died. -/
theorem removeQue_recoverable {node : Ptr} {died : Option Nat}
    (recoverable : Recoverable heads table contents)
    (legal : Legal heads table (.removeQue node died))
    (careful : Careful heads table (.removeQue node died)) :
    ∃ after, contents.Explains (.removeQue node died) after ∧
      Recoverable heads (table.step (.removeQue node died)) after := by
  obtain ⟨held, not_head, node_pos, -⟩ := legal
  obtain ⟨owned, again⟩ := careful
  have idle := recoverable.of_held held
  have outside : ¬ InRings heads (contents.remove node) node :=
    idle.holds.not_inRings_remove not_head
  have target : Holds heads (detach table.memory.toLinks node) (contents.remove node) := by
    by_cases inside : InRings heads contents node
    · exact idle.holds.remove not_head inside
    · have unmoved := again (mt idle.holds.onQueue_iff.mp inside)
      exact (idle.holds.detach_unmoved unmoved).of_eq (Contents.remove_outside inside)
  obtain ⟨count, writes, ended⟩ := reached_length (removeQue node) died
  obtain ⟨unfinished, finished⟩ := removeQue_reached node_pos idle.insert outside target count
  by_cases few : count ≤ 3
  · have died_eq : died = some count := by
      rcases ended with ended | ⟨-, ended⟩
      · exact ended
      · rw [ended] at few
        simp [removeQue] at few
    rcases Nat.eq_zero_or_pos count with rfl | some_write
    · refine ⟨contents, .inr ⟨by simp [died_eq], rfl⟩, .idle ?_⟩
      simp only [Table.step, writes]
      exact idle
    · refine ⟨contents.remove node, .inl rfl,
        .removing (by simp [Table.step, died_eq]) (owned count died_eq some_write few) ?_⟩
      simp only [Table.step, writes]
      exact unfinished some_write few
  · refine ⟨contents.remove node, .inl rfl, .idle ?_⟩
    simp only [Table.step, writes]
    exact finished (by omega)

theorem step_recoverable {event : Event} (recoverable : Recoverable heads table contents)
    (legal : Legal heads table event) (careful : Careful heads table event) :
    ∃ after, contents.Explains event after ∧ Recoverable heads (table.step event) after := by
  cases event with
  | acquire owner died => exact ⟨contents, rfl, acquire_recoverable recoverable careful⟩
  | insertTail lockSrq node died => exact insertTail_recoverable recoverable legal careful
  | removeQue node died => exact removeQue_recoverable recoverable legal careful
  | release => exact ⟨contents, rfl, .idle (recoverable.of_held legal)⟩

theorem run_recoverable {events : List Event} (recoverable : Recoverable heads table contents)
    (legal : Throughout (Legal heads) table events)
    (careful : Throughout (Careful heads) table events) :
    ∃ after, contents.Explained events after ∧ Recoverable heads (table.run events) after := by
  induction events generalizing table contents with
  | nil => exact ⟨contents, rfl, recoverable⟩
  | cons event events inductive_hypothesis =>
      obtain ⟨between, explains, recoverable⟩ :=
        step_recoverable recoverable legal.1 careful.1
      obtain ⟨after, explained, recoverable⟩ :=
        inductive_hypothesis recoverable legal.2 careful.2
      exact ⟨after, ⟨between, explains, explained⟩, recoverable⟩

section Necessity

variable {memory : Memory} {head node : Ptr}

/-- A second removal leaves the queues unchanged exactly when the node's old links are unmoved. -/
theorem removeQue_again_iff (holds : Holds heads memory.toLinks contents)
    (outside : ¬ InRings heads contents node) :
    Holds heads (perform (removeQue node) memory).toLinks contents ↔ Unmoved heads memory node := by
  constructor
  · intro after
    have unchanged : ∀ member, InRings heads contents member →
        (detach memory.toLinks node).forward member = memory.forward member ∧
          (detach memory.toLinks node).backward member = memory.backward member := by
      intro member inside
      have different : member ≠ node := by
        rintro rfl
        exact outside inside
      have equal := holds.1.links_eq after.1 inside
      simp only [perform, removeQue, Memory.setForward, Memory.setBackward, List.foldl_cons,
        List.foldl_nil, Function.update_of_ne different] at equal
      simpa [detach, Function.update_apply] using equal
    refine ⟨fun on_queue => ?_, fun on_queue => ?_⟩
    · have equal := (unchanged _ (holds.onQueue_iff.mp on_queue)).2
      simpa [detach] using equal.symm
    · have equal := (unchanged _ (holds.onQueue_iff.mp on_queue)).1
      simpa [detach] using equal.symm
  · intro unmoved
    have closed := holds.detach_unmoved unmoved
    rw [← removeQue_links] at closed
    refine closed.congr outside (fun member different => ?_) fun member different => ?_
    · exact Function.update_of_ne different _ _
    · exact Function.update_of_ne different _ _

/-- Taking an insertion back to a stale `shb_insert_prior` keeps the queues exactly when that is the
node before the head. -/
theorem restore_iff (holds : Holds heads memory.toLinks contents) (is_head : head ∈ heads)
    (prior : Ptr) :
    Holds heads (restore memory.toLinks head prior) contents ↔ prior = memory.backward head := by
  constructor
  · intro after
    have equal := holds.1.links_eq after.1 ⟨head, is_head, List.mem_cons_self⟩
    simpa [restore] using equal.2
  · rintro rfl
    rw [holds.restore_backward is_head]
    exact holds

/-- Nothing is recovered after an owner that is not above 0. -/
theorem acquire_unowned (unowned : table.activeOwner ≤ 0) (owner : Int) (died : Option Nat) :
    (table.acquire owner died).memory = table.memory := by
  have no_work : ¬ table.activeOwner > 0 := by omega
  cases died <;> simp [Table.acquire, no_work, reached, perform]

/-- An insertion that died between its two writes to the queue leaves no well-formed queues. -/
theorem insertTail_half (is_head : head ∈ heads) (different : head ≠ node) :
    ¬ ∃ after,
      Holds heads (perform ((insertTail head node).take 5) memory).toLinks after := by
  rintro ⟨after, holds⟩
  obtain ⟨-, -, forward_eq⟩ := (holds.1.closed head is_head).exists_last
  simp only [perform, insertTail, Memory.setForward, Memory.setBackward, List.take, List.foldl_cons,
    List.foldl_nil, Function.update_of_ne different, Function.update_self] at forward_eq
  exact different forward_eq.symm

end Necessity

/-- Two empty queues with their heads at 8 and 16. -/
def emptyTable : Table where
  memory := { forward := id, backward := id, removeNode := 0, insertQue := 0, insertPrior := 0 }
  activeOwner := 0
  held := false
  interrupted := []

theorem emptyTable_sound : Sound {8, 16} emptyTable (fun _ => []) where
  holds := by
    refine ⟨⟨fun _ _ => .nil, by simp, by simp, fun head _ => ?_⟩, ?_⟩
    · simp [Closed, Linked, emptyTable]
    · rintro node ⟨head, is_head, mem⟩
      rw [List.mem_singleton.mp mem]
      rcases is_head with rfl | rfl <;> decide
  removeNode := rfl
  insertQue := rfl
  insertPrior := rfl
  held := rfl
  interrupted := rfl

/-- Heads that link to themselves have nothing else on their queues. -/
theorem not_onQueue_of_empty {memory : Memory} {node : Ptr}
    (empty : ∀ head ∈ heads, memory.forward head = head) (not_head : node ∉ heads) :
    ¬ OnQueue heads memory node := by
  rintro ⟨head, is_head, count, rfl⟩
  rw [Function.iterate_fixed (empty head is_head)] at not_head
  exact not_head is_head

/-- An insertion is interrupted and so is its recovery; a removal is interrupted and repeated. -/
def recoveredEvents : List Event :=
  [.acquire 64 none, .insertTail 8 24 (some 5), .acquire 72 (some 1), .acquire 80 none,
    .insertTail 8 24 none, .removeQue 24 (some 2), .acquire 64 none, .removeQue 24 none]

theorem recoveredEvents_legal : Throughout (Legal {8, 16}) emptyTable recoveredEvents := by
  have fresh : ∀ memory : Memory, memory.forward 8 = 8 → memory.forward 16 = 16 →
      ¬ OnQueue {8, 16} memory 24 := by
    intro memory first second
    refine not_onQueue_of_empty ?_ (by simp)
    rintro head (rfl | rfl)
    · exact first
    · exact second
  exact ⟨⟨rfl, by decide⟩, ⟨rfl, by simp, by decide, fresh _ rfl rfl⟩, ⟨rfl, by decide⟩,
    ⟨rfl, by decide⟩, ⟨rfl, by simp, by decide, fresh _ rfl rfl⟩,
    ⟨rfl, by simp, by decide, .inl ⟨8, by simp, 1, rfl⟩⟩, ⟨rfl, by decide⟩,
    ⟨rfl, by simp, by decide, .inr List.mem_cons_self⟩, trivial⟩

theorem recoveredEvents_careful : Throughout (Careful {8, 16}) emptyTable recoveredEvents := by
  have owned : ∀ owner : Int, 0 < owner → ∀ died first last, Owned owner died first last :=
    fun _ positive _ _ _ _ _ _ _ => positive
  refine ⟨⟨fun _ => owned 64 (by decide) _ _ _, fun _ _ => owned 64 (by decide) _ _ _⟩,
    ⟨owned 64 (by decide) _ _ _, by simp⟩,
    ⟨fun _ => owned 72 (by decide) _ _ _, fun _ _ => owned 72 (by decide) _ _ _⟩,
    ⟨fun _ => owned 80 (by decide) _ _ _, fun _ _ => owned 80 (by decide) _ _ _⟩,
    ⟨owned 80 (by decide) _ _ _, by simp⟩,
    ⟨owned 80 (by decide) _ _ _, fun off => absurd ⟨8, by simp, 1, rfl⟩ off⟩,
    ⟨fun _ => owned 64 (by decide) _ _ _, fun _ _ => owned 64 (by decide) _ _ _⟩,
    ⟨owned 64 (by decide) _ _ _, fun _ => ⟨fun _ => rfl, fun _ => rfl⟩⟩, trivial⟩

/-- A process dies after it has cleared `shb_insert_que`; the next one, which inserts into another
queue, dies after its first write. -/
def staleEvents : List Event :=
  [.acquire 64 none, .insertTail 8 24 (some 7), .acquire 72 none, .insertTail 16 32 (some 1),
    .acquire 80 none]

theorem staleEvents_legal : Throughout (Legal {8, 16}) emptyTable staleEvents := by
  refine ⟨⟨rfl, by decide⟩, ⟨rfl, by simp, by decide, ?_⟩, ⟨rfl, by decide⟩,
    ⟨rfl, by simp, by decide, ?_⟩, ⟨rfl, by decide⟩, trivial⟩
  · exact not_onQueue_of_empty (by rintro head (rfl | rfl) <;> rfl) (by simp)
  · rintro ⟨head, is_head, count, reached⟩
    have inside : ∀ count, ∀ head ∈ ({8, 16, 24} : Set Ptr),
        (emptyTable.run (staleEvents.take 3)).memory.forward^[count] head ∈
          ({8, 16, 24} : Set Ptr) := by
      intro count
      induction count with
      | zero => exact fun head mem => mem
      | succ count inductive_hypothesis =>
          intro head mem
          rw [Function.iterate_succ_apply]
          refine inductive_hypothesis _ ?_
          rcases mem with rfl | rfl | rfl
          · exact .inr (.inr rfl)
          · exact .inr (.inl rfl)
          · exact .inl rfl
    have found := inside count head (by rcases is_head with rfl | rfl <;> simp)
    have reached : (emptyTable.run (staleEvents.take 3)).memory.forward^[count] head = 32 := reached
    rw [reached] at found
    simp at found

end SelfRelativeQueue
end Firebird
