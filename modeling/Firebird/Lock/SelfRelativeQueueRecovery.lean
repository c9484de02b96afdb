import Firebird.Lock.SelfRelativeQueue

/-!
# Recovery of the lock table queues

A dead process leaves its table idle, inserting or removing.  Finishing the work that is marked is
idempotent: from an unfinished insertion every write of the recovery leads back to the links without
the node, and from an unfinished removal every write leads on to the links around it.
-/

namespace Firebird
namespace SelfRelativeQueue

open LinkedRing

/-- The links with the head and the node before it linked to each other. -/
def restore (links : Links Ptr) (head prior : Ptr) : Links Ptr where
  forward := Function.update links.forward prior head
  backward := Function.update links.backward head prior

/-- No work is marked and the queues are well formed. -/
structure Idle (heads : Set Ptr) (memory : Memory) (contents : Contents) : Prop where
  removeNode : memory.removeNode = 0
  insert : memory.insertQue = 0 ∨ memory.insertPrior = 0
  holds : Holds heads memory.toLinks contents

/-- An insertion is marked; without it the queues are well formed. -/
structure Inserting (heads : Set Ptr) (memory : Memory) (contents : Contents) : Prop where
  removeNode : memory.removeNode = 0
  insertQue : memory.insertQue ≠ 0
  insertPrior : memory.insertPrior ≠ 0
  holds : Holds heads (restore memory.toLinks memory.insertQue memory.insertPrior) contents

/-- The removal of a node is marked; once it is done the queues are well formed. -/
structure Removing (heads : Set Ptr) (memory : Memory) (contents : Contents) : Prop where
  removeNode : memory.removeNode ≠ 0
  insert : memory.insertQue = 0 ∨ memory.insertPrior = 0
  outside : ¬ InRings heads contents memory.removeNode
  holds : Holds heads (detach memory.toLinks memory.removeNode) contents

section Holds

variable {heads : Set Ptr} {links other : Links Ptr} {contents : Contents} {head node : Ptr}

theorem Holds.onQueue_iff {memory : Memory} (holds : Holds heads memory.toLinks contents) :
    OnQueue heads memory node ↔ InRings heads contents node :=
  holds.1.inRings_iff.symm

/-- The links of a node outside the queues do not matter. -/
theorem Holds.congr (holds : Holds heads links contents) (outside : ¬ InRings heads contents node)
    (forward : ∀ member, member ≠ node → other.forward member = links.forward member)
    (backward : ∀ member, member ≠ node → other.backward member = links.backward member) :
    Holds heads other contents := by
  have member_ne : ∀ member, InRings heads contents member → member ≠ node := by
    rintro member inside rfl
    exact outside inside
  exact ⟨holds.1.congr (fun member inside => forward member (member_ne member inside))
    (fun member inside => backward member (member_ne member inside)), holds.2⟩

theorem inRings_append (is_head : head ∈ heads) {member : Ptr} :
    InRings heads (contents.append head node) member ↔
      InRings heads contents member ∨ member = node := by
  constructor
  · rintro ⟨other, other_head, mem⟩
    by_cases same : other = head
    · subst same
      simp only [Contents.append, Function.update_self, List.mem_cons, List.mem_append,
        List.not_mem_nil, or_false] at mem
      rcases mem with rfl | mem | rfl
      · exact .inl ⟨member, other_head, List.mem_cons_self⟩
      · exact .inl ⟨other, other_head, List.mem_cons_of_mem _ mem⟩
      · exact .inr rfl
    · rw [Contents.append, Function.update_of_ne same] at mem
      exact .inl ⟨other, other_head, mem⟩
  · rintro (⟨other, other_head, mem⟩ | rfl)
    · refine ⟨other, other_head, ?_⟩
      by_cases same : other = head
      · subst same
        rw [Contents.append, Function.update_self, ← List.cons_append]
        exact List.mem_append_left _ mem
      · rwa [Contents.append, Function.update_of_ne same]
    · refine ⟨head, is_head, ?_⟩
      simp [Contents.append]

theorem Holds.append (holds : Holds heads links contents) (is_head : head ∈ heads)
    (node_pos : node ≠ 0) (fresh : ¬ InRings heads contents node) :
    Holds heads (attach links head node) (contents.append head node) := by
  refine ⟨holds.1.attach is_head fresh, fun member inside => ?_⟩
  rcases (inRings_append is_head).mp inside with inside | rfl
  · exact holds.2 member inside
  · exact node_pos

theorem Holds.of_eq (holds : Holds heads links contents) {after : Contents}
    (equal : ∀ head ∈ heads, after head = contents head) : Holds heads links after := by
  have inside_iff : ∀ member, InRings heads after member ↔ InRings heads contents member := by
    intro member
    constructor
    · rintro ⟨head, is_head, mem⟩
      rw [equal head is_head] at mem
      exact ⟨head, is_head, mem⟩
    · rintro ⟨head, is_head, mem⟩
      rw [← equal head is_head] at mem
      exact ⟨head, is_head, mem⟩
  refine ⟨⟨fun head is_head => ?_, fun head is_head => ?_, fun first is_first second is_second => ?_,
    fun head is_head => ?_⟩, fun member inside => holds.2 member ((inside_iff member).mp inside)⟩
  · rw [equal head is_head]
    exact holds.1.nodup head is_head
  · rw [equal head is_head]
    exact holds.1.members head is_head
  · rw [equal first is_first, equal second is_second]
    exact holds.1.disjoint first is_first second is_second
  · rw [equal head is_head]
    exact holds.1.closed head is_head

/-- Taking out a node that is on no queue leaves the queues as they are. -/
theorem Contents.remove_outside (outside : ¬ InRings heads contents node) :
    ∀ head ∈ heads, contents.remove node head = contents head := by
  intro head is_head
  exact List.erase_of_not_mem fun mem => outside ⟨head, is_head, List.mem_cons_of_mem _ mem⟩

theorem Holds.not_inRings_remove (holds : Holds heads links contents) (not_head : node ∉ heads) :
    ¬ InRings heads (contents.remove node) node := by
  rintro ⟨head, is_head, mem⟩
  rcases List.mem_cons.mp mem with rfl | mem
  · exact not_head is_head
  · exact (holds.1.nodup head is_head).not_mem_erase mem

/-- Linking the neighbours of a member to each other takes it out of its queue. -/
theorem Holds.remove (holds : Holds heads links contents) (not_head : node ∉ heads)
    (inside : InRings heads contents node) :
    Holds heads (detach links node) (contents.remove node) := by
  obtain ⟨head, is_head, mem⟩ := inside
  have in_contents : node ∈ contents head := by
    rcases List.mem_cons.mp mem with rfl | mem
    · exact absurd is_head not_head
    · exact mem
  refine ⟨holds.1.detach is_head in_contents, ?_⟩
  rintro member ⟨other, other_head, other_mem⟩
  refine holds.2 member ⟨other, other_head, ?_⟩
  rcases List.mem_cons.mp other_mem with rfl | other_mem
  · exact List.mem_cons_self
  · exact List.mem_cons_of_mem _ (List.mem_of_mem_erase other_mem)

end Holds

section Removal

variable {heads : Set Ptr} {memory : Memory} {contents : Contents} {node : Ptr}

/-- Closing the ring around a node again changes nothing. -/
@[simp] theorem detach_detach (links : Links Ptr) (node : Ptr) :
    detach (detach links node) node = detach links node := by
  by_cases self_forward : links.forward node = node <;>
    by_cases self_backward : links.backward node = node <;>
    ext other <;> simp [detach, Function.update_apply]

/-- The first link of a removal does not change what the second one leads to. -/
theorem detach_backward (links : Links Ptr) (node : Ptr) :
    detach { links with
      backward := Function.update links.backward (links.forward node) (links.backward node) } node =
      detach links node := by
  ext other <;> simp [detach, Function.update_apply]

/-- The two writes of a removal that change the queues. -/
theorem removeQue_links (memory : Memory) (node : Ptr) :
    (perform ((removeQue node).take 3) memory).toLinks = detach memory.toLinks node := by
  ext other <;>
    simp [perform, removeQue, Memory.setForward, Memory.setBackward, detach, Function.update_apply]

/-- Every write of `remove_que` leaves the removal marked or done. -/
theorem removeQue_reached (node_pos : node ≠ 0)
    (insert : memory.insertQue = 0 ∨ memory.insertPrior = 0)
    (outside : ¬ InRings heads contents node)
    (holds : Holds heads (detach memory.toLinks node) contents) (count : Nat) :
    (1 ≤ count → count ≤ 3 →
      Removing heads (perform ((removeQue node).take count) memory) contents) ∧
    (4 ≤ count → Idle heads (perform ((removeQue node).take count) memory) contents) := by
  have closed : Holds heads (perform ((removeQue node).take 3) memory).toLinks contents := by
    rw [removeQue_links]
    exact holds
  refine ⟨fun started unfinished => ?_, fun finished => ?_⟩
  · obtain rfl | rfl | rfl : count = 1 ∨ count = 2 ∨ count = 3 := by omega
    · exact ⟨node_pos, insert, outside, holds⟩
    · refine ⟨node_pos, insert, outside, ?_⟩
      have same := detach_backward memory.toLinks node
      rw [← same] at holds
      exact holds
    · refine ⟨node_pos, insert, outside, ?_⟩
      have same : detach (perform ((removeQue node).take 3) memory).toLinks node =
          detach memory.toLinks node := by
        rw [removeQue_links, detach_detach]
      rw [← same] at holds
      exact holds
  · have initialised : ∀ links : Links Ptr,
        (∀ member, member ≠ node → links.forward member =
          (perform ((removeQue node).take 3) memory).forward member) →
        (∀ member, member ≠ node → links.backward member =
          (perform ((removeQue node).take 3) memory).backward member) →
        Holds heads links contents :=
      fun links forward backward => closed.congr outside forward backward
    obtain rfl | rfl | complete : count = 4 ∨ count = 5 ∨ 6 ≤ count := by omega
    · exact ⟨rfl, insert, closed⟩
    · refine ⟨rfl, insert, initialised _ (fun member different => rfl) fun member different => ?_⟩
      exact Function.update_of_ne different _ _
    · rw [List.take_of_length_le complete]
      refine ⟨rfl, insert, initialised _ (fun member different => ?_) fun member different => ?_⟩
      · exact Function.update_of_ne different _ _
      · exact Function.update_of_ne different _ _

end Removal

section Insertion

variable {heads : Set Ptr} {memory : Memory} {contents : Contents} {head node : Ptr}

/-- Every write that takes an insertion back leaves it marked or taken back. -/
theorem undoInsert_reached (inserting : Inserting heads memory contents) (count : Nat) :
    (count ≤ 2 → Inserting heads (perform (undoInsert.take count) memory) contents) ∧
    (3 ≤ count → Idle heads (perform (undoInsert.take count) memory) contents) := by
  obtain ⟨no_removal, marked, prior_marked, holds⟩ := inserting
  refine ⟨fun unfinished => ?_, fun finished => ?_⟩
  · obtain rfl | rfl | rfl : count = 0 ∨ count = 1 ∨ count = 2 := by omega
    · exact ⟨no_removal, marked, prior_marked, holds⟩
    · refine ⟨no_removal, marked, prior_marked, ?_⟩
      simpa [perform, undoInsert, Memory.setBackward, restore] using holds
    · refine ⟨no_removal, marked, prior_marked, ?_⟩
      simpa [perform, undoInsert, Memory.setBackward, Memory.setForward, restore] using holds
  · obtain rfl | complete : count = 3 ∨ 4 ≤ count := by omega
    · exact ⟨no_removal, .inl rfl, holds⟩
    · rw [List.take_of_length_le complete]
      exact ⟨no_removal, .inl rfl, holds⟩

/-- The links of the head and of the node before it are what an insertion is undone to. -/
theorem Holds.restore_backward (holds : Holds heads memory.toLinks contents) (is_head : head ∈ heads) :
    restore memory.toLinks head (memory.backward head) = memory.toLinks := by
  obtain ⟨-, -, forward_eq⟩ := (holds.1.closed head is_head).exists_last
  ext other
  · by_cases same : other = memory.backward head
    · subst same
      simp [restore, forward_eq]
    · simp [restore, same]
  · simp [restore]

/-- Taking an insertion back makes up for the two links it may have changed in the queue. -/
theorem Holds.restore_of_agree (holds : Holds heads memory.toLinks contents) (is_head : head ∈ heads)
    (fresh : ¬ InRings heads contents node) {links : Links Ptr}
    (forward : ∀ member, member ≠ node → member ≠ memory.backward head →
      links.forward member = memory.forward member)
    (backward : ∀ member, member ≠ node → member ≠ head →
      links.backward member = memory.backward member) :
    Holds heads (restore links head (memory.backward head)) contents := by
  have same := holds.restore_backward is_head
  refine holds.congr fresh (fun member different => ?_) fun member different => ?_
  · rw [← same]
    by_cases at_prior : member = memory.backward head
    · simp [restore, at_prior]
    · simp [restore, at_prior, forward member different at_prior]
  · rw [← same]
    by_cases at_head : member = head
    · simp [restore, at_head]
    · simp [restore, at_head, backward member different at_head]

/-- Until it clears its marker, an insertion can be taken back. -/
theorem insertTail_unfinished (idle : Idle heads memory contents) (is_head : head ∈ heads)
    (fresh : ¬ InRings heads contents node) {count : Nat} (started : 2 ≤ count)
    (unfinished : count ≤ 6) :
    Inserting heads (perform ((insertTail head node).take count) memory) contents := by
  obtain ⟨no_removal, -, holds⟩ := idle
  have head_inside : InRings heads contents head := ⟨head, is_head, List.mem_cons_self⟩
  have head_pos : head ≠ 0 := holds.2 head head_inside
  have prior_pos : memory.backward head ≠ 0 := holds.2 _ (holds.1.backward_inRings head_inside)
  have head_ne : head ≠ node := by
    rintro rfl
    exact fresh head_inside
  obtain rfl | rfl | rfl | rfl | rfl : count = 2 ∨ count = 3 ∨ count = 4 ∨ count = 5 ∨ count = 6 := by
    omega
  all_goals
    refine ⟨no_removal, head_pos, prior_pos, holds.restore_of_agree is_head fresh
      (fun member different apart => ?_) fun member different apart => ?_⟩
  all_goals
    simp [perform, insertTail, Memory.setForward, Memory.setBackward, head_ne, different, apart]

/-- The links after an insertion has cleared its marker. -/
theorem insertTail_links (head_ne : head ≠ node) {count : Nat} (finished : 7 ≤ count) :
    (perform ((insertTail head node).take count) memory).toLinks =
      attach memory.toLinks head node := by
  have done : (perform ((insertTail head node).take 7) memory).toLinks =
      attach memory.toLinks head node := by
    ext other <;>
      simp [perform, insertTail, Memory.setForward, Memory.setBackward, attach, head_ne]
  obtain rfl | complete : count = 7 ∨ 8 ≤ count := by omega
  · exact done
  · rw [List.take_of_length_le complete]
    exact done

theorem insertTail_finished (idle : Idle heads memory contents) (is_head : head ∈ heads)
    (node_pos : node ≠ 0) (fresh : ¬ InRings heads contents node) {count : Nat}
    (finished : 7 ≤ count) :
    Idle heads (perform ((insertTail head node).take count) memory)
      (contents.append head node) := by
  have head_ne : head ≠ node := by
    rintro rfl
    exact fresh ⟨head, is_head, List.mem_cons_self⟩
  have holds := idle.holds.append is_head node_pos fresh
  rw [← insertTail_links head_ne finished] at holds
  obtain rfl | complete : count = 7 ∨ 8 ≤ count := by omega
  · exact ⟨idle.removeNode, .inl rfl, holds⟩
  · rw [List.take_of_length_le complete] at holds ⊢
    exact ⟨idle.removeNode, .inl rfl, holds⟩

/-- A process that dies after the first write of an insertion leaves nothing to take back, or a
marker that names the head and the node before it. -/
theorem insertTail_first (node : Ptr) (idle : Idle heads memory contents) (is_head : head ∈ heads)
    (prior : memory.insertPrior = 0 ∨ memory.insertPrior = memory.backward head) :
    Idle heads (perform ((insertTail head node).take 1) memory) contents ∨
      Inserting heads (perform ((insertTail head node).take 1) memory) contents := by
  obtain ⟨no_removal, -, holds⟩ := idle
  have head_inside : InRings heads contents head := ⟨head, is_head, List.mem_cons_self⟩
  rcases prior with prior | prior
  · exact .inl ⟨no_removal, .inr prior, holds⟩
  · refine .inr ⟨no_removal, holds.2 head head_inside, ?_, ?_⟩
    · have prior_pos := holds.2 _ (holds.1.backward_inRings head_inside)
      rw [← prior] at prior_pos
      exact prior_pos
    · have same := holds.restore_backward is_head
      rw [← prior] at same
      rw [← same] at holds
      exact holds

end Insertion

end SelfRelativeQueue
end Firebird
