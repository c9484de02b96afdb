import Mathlib.Data.List.Chain
import Mathlib.Data.List.Nodup
import Mathlib.Logic.Function.Basic
import Mathlib.Tactic.Common

/-!
# Rings of doubly linked nodes

A ring runs from its head through its members and back.  Several rings share one memory of links:
attaching a node changes the ring it joins, detaching a node closes the ring around it, and a change
of links away from the rings changes nothing.
-/

namespace Firebird
namespace LinkedRing

variable {α : Type*}

/-- The two links of every node. -/
@[ext] structure Links (α : Type*) where
  /-- The next node. -/
  forward : α → α
  /-- The previous node. -/
  backward : α → α

/-- Each node links to the next one and the next one back to it. -/
def Linked (links : Links α) : List α → Prop :=
  List.IsChain fun node next => links.forward node = next ∧ links.backward next = node

/-- The members linked in their order between the head and the head again. -/
def Closed (links : Links α) (head : α) (members : List α) : Prop :=
  Linked links (head :: members ++ [head])

theorem exists_concat (first : α) (rest : List α) :
    ∃ before last, first :: rest = before ++ [last] :=
  ⟨_, _, (List.dropLast_append_getLast (List.cons_ne_nil first rest)).symm⟩

theorem Linked.congr {links other : Links α} {nodes : List α} (linked : Linked links nodes)
    (forward : ∀ node ∈ nodes.dropLast, other.forward node = links.forward node)
    (backward : ∀ node ∈ nodes.tail, other.backward node = links.backward node) :
    Linked other nodes := by
  induction nodes with
  | nil => exact .nil
  | cons first rest inductive_hypothesis =>
      cases rest with
      | nil => exact .singleton first
      | cons second rest =>
          obtain ⟨pair, linked⟩ := List.isChain_cons_cons.mp linked
          refine List.isChain_cons_cons.mpr ⟨⟨?_, ?_⟩, ?_⟩
          · rw [forward first (by simp)]
            exact pair.1
          · rw [backward second (by simp)]
            exact pair.2
          · refine inductive_hypothesis linked (fun node mem => forward node ?_)
              (fun node mem => backward node (List.mem_cons_of_mem _ mem))
            rw [List.dropLast_cons_of_ne_nil (List.cons_ne_nil _ _)]
            exact List.mem_cons_of_mem _ mem

/-- Following the links from the first node leads to every other one. -/
theorem Linked.reaches {links : Links α} {first : α} {rest : List α}
    (linked : Linked links (first :: rest)) {node : α} (mem : node ∈ first :: rest) :
    ∃ count, links.forward^[count] first = node := by
  induction rest generalizing first with
  | nil => exact ⟨0, (List.mem_singleton.mp mem).symm⟩
  | cons second rest inductive_hypothesis =>
      rcases List.mem_cons.mp mem with rfl | mem
      · exact ⟨0, rfl⟩
      · obtain ⟨pair, linked⟩ := List.isChain_cons_cons.mp linked
        obtain ⟨count, reached⟩ := inductive_hypothesis linked mem
        refine ⟨count + 1, ?_⟩
        rw [Function.iterate_succ_apply, pair.1]
        exact reached

namespace Closed

variable {links other : Links α} {head : α} {members : List α}

theorem congr (closed : Closed links head members)
    (forward : ∀ node ∈ head :: members, other.forward node = links.forward node)
    (backward : ∀ node ∈ head :: members, other.backward node = links.backward node) :
    Closed other head members := by
  refine Linked.congr closed (fun node mem => forward node ?_) (fun node mem => backward node ?_)
  · rwa [List.dropLast_concat] at mem
  · rw [List.cons_append, List.tail_cons, List.mem_append, List.mem_singleton] at mem
    rcases mem with mem | rfl
    · exact List.mem_cons_of_mem _ mem
    · exact List.mem_cons_self

/-- The node before the head is the last one of the ring. -/
theorem exists_last (closed : Closed links head members) :
    ∃ before, head :: members = before ++ [links.backward head] ∧
      links.forward (links.backward head) = head := by
  obtain ⟨before, last, split⟩ := exists_concat head members
  have linked : Linked links (before ++ last :: [head]) := by
    simpa [Closed, split] using closed
  obtain ⟨-, pair, -⟩ := List.isChain_append_cons_cons.mp linked
  obtain rfl := pair.2
  exact ⟨before, split, pair.1⟩

theorem backward_head_mem (closed : Closed links head members) :
    links.backward head ∈ head :: members := by
  obtain ⟨before, split, -⟩ := closed.exists_last
  rw [split]
  simp

/-- Every node of a ring has its neighbours in the ring. -/
theorem forward_mem (closed : Closed links head members) {node : α}
    (mem : node ∈ head :: members) : links.forward node ∈ head :: members := by
  obtain ⟨before, after, split⟩ := List.append_of_mem mem
  have linked : Linked links (before ++ node :: (after ++ [head])) := by
    simpa [Closed, split] using closed
  cases after with
  | nil =>
      obtain ⟨-, pair, -⟩ := List.isChain_append_cons_cons.mp linked
      rw [pair.1]
      exact List.mem_cons_self
  | cons next after =>
      obtain ⟨-, pair, -⟩ := List.isChain_append_cons_cons.mp linked
      rw [pair.1, split]
      simp

theorem backward_mem (closed : Closed links head members) {node : α}
    (mem : node ∈ head :: members) : links.backward node ∈ head :: members := by
  rcases List.mem_cons.mp mem with rfl | mem
  · exact closed.backward_head_mem
  · obtain ⟨front, rear, split⟩ := List.append_of_mem mem
    obtain ⟨before, prior, front_eq⟩ := exists_concat head front
    have linked : Linked links (before ++ prior :: node :: (rear ++ [head])) := by
      have regroup : before ++ prior :: node :: (rear ++ [head]) = head :: members ++ [head] := by
        rw [split, ← List.singleton_append, ← List.append_assoc, ← front_eq]
        simp
      rw [regroup]
      exact closed
    obtain ⟨-, pair, -⟩ := List.isChain_append_cons_cons.mp linked
    rw [pair.2, split, ← List.cons_append, front_eq]
    simp

end Closed

section Change

variable [DecidableEq α]

/-- The links after a node has been put before the head. -/
def attach (links : Links α) (head node : α) : Links α where
  forward := Function.update (Function.update links.forward node head) (links.backward head) node
  backward := Function.update (Function.update links.backward node (links.backward head)) head node

/-- The links after the neighbours of a node have been linked to each other. -/
def detach (links : Links α) (node : α) : Links α where
  forward := Function.update links.forward (links.backward node) (links.forward node)
  backward := Function.update links.backward (links.forward node) (links.backward node)

variable {links : Links α} {head node : α} {members : List α}

theorem Closed.attach (closed : Closed links head members) (nodup : (head :: members).Nodup)
    (fresh : node ∉ head :: members) : Closed (attach links head node) head (members ++ [node]) := by
  obtain ⟨before, split, back⟩ := closed.exists_last
  have last_ne : links.backward head ≠ node := by
    rintro rfl
    exact fresh closed.backward_head_mem
  have head_ne : node ≠ head := by
    rintro rfl
    exact fresh List.mem_cons_self
  have linked : Linked links (before ++ [links.backward head]) := by
    rw [← split]
    exact closed.left_of_append
  have whole : head :: (members ++ [node]) ++ [head] =
      before ++ links.backward head :: [node, head] := by
    rw [← List.cons_append, split]
    simp
  rw [Closed, whole]
  refine List.isChain_split.mpr ⟨linked.congr ?_ ?_, ?_⟩
  · intro other mem
    rw [List.dropLast_concat] at mem
    rw [split] at nodup fresh
    have other_ne : other ≠ links.backward head := by
      rintro rfl
      exact (List.disjoint_of_nodup_append nodup) mem (by simp)
    have node_ne : other ≠ node := by
      rintro rfl
      exact fresh (by simp [mem])
    simp [LinkedRing.attach, other_ne, node_ne]
  · intro other mem
    rw [← split, List.tail_cons] at mem
    have other_ne : other ≠ head := by
      rintro rfl
      exact (List.nodup_cons.mp nodup).1 mem
    have node_ne : other ≠ node := by
      rintro rfl
      exact fresh (by simp [mem])
    simp [LinkedRing.attach, other_ne, node_ne]
  · simp [LinkedRing.attach, head_ne, last_ne.symm]

theorem Closed.detach (closed : Closed links head members) (nodup : (head :: members).Nodup)
    (mem : node ∈ members) : Closed (detach links node) head (members.erase node) := by
  obtain ⟨front, rear, split⟩ := List.append_of_mem mem
  subst split
  have not_front : node ∉ front := by
    intro in_front
    have disjoint := List.disjoint_of_nodup_append (List.nodup_cons.mp nodup).2
    exact disjoint in_front List.mem_cons_self
  rw [List.erase_append_right _ not_front, List.erase_cons_head]
  -- the neighbours of the node, which may both be the head
  obtain ⟨before, prior, front_eq⟩ := exists_concat head front
  obtain ⟨next, after, rear_eq⟩ := List.exists_cons_of_ne_nil
    (List.append_ne_nil_of_right_ne_nil rear (List.cons_ne_nil head []))
  have around : head :: (front ++ node :: rear) ++ [head] =
      before ++ prior :: node :: next :: after := by
    have regroup : head :: (front ++ node :: rear) ++ [head] =
        (head :: front) ++ node :: (rear ++ [head]) := by simp
    rw [regroup, front_eq, rear_eq]
    simp
  have whole : head :: (front ++ rear) ++ [head] = before ++ prior :: next :: after := by
    have regroup : head :: (front ++ rear) ++ [head] = (head :: front) ++ (rear ++ [head]) := by simp
    rw [regroup, front_eq, rear_eq]
    simp
  have linked : Linked links (before ++ prior :: node :: next :: after) := by
    rw [← around]
    exact closed
  obtain ⟨early, enter, late⟩ := List.isChain_append_cons_cons.mp linked
  obtain ⟨leave, late⟩ := List.isChain_cons_cons.mp late
  obtain ⟨-, rfl⟩ := enter
  obtain ⟨rfl, -⟩ := leave
  -- the head stands at both ends, so either end may be left out
  have starts : (before ++ links.backward node :: node ::
      (links.forward node :: after).dropLast).Nodup := by
    have equal := congrArg List.dropLast around
    rw [List.dropLast_concat] at equal
    rw [equal] at nodup
    simpa [List.dropLast_append_of_ne_nil] using nodup
  have stops : ((before ++ [links.backward node]).tail ++ node :: links.forward node :: after).Nodup := by
    have equal := congrArg List.tail around
    have rotated : (front ++ node :: rear ++ [head]).Nodup := by
      rw [List.nodup_append_comm]
      simpa using nodup
    rw [List.cons_append, List.tail_cons] at equal
    rw [equal] at rotated
    rw [← List.tail_append_of_ne_nil (by simp)]
    simpa using rotated
  rw [Closed, whole]
  refine List.isChain_append_cons_cons.mpr ⟨Linked.congr early ?_ ?_, by simp [LinkedRing.detach],
    Linked.congr late ?_ ?_⟩
  · intro other other_mem
    rw [List.dropLast_concat] at other_mem
    have other_ne : other ≠ links.backward node := by
      rintro rfl
      exact (List.disjoint_of_nodup_append starts) other_mem List.mem_cons_self
    simp [LinkedRing.detach, other_ne]
  · intro other other_mem
    have other_ne : other ≠ links.forward node := by
      rintro rfl
      exact (List.disjoint_of_nodup_append stops) other_mem (by simp)
    simp [LinkedRing.detach, other_ne]
  · intro other other_mem
    have other_ne : other ≠ links.backward node := by
      rintro rfl
      have late := (List.nodup_append.mp starts).2.1
      exact (List.nodup_cons.mp late).1 (List.mem_cons_of_mem _ other_mem)
    simp [LinkedRing.detach, other_ne]
  · intro other other_mem
    have other_ne : other ≠ links.forward node := by
      rintro rfl
      have late := (List.nodup_append.mp stops).2.1
      exact (List.nodup_cons.mp (List.nodup_cons.mp late).2).1 other_mem
    simp [LinkedRing.detach, other_ne]

end Change

/-- Disjoint rings, one for each head, that share one memory of links. -/
structure Rings (heads : Set α) (links : Links α) (contents : α → List α) : Prop where
  nodup : ∀ head ∈ heads, (contents head).Nodup
  members : ∀ head ∈ heads, ∀ node ∈ contents head, node ∉ heads
  disjoint : ∀ first ∈ heads, ∀ second ∈ heads, first ≠ second →
    (contents first).Disjoint (contents second)
  closed : ∀ head ∈ heads, Closed links head (contents head)

/-- The node is a head or a member of a ring. -/
def InRings (heads : Set α) (contents : α → List α) (node : α) : Prop :=
  ∃ head ∈ heads, node ∈ head :: contents head

namespace Rings

variable {heads : Set α} {links other : Links α} {contents : α → List α} {head node : α}

theorem nodup_cons (rings : Rings heads links contents) (is_head : head ∈ heads) :
    (head :: contents head).Nodup :=
  List.nodup_cons.mpr ⟨fun mem => rings.members head is_head head mem is_head,
    rings.nodup head is_head⟩

/-- No node lies in two rings. -/
theorem unique (rings : Rings heads links contents) {first second : α} (is_first : first ∈ heads)
    (is_second : second ∈ heads) (in_first : node ∈ first :: contents first)
    (in_second : node ∈ second :: contents second) : first = second := by
  by_contra different
  rcases List.mem_cons.mp in_first with rfl | in_first
  · rcases List.mem_cons.mp in_second with rfl | in_second
    · exact different rfl
    · exact rings.members second is_second _ in_second is_first
  · rcases List.mem_cons.mp in_second with rfl | in_second
    · exact rings.members first is_first _ in_first is_second
    · exact rings.disjoint first is_first second is_second different in_first in_second

/-- Links that agree on the rings form the same rings. -/
theorem congr (rings : Rings heads links contents)
    (forward : ∀ node, InRings heads contents node → other.forward node = links.forward node)
    (backward : ∀ node, InRings heads contents node → other.backward node = links.backward node) :
    Rings heads other contents where
  nodup := rings.nodup
  members := rings.members
  disjoint := rings.disjoint
  closed := fun head is_head => (rings.closed head is_head).congr
    (fun node mem => forward node ⟨head, is_head, mem⟩)
    (fun node mem => backward node ⟨head, is_head, mem⟩)

theorem forward_inRings (rings : Rings heads links contents)
    (inside : InRings heads contents node) : InRings heads contents (links.forward node) := by
  obtain ⟨head, is_head, mem⟩ := inside
  exact ⟨head, is_head, (rings.closed head is_head).forward_mem mem⟩

theorem backward_inRings (rings : Rings heads links contents)
    (inside : InRings heads contents node) : InRings heads contents (links.backward node) := by
  obtain ⟨head, is_head, mem⟩ := inside
  exact ⟨head, is_head, (rings.closed head is_head).backward_mem mem⟩

/-- Rings with the same members have the same links. -/
theorem links_eq (rings : Rings heads links contents) (same : Rings heads other contents)
    (inside : InRings heads contents node) :
    other.forward node = links.forward node ∧ other.backward node = links.backward node := by
  obtain ⟨head, is_head, mem⟩ := inside
  have linked := rings.closed head is_head
  have other_linked := same.closed head is_head
  refine ⟨?_, ?_⟩
  · obtain ⟨front, rear, split⟩ := List.append_of_mem mem
    obtain ⟨next, after, rear_eq⟩ := List.exists_cons_of_ne_nil
      (List.append_ne_nil_of_right_ne_nil rear (List.cons_ne_nil head []))
    have whole : head :: contents head ++ [head] = front ++ node :: next :: after := by
      rw [split, List.append_assoc, List.cons_append, rear_eq]
    rw [Closed, whole] at linked other_linked
    obtain ⟨-, pair, -⟩ := List.isChain_append_cons_cons.mp linked
    obtain ⟨-, other_pair, -⟩ := List.isChain_append_cons_cons.mp other_linked
    rw [pair.1, other_pair.1]
  · obtain ⟨prior, before, after, whole⟩ : ∃ prior before after,
        head :: contents head ++ [head] = before ++ prior :: node :: after := by
      rcases List.mem_cons.mp mem with rfl | mem
      · obtain ⟨before, prior, members_eq⟩ := exists_concat node (contents node)
        exact ⟨prior, before, [], by simp [members_eq]⟩
      · obtain ⟨front, rear, split⟩ := List.append_of_mem mem
        obtain ⟨before, prior, front_eq⟩ := exists_concat head front
        refine ⟨prior, before, rear ++ [head], ?_⟩
        rw [split, ← List.cons_append, front_eq]
        simp
    rw [Closed, whole] at linked other_linked
    obtain ⟨-, pair, -⟩ := List.isChain_append_cons_cons.mp linked
    obtain ⟨-, other_pair, -⟩ := List.isChain_append_cons_cons.mp other_linked
    rw [pair.2, other_pair.2]

/-- The nodes of the rings are the ones that the forward links lead to from the heads. -/
theorem inRings_iff (rings : Rings heads links contents) :
    InRings heads contents node ↔ ∃ head ∈ heads, ∃ count, links.forward^[count] head = node := by
  constructor
  · rintro ⟨head, is_head, mem⟩
    have linked : Linked links (head :: contents head) :=
      (rings.closed head is_head).left_of_append
    exact ⟨head, is_head, linked.reaches mem⟩
  · rintro ⟨head, is_head, count, rfl⟩
    induction count with
    | zero => exact ⟨head, is_head, List.mem_cons_self⟩
    | succ count inductive_hypothesis =>
        rw [Function.iterate_succ_apply']
        exact rings.forward_inRings inductive_hypothesis

section Change

variable [DecidableEq α]

theorem attach (rings : Rings heads links contents) (is_head : head ∈ heads)
    (fresh : ¬ InRings heads contents node) :
    Rings heads (attach links head node)
      (Function.update contents head (contents head ++ [node])) := by
  have node_out : ∀ other ∈ heads, node ∉ other :: contents other :=
    fun other is_head mem => fresh ⟨other, is_head, mem⟩
  have not_head : node ∉ heads := fun is_head => node_out node is_head List.mem_cons_self
  refine ⟨?_, ?_, ?_, ?_⟩
  · intro other other_head
    by_cases same : other = head
    · subst same
      have not_mem : node ∉ contents other :=
        fun mem => node_out other is_head (List.mem_cons_of_mem _ mem)
      simp [List.nodup_append, rings.nodup other is_head]
      grind
    · simpa [same] using rings.nodup other other_head
  · intro other other_head member mem
    by_cases same : other = head
    · subst same
      simp only [Function.update_self, List.mem_append, List.mem_singleton] at mem
      rcases mem with mem | rfl
      · exact rings.members other is_head member mem
      · exact not_head
    · rw [Function.update_of_ne same] at mem
      exact rings.members other other_head member mem
  · have apart : ∀ other ∈ heads, other ≠ head →
        (contents head ++ [node]).Disjoint (contents other) := by
      intro other other_head different
      rw [List.disjoint_append_left]
      refine ⟨rings.disjoint head is_head other other_head (Ne.symm different), ?_⟩
      rw [List.singleton_disjoint]
      exact fun mem => node_out other other_head (List.mem_cons_of_mem _ mem)
    intro first first_head second second_head different
    by_cases same_first : first = head
    · subst same_first
      rw [Function.update_self, Function.update_of_ne (Ne.symm different)]
      exact apart second second_head (Ne.symm different)
    · rw [Function.update_of_ne same_first]
      by_cases same_second : second = head
      · subst same_second
        rw [Function.update_self]
        exact fun member in_first in_second => apart first first_head same_first in_second in_first
      · rw [Function.update_of_ne same_second]
        exact rings.disjoint first first_head second second_head different
  · intro other other_head
    by_cases same : other = head
    · subst same
      rw [Function.update_self]
      exact (rings.closed other is_head).attach (rings.nodup_cons is_head) (node_out other is_head)
    · rw [Function.update_of_ne same]
      have apart : ∀ member ∈ other :: contents other, member ∉ head :: contents head :=
        fun member first second => same (rings.unique other_head is_head first second)
      have last := (rings.closed head is_head).backward_head_mem
      refine (rings.closed other other_head).congr (fun member mem => ?_) (fun member mem => ?_)
      · have last_ne : member ≠ links.backward head := by
          rintro rfl
          exact apart _ mem last
        have node_ne : member ≠ node := by
          rintro rfl
          exact node_out other other_head mem
        simp [LinkedRing.attach, last_ne, node_ne]
      · have head_ne : member ≠ head := by
          rintro rfl
          exact apart _ mem List.mem_cons_self
        have node_ne : member ≠ node := by
          rintro rfl
          exact node_out other other_head mem
        simp [LinkedRing.attach, head_ne, node_ne]

theorem detach (rings : Rings heads links contents) (is_head : head ∈ heads)
    (mem : node ∈ contents head) :
    Rings heads (detach links node) (fun other => (contents other).erase node) := by
  have closed := rings.closed head is_head
  have node_mem : node ∈ head :: contents head := List.mem_cons_of_mem _ mem
  refine ⟨fun other other_head => (rings.nodup other other_head).erase node, ?_, ?_, ?_⟩
  · intro other other_head member member_mem
    exact rings.members other other_head member (List.mem_of_mem_erase member_mem)
  · intro first first_head second second_head different member in_first in_second
    exact rings.disjoint first first_head second second_head different
      (List.mem_of_mem_erase in_first) (List.mem_of_mem_erase in_second)
  · intro other other_head
    by_cases same : other = head
    · subst same
      exact closed.detach (rings.nodup_cons is_head) mem
    · have apart : ∀ member ∈ other :: contents other, member ∉ head :: contents head :=
        fun member first second => same (rings.unique other_head is_head first second)
      have not_mem : node ∉ contents other :=
        fun mem => apart node (List.mem_cons_of_mem _ mem) node_mem
      rw [List.erase_of_not_mem not_mem]
      refine (rings.closed other other_head).congr (fun member mem => ?_) (fun member mem => ?_)
      · have member_ne : member ≠ links.backward node := by
          rintro rfl
          exact apart _ mem (closed.backward_mem node_mem)
        simp [LinkedRing.detach, member_ne]
      · have member_ne : member ≠ links.forward node := by
          rintro rfl
          exact apart _ mem (closed.forward_mem node_mem)
        simp [LinkedRing.detach, member_ne]

end Change

end Rings

end LinkedRing
end Firebird
