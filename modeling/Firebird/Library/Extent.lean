import Mathlib

/-!
# Disjoint areas of a region

Areas of a region that do not overlap are together no larger than the region.
-/

namespace Firebird

/-- The addresses from `start` for `size`. -/
structure Extent where
  start : Nat
  size : Nat
  deriving DecidableEq, Repr

namespace Extent

/-- One area ends before the other starts. -/
def Apart (first second : Extent) : Prop :=
  first.start + first.size ≤ second.start ∨ second.start + second.size ≤ first.start

theorem Apart.symm {first second : Extent} (apart : first.Apart second) : second.Apart first :=
  Or.symm apart

/-- The area lies between two addresses. -/
def Within (low high : Nat) (area : Extent) : Prop :=
  low ≤ area.start ∧ area.start + area.size ≤ high

/-- The addresses of an area. -/
def cells (area : Extent) : Finset Nat := Finset.Ico area.start (area.start + area.size)

theorem Apart.disjoint_cells {first second : Extent} (apart : first.Apart second) :
    Disjoint first.cells second.cells := by
  rw [Finset.disjoint_left]
  intro address in_first in_second
  simp only [cells, Finset.mem_Ico] at in_first in_second
  rcases apart with before | after <;> omega

/-- Areas of a region that are apart occupy no more than the region. -/
theorem sum_size_le {low high : Nat} {areas : List Extent}
    (within : ∀ area ∈ areas, area.Within low high) (apart : areas.Pairwise Apart) :
    (areas.map size).sum ≤ high - low := by
  obtain ⟨occupied, inside, -, card⟩ : ∃ occupied : Finset Nat,
      occupied ⊆ Finset.Ico low high ∧
        (∀ other : Extent, (∀ area ∈ areas, other.Apart area) → Disjoint other.cells occupied) ∧
        occupied.card = (areas.map size).sum := by
    induction areas with
    | nil => exact ⟨∅, by simp, by simp, by simp⟩
    | cons area areas inductive_hypothesis =>
        obtain ⟨apart_head, apart_tail⟩ := List.pairwise_cons.mp apart
        obtain ⟨occupied, inside, avoids, card⟩ := inductive_hypothesis
          (fun other mem => within other (List.mem_cons_of_mem _ mem)) apart_tail
        have head := within area List.mem_cons_self
        refine ⟨area.cells ∪ occupied, ?_, ?_, ?_⟩
        · refine Finset.union_subset (fun address mem => ?_) inside
          simp only [cells, Finset.mem_Ico] at mem ⊢
          exact ⟨le_trans head.1 mem.1, lt_of_lt_of_le mem.2 head.2⟩
        · intro other apart_all
          rw [Finset.disjoint_union_right]
          exact ⟨(apart_all area List.mem_cons_self).disjoint_cells,
            avoids other fun next mem => apart_all next (List.mem_cons_of_mem _ mem)⟩
        · rw [Finset.card_union_of_disjoint (avoids area apart_head), card]
          simp [cells]
  rw [← card]
  calc occupied.card ≤ (Finset.Ico low high).card := Finset.card_le_card inside
    _ = high - low := Nat.card_Ico low high

end Extent
end Firebird
