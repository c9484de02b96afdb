import Mathlib.Data.List.Basic

/-!
# Lower bounds

Binary search for the first element behind a front whose elements all come before what is sought.
-/

namespace Firebird
namespace LowerBound

variable {α : Type*}

/-- The first position between two bounds whose element does not come `before`. -/
def search (before : α → Bool) (items : List α) (low high : Nat) : Nat :=
  if low < high then
    let middle := (high + low) / 2
    if (items[middle]?).any before then search before items (middle + 1) high
    else search before items low middle
  else low
termination_by high - low

theorem search_le (before : α → Bool) (items : List α) {low high : Nat} (le : low ≤ high) :
    search before items low high ≤ high := by
  induction low, high using search.induct before items with
  | case1 low high less middle found ih =>
      rw [search, if_pos less]
      dsimp only
      rw [if_pos found]
      exact ih (by omega)
  | case2 low high less middle missed ih =>
      rw [search, if_pos less]
      dsimp only
      rw [if_neg missed]
      exact Nat.le_trans (ih (by omega)) (by omega)
  | case3 low high done =>
      rw [search, if_neg done]
      exact le

theorem any_before_iff {before : α → Bool} {front back : List α}
    (front_before : ∀ item ∈ front, before item = true)
    (back_after : ∀ item ∈ back, before item = false) (position : Nat) :
    ((front ++ back)[position]?).any before = true ↔ position < front.length := by
  rcases Nat.lt_or_ge position front.length with inside | behind
  · rw [List.getElem?_append_left inside, List.getElem?_eq_getElem inside]
    exact ⟨fun _ => inside, fun _ => front_before _ (List.getElem_mem inside)⟩
  · rw [List.getElem?_append_right behind]
    refine ⟨fun found => ?_, fun inside => absurd inside (Nat.not_lt.mpr behind)⟩
    cases at_position : back[position - front.length]? with
    | none =>
        rw [at_position] at found
        exact absurd found Bool.false_ne_true
    | some item =>
        rw [at_position] at found
        have after := back_after item (List.mem_of_getElem? at_position)
        exact absurd (found.symm.trans after) Bool.noConfusion

theorem search_eq {before : α → Bool} {front back : List α}
    (front_before : ∀ item ∈ front, before item = true)
    (back_after : ∀ item ∈ back, before item = false) {low high : Nat}
    (low_le : low ≤ front.length) (le_high : front.length ≤ high) :
    search before (front ++ back) low high = front.length := by
  have before_iff := any_before_iff front_before back_after
  induction low, high using search.induct before (front ++ back) with
  | case1 low high less middle found ih =>
      rw [search, if_pos less]
      dsimp only
      rw [if_pos found]
      exact ih ((before_iff middle).mp found) le_high
  | case2 low high less middle missed ih =>
      rw [search, if_pos less]
      dsimp only
      rw [if_neg missed]
      exact ih low_le (Nat.not_lt.mp fun inside => missed ((before_iff middle).mpr inside))
  | case3 low high done =>
      rw [search, if_neg done]
      omega

end LowerBound
end Firebird
