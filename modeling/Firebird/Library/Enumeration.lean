import Mathlib.Data.List.Range
import Mathlib.Data.List.Sort

/-!
# Enumerations in increasing order

The numbers below a bound that a predicate holds of, from a number on.  A routine that always finds the
next one goes through this list.
-/

namespace Firebird
namespace Enumeration

variable {holds : Nat → Bool} {bound start number : Nat}

/-- The numbers from `start` on and below `bound` of which the predicate holds. -/
def listFrom (holds : Nat → Bool) (bound start : Nat) : List Nat :=
  (List.range' start (bound - start)).filter holds

theorem mem_listFrom :
    number ∈ listFrom holds bound start ↔ start ≤ number ∧ number < bound ∧ holds number := by
  rw [listFrom, List.mem_filter, List.mem_range'_1]
  constructor
  · rintro ⟨⟨after, before⟩, here⟩
    exact ⟨after, by omega, here⟩
  · rintro ⟨after, inside, here⟩
    exact ⟨⟨after, by omega⟩, here⟩

/-- Each number is there once, after the smaller ones. -/
theorem pairwise_listFrom : (listFrom holds bound start).Pairwise (· < ·) :=
  List.Pairwise.filter _ List.pairwise_lt_range'

theorem listFrom_eq_nil (none : ∀ other, start ≤ other → other < bound → holds other = false) :
    listFrom holds bound start = [] := by
  rw [listFrom, List.filter_eq_nil_iff]
  intro other member
  rw [List.mem_range'_1] at member
  rw [none other member.1 (by omega)]
  exact Bool.false_ne_true

/-- The next number is the head. -/
theorem listFrom_eq_cons (after : start ≤ number) (inside : number < bound) (here : holds number)
    (first : ∀ other, start ≤ other → other < number → holds other = false) :
    listFrom holds bound start = number :: listFrom holds bound (number + 1) := by
  have split : List.range' start (bound - start) =
      List.range' start (number - start) ++ number :: List.range' (number + 1) (bound - (number + 1)) := by
    have length_eq : bound - start = (number - start) + (bound - (number + 1) + 1) := by omega
    rw [length_eq, ← List.range'_append_1, Nat.add_sub_cancel' after, List.range'_succ]
  have skipped : (List.range' start (number - start)).filter holds = [] := by
    rw [List.filter_eq_nil_iff]
    intro other member
    rw [List.mem_range'_1] at member
    rw [first other member.1 (by omega)]
    exact Bool.false_ne_true
  rw [listFrom, split, List.filter_append, skipped, List.filter_cons_of_pos here, List.nil_append]
  rfl

/-- The head is the next number. -/
theorem first_of_listFrom_cons {rest : List Nat} (list_eq : listFrom holds bound start = number :: rest) :
    start ≤ number ∧ number < bound ∧ holds number ∧
      ∀ other, start ≤ other → other < number → holds other = false := by
  have member : number ∈ listFrom holds bound start := list_eq ▸ List.mem_cons_self
  obtain ⟨after, inside, here⟩ := mem_listFrom.mp member
  refine ⟨after, inside, here, fun other from_start before => ?_⟩
  by_contra there
  have other_member : other ∈ listFrom holds bound start :=
    mem_listFrom.mpr ⟨from_start, before.trans inside, Bool.eq_true_of_not_eq_false there⟩
  have sorted := @pairwise_listFrom holds bound start
  rw [list_eq] at other_member sorted
  rcases List.mem_cons.mp other_member with rfl | later
  · exact Nat.lt_irrefl _ before
  · exact Nat.lt_asymm before ((List.pairwise_cons.mp sorted).1 other later)

end Enumeration
end Firebird
