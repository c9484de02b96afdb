import Mathlib

/-!
# Lexicographic order and prefixes

In the lexicographic order of lists a proper prefix comes first.  Reversing the order of the
elements therefore reverses the order of two lists unless one is a prefix of the other.
-/

namespace Lexicographic

variable {α β : Type*} [LinearOrder α] [LinearOrder β]

theorem not_lt_of_begins {left right : List α} (start : left <+: right) : ¬ right < left := by
  induction left generalizing right with
  | nil => exact List.not_lt_nil _
  | cons head left ih =>
      obtain ⟨rest, rfl⟩ := start
      rw [List.cons_append, List.cons_lt_cons_iff]
      rintro (less | ⟨-, less⟩)
      · exact lt_irrefl _ less
      · exact ih (List.prefix_append _ _) less

theorem lt_of_prefix_ne {left right : List α} (start : left <+: right) (differ : left ≠ right) :
    left < right := by
  induction left generalizing right with
  | nil =>
      cases right with
      | nil => exact absurd rfl differ
      | cons head right => exact List.nil_lt_cons _ _
  | cons head left ih =>
      obtain ⟨rest, rfl⟩ := start
      refine List.cons_lt_cons_iff.mpr (.inr ⟨rfl, ih (List.prefix_append _ _) ?_⟩)
      rintro same
      exact differ (congrArg (head :: ·) same)

/-- An order-reversing map reverses the order of two lists, except that a proper prefix stays the
smaller one. -/
theorem map_lt_map_iff {reverse : α → β} (anti : StrictAnti reverse) (left right : List α) :
    left.map reverse < right.map reverse ↔
      left <+: right ∧ left ≠ right ∨ right < left ∧ ¬ right <+: left := by
  induction left generalizing right with
  | nil =>
      cases right with
      | nil => simp
      | cons head right => simp
  | cons first left ih =>
      cases right with
      | nil => simp
      | cons second right =>
          simp only [List.map_cons, List.cons_lt_cons_iff, List.cons_prefix_cons, ih right,
            anti.lt_iff_gt, anti.injective.eq_iff]
          rcases lt_trichotomy first second with less | same | more
          · simp [less.ne, less.ne', less.not_gt]
          · subst same
            simp
          · simp [more, more.ne, more.ne']

end Lexicographic
