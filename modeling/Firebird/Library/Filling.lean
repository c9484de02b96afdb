import Mathlib

/-!
# Filling a limited room

Items with a width each are put into a room one after the other, until no room is left.
-/

namespace Filling

variable {α : Type*}

/-- The room that items take. -/
def total (width : α → Nat) (items : List α) : Nat := (items.map width).sum

/-- Every item that is come to while there is room left is good, given the room that is left. -/
def ForReached (width : α → Nat) (good : α → Nat → Prop) (room : Nat) (items : List α) : Prop :=
  ∀ front item back, items = front ++ item :: back → total width front < room →
    good item (room - total width front)

variable {width : α → Nat} {good : α → Nat → Prop} {room : Nat}

theorem total_cons (item : α) (items : List α) :
    total width (item :: items) = width item + total width items := by
  rw [total, List.map_cons, List.sum_cons, total]

theorem forReached_nil : ForReached width good room [] := by
  intro front item back parts
  exact absurd parts.symm (List.append_ne_nil_of_right_ne_nil _ (List.cons_ne_nil _ _))

theorem forReached_of_full (items : List α) : ForReached width good 0 items :=
  fun _ _ _ _ small => absurd small (Nat.not_lt_zero _)

theorem forReached_cons {item : α} {items : List α} (some_room : 0 < room) :
    ForReached width good room (item :: items) ↔
      good item room ∧ ForReached width good (room - width item) items := by
  constructor
  · intro reached
    refine ⟨reached [] item items rfl some_room, fun front other back parts small => ?_⟩
    have behind := reached (item :: front) other back (by rw [parts]; rfl)
      (by rw [total_cons]; omega)
    rwa [total_cons, ← Nat.sub_sub] at behind
  · rintro ⟨first, others⟩ front other back parts small
    cases front with
    | nil =>
        obtain ⟨rfl, -⟩ := List.cons.inj parts
        exact first
    | cons head front =>
        obtain ⟨rfl, behind⟩ := List.cons.inj parts
        rw [total_cons] at small ⊢
        rw [← Nat.sub_sub]
        exact others front other back behind (by omega)

end Filling
