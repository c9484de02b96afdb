import Mathlib

/-!
# Sorted arrays

Sequences whose elements are in strictly increasing order of a key: the position where a key
belongs, the element with a key, and putting an element in its place.
-/

namespace SortedArray

variable {α κ : Type*} [LinearOrder κ] (key : α → κ)

/-- The keys of the elements increase strictly. -/
def Sorted (items : List α) : Prop :=
  items.Pairwise fun left right => key left < key right

/-- The elements from the position where `sought` belongs. -/
def seek (sought : κ) (items : List α) : List α :=
  items.dropWhile fun item => decide (key item < sought)

/-- The element with a key. -/
def find (sought : κ) (items : List α) : Option α :=
  match seek key sought items with
  | [] => none
  | item :: _ => if key item = sought then some item else none

/-- Put an element in its place, in place of one with the same key. -/
def place (item : α) : List α → List α
  | [] => [item]
  | head :: tail =>
      if key head < key item then
        head :: place item tail
      else if key head = key item then
        item :: tail
      else
        item :: head :: tail

variable {key}

theorem Sorted.suffix {items later : List α} (sorted : Sorted key items)
    (behind : later <:+ items) : Sorted key later :=
  List.Pairwise.sublist behind.sublist sorted

theorem Sorted.eq_of_key {items : List α} (sorted : Sorted key items) {left right : α}
    (left_mem : left ∈ items) (right_mem : right ∈ items) (same : key left = key right) :
    left = right := by
  by_contra differ
  induction items with
  | nil => cases left_mem
  | cons head tail ih =>
      rw [Sorted, List.pairwise_cons] at sorted
      rcases List.mem_cons.mp left_mem with rfl | left_tail
      · rcases List.mem_cons.mp right_mem with rfl | right_tail
        · exact differ rfl
        · exact (sorted.1 right right_tail).ne same
      · rcases List.mem_cons.mp right_mem with rfl | right_tail
        · exact (sorted.1 left left_tail).ne same.symm
        · exact ih sorted.2 left_tail right_tail

theorem seek_suffix (sought : κ) (items : List α) : seek key sought items <:+ items :=
  List.dropWhile_suffix _

theorem mem_seek {items : List α} (sorted : Sorted key items) {sought : κ} {item : α} :
    item ∈ seek key sought items ↔ item ∈ items ∧ sought ≤ key item := by
  induction items with
  | nil => simp [seek]
  | cons head tail ih =>
      rw [Sorted, List.pairwise_cons] at sorted
      by_cases before : key head < sought
      · rw [show seek key sought (head :: tail) = seek key sought tail by
          simp [seek, before], ih sorted.2, List.mem_cons]
        constructor
        · rintro ⟨mem, reached⟩
          exact ⟨.inr mem, reached⟩
        · rintro ⟨rfl | mem, reached⟩
          · exact absurd before (not_lt.mpr reached)
          · exact ⟨mem, reached⟩
      · rw [show seek key sought (head :: tail) = head :: tail by simp [seek, before]]
        refine ⟨fun mem => ⟨mem, ?_⟩, And.left⟩
        rcases List.mem_cons.mp mem with rfl | mem
        · exact not_lt.mp before
        · exact (not_lt.mp before).trans (sorted.1 item mem).le

theorem find_eq_some_iff {items : List α} (sorted : Sorted key items) {sought : κ} {item : α} :
    find key sought items = some item ↔ item ∈ items ∧ key item = sought := by
  have reached : ∀ other, other ∈ seek key sought items ↔ other ∈ items ∧ sought ≤ key other :=
    fun _ => mem_seek sorted
  have later : Sorted key (seek key sought items) := sorted.suffix (seek_suffix sought items)
  rw [find]
  cases at_key : seek key sought items with
  | nil =>
      refine ⟨fun found => absurd found.symm (Option.some_ne_none _), fun ⟨mem, same⟩ => ?_⟩
      have := (reached item).mpr ⟨mem, same.ge⟩
      rw [at_key] at this
      cases this
  | cons head tail =>
      rw [at_key] at later
      have head_mem : head ∈ items ∧ sought ≤ key head := by
        rw [← reached, at_key]
        exact List.mem_cons_self
      constructor
      · intro found
        simp only at found
        split at found
        · rename_i same
          cases found
          exact ⟨head_mem.1, same⟩
        · cases found
      · rintro ⟨mem, same⟩
        have at_or_after : item ∈ head :: tail := by
          rw [← at_key, reached]
          exact ⟨mem, same.ge⟩
        rcases List.mem_cons.mp at_or_after with rfl | after
        · exact if_pos same
        · have := (List.pairwise_cons.mp later).1 item after
          rw [same] at this
          exact absurd this (not_lt.mpr head_mem.2)

theorem seek_of_find {items : List α} {sought : κ} {item : α}
    (found : find key sought items = some item) :
    ∃ tail, seek key sought items = item :: tail := by
  rw [find] at found
  cases at_key : seek key sought items with
  | nil =>
      rw [at_key] at found
      cases found
  | cons head tail =>
      rw [at_key] at found
      simp only at found
      split at found
      · cases found
        exact ⟨tail, rfl⟩
      · cases found

theorem mem_place {items : List α} (sorted : Sorted key items) {item other : α} :
    other ∈ place key item items ↔ other = item ∨ other ∈ items ∧ key other ≠ key item := by
  induction items with
  | nil => simp [place]
  | cons head tail ih =>
      rw [Sorted, List.pairwise_cons] at sorted
      rw [place]
      split
      · rename_i before
        rw [List.mem_cons, ih sorted.2, List.mem_cons]
        constructor
        · rintro (rfl | rfl | ⟨mem, differ⟩)
          · exact .inr ⟨.inl rfl, before.ne⟩
          · exact .inl rfl
          · exact .inr ⟨.inr mem, differ⟩
        · rintro (rfl | ⟨rfl | mem, differ⟩)
          · exact .inr (.inl rfl)
          · exact .inl rfl
          · exact .inr (.inr ⟨mem, differ⟩)
      · rename_i not_before
        split
        · rename_i same
          rw [List.mem_cons, List.mem_cons]
          constructor
          · rintro (rfl | mem)
            · exact .inl rfl
            · refine .inr ⟨.inr mem, fun equal => ?_⟩
              exact (sorted.1 other mem).ne (same.trans equal.symm)
          · rintro (rfl | ⟨rfl | mem, differ⟩)
            · exact .inl rfl
            · exact absurd same differ
            · exact .inr mem
        · rename_i differ
          rw [List.mem_cons]
          refine or_congr_right ⟨fun mem => ⟨mem, fun equal => ?_⟩, And.left⟩
          rcases List.mem_cons.mp mem with rfl | mem
          · exact differ equal
          · exact not_before ((sorted.1 other mem).trans_eq equal)

theorem Sorted.place {items : List α} (sorted : Sorted key items) (item : α) :
    Sorted key (place key item items) := by
  induction items with
  | nil => exact List.pairwise_singleton _ _
  | cons head tail ih =>
      have ordered := sorted
      rw [Sorted, List.pairwise_cons] at ordered
      rw [SortedArray.place]
      split
      · rename_i before
        refine List.pairwise_cons.mpr ⟨fun other mem => ?_, ih ordered.2⟩
        rcases (mem_place ordered.2).mp mem with rfl | ⟨mem, -⟩
        · exact before
        · exact ordered.1 other mem
      · rename_i not_before
        split
        · rename_i same
          refine List.pairwise_cons.mpr ⟨fun other mem => ?_, ordered.2⟩
          rw [← same]
          exact ordered.1 other mem
        · rename_i differ
          have after : key item < key head := lt_of_le_of_ne (not_lt.mp not_before) (Ne.symm differ)
          refine List.pairwise_cons.mpr ⟨fun other mem => ?_, sorted⟩
          rcases List.mem_cons.mp mem with rfl | mem
          · exact after
          · exact after.trans (ordered.1 other mem)

theorem find_place {items : List α} (sorted : Sorted key items) (item : α) (sought : κ) :
    find key sought (place key item items) =
      if sought = key item then some item else find key sought items := by
  have placed := sorted.place item
  split
  · rename_i same
    subst same
    exact (find_eq_some_iff placed).mpr ⟨(mem_place sorted).mpr (.inl rfl), rfl⟩
  · rename_i differ
    refine Option.ext fun other => ?_
    rw [find_eq_some_iff placed, find_eq_some_iff sorted, mem_place sorted]
    constructor
    · rintro ⟨rfl | ⟨mem, -⟩, same⟩
      · exact absurd same.symm differ
      · exact ⟨mem, same⟩
    · rintro ⟨mem, same⟩
      exact ⟨.inr ⟨mem, fun equal => differ (same.symm.trans equal)⟩, same⟩

theorem Sorted.le_getLast {items : List α} (sorted : Sorted key items) {last : α}
    (is_last : last ∈ items.getLast?) {item : α} (mem : item ∈ items) : key item ≤ key last := by
  obtain ⟨front, rfl⟩ := List.getLast?_eq_some_iff.mp is_last
  rw [Sorted, List.pairwise_append] at sorted
  rcases List.mem_append.mp mem with before | at_end
  · exact (sorted.2.2 item before last (List.mem_singleton_self last)).le
  · rw [List.mem_singleton.mp at_end]

/-- An element with the largest key of all goes to the end. -/
theorem place_of_lt {items : List α} {item : α} (largest : ∀ other ∈ items, key other < key item) :
    place key item items = items ++ [item] := by
  induction items with
  | nil => rfl
  | cons head tail ih =>
      rw [place, if_pos (largest head List.mem_cons_self),
        ih fun other mem => largest other (List.mem_cons_of_mem _ mem), List.cons_append]

/-- What is found in the rest of a sequence is found in the whole of it. -/
theorem find_of_suffix {items later : List α} (sorted : Sorted key items)
    (behind : later <:+ items) {sought : κ} {item : α}
    (found : find key sought later = some item) : find key sought items = some item := by
  obtain ⟨mem, same⟩ := (find_eq_some_iff (sorted.suffix behind)).mp found
  exact (find_eq_some_iff sorted).mpr ⟨behind.mem mem, same⟩

end SortedArray
