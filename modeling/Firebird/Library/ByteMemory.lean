import Mathlib.Data.List.Basic
import Mathlib.Data.List.Range

/-!
# Memories of cells

A memory is a function from addresses to cells.  Lists of cells are stored into it and loaded from
it, and ranges are copied from one memory to another.
-/

namespace Firebird
namespace ByteMemory

variable {α : Type*}

/-- The cells of a range. -/
def load (memory : Nat → α) (offset length : Nat) : List α :=
  (List.range length).map fun cell => memory (offset + cell)

/-- Put a list of cells at an offset. -/
def store (memory : Nat → α) (offset : Nat) (cells : List α) : Nat → α := fun address =>
  if offset ≤ address then (cells[address - offset]?).getD (memory address) else memory address

/-- Copy a range of one memory to a range of another. -/
def copy (source : Nat → α) (from_offset : Nat) (target : Nat → α) (to_offset length : Nat) :
    Nat → α := fun address =>
  if to_offset ≤ address ∧ address < to_offset + length then source (from_offset + (address - to_offset))
  else target address

theorem length_load (memory : Nat → α) (offset length : Nat) :
    (load memory offset length).length = length := by
  rw [load, List.length_map, List.length_range]

theorem load_congr {memory other : Nat → α} {offset place length : Nat}
    (same : ∀ cell < length, memory (offset + cell) = other (place + cell)) :
    load memory offset length = load other place length :=
  List.map_congr_left fun cell member => same cell (List.mem_range.mp member)

theorem load_add (memory : Nat → α) (offset first second : Nat) :
    load memory offset (first + second) =
      load memory offset first ++ load memory (offset + first) second := by
  rw [load, List.range_add, List.map_append, List.map_map]
  congr 1
  exact List.map_congr_left fun cell _ => congrArg memory (Nat.add_assoc _ _ _).symm

theorem load_succ (memory : Nat → α) (offset length : Nat) :
    load memory offset (length + 1) = memory offset :: load memory (offset + 1) length := by
  rw [Nat.add_comm, load_add]
  rfl

theorem take_load (memory : Nat → α) (offset : Nat) {count length : Nat} (count_le : count ≤ length) :
    (load memory offset length).take count = load memory offset count := by
  obtain ⟨rest, rfl⟩ := Nat.exists_eq_add_of_le count_le
  rw [load_add]
  exact List.take_left' (length_load _ _ _)

theorem drop_load (memory : Nat → α) (offset : Nat) {count length : Nat} (count_le : count ≤ length) :
    (load memory offset length).drop count = load memory (offset + count) (length - count) := by
  obtain ⟨rest, rfl⟩ := Nat.exists_eq_add_of_le count_le
  rw [load_add, Nat.add_sub_cancel_left]
  exact List.drop_left' (length_load _ _ _)

/-- A memory holds one list of cells behind another. -/
theorem load_append_iff {memory : Nat → α} {offset : Nat} {first second : List α} :
    load memory offset (first ++ second).length = first ++ second ↔
      load memory offset first.length = first ∧
        load memory (offset + first.length) second.length = second := by
  rw [List.length_append, load_add]
  refine ⟨fun same => List.append_inj same (length_load _ _ _), ?_⟩
  rintro ⟨first_eq, second_eq⟩
  rw [first_eq, second_eq]

theorem load_cons_iff {memory : Nat → α} {offset : Nat} {cell : α} {cells : List α} :
    load memory offset (cell :: cells).length = cell :: cells ↔
      memory offset = cell ∧ load memory (offset + 1) cells.length = cells := by
  rw [← List.singleton_append, load_append_iff]
  exact and_congr_left' (by rw [List.length_singleton]; exact List.singleton_inj)

theorem store_apart (memory : Nat → α) {offset address : Nat} {cells : List α}
    (apart : address < offset ∨ offset + cells.length ≤ address) :
    store memory offset cells address = memory address := by
  rw [store]
  split
  · rw [List.getElem?_eq_none (by omega)]
    rfl
  · rfl

@[simp] theorem store_nil (memory : Nat → α) (offset : Nat) : store memory offset [] = memory := by
  funext address
  simp [store]

/-- Cells stored one behind the other are stored as one list. -/
theorem store_append (memory : Nat → α) (offset : Nat) (first second : List α) :
    store (store memory offset first) (offset + first.length) second =
      store memory offset (first ++ second) := by
  funext address
  simp only [store]
  by_cases behind : offset + first.length ≤ address
  · rw [if_pos behind, if_pos (by omega), if_pos (by omega), List.getElem?_append_right (by omega),
      List.getElem?_eq_none (show first.length ≤ address - offset by omega), Option.getD_none,
      Nat.sub_add_eq]
  · rw [if_neg behind]
    split
    · rw [List.getElem?_append_left (by omega)]
    · rfl

theorem copy_apart (source target : Nat → α) {from_offset to_offset length address : Nat}
    (apart : address < to_offset ∨ to_offset + length ≤ address) :
    copy source from_offset target to_offset length address = target address := by
  rw [copy, if_neg (by omega)]

theorem load_store (memory : Nat → α) (offset : Nat) (cells : List α) :
    load (store memory offset cells) offset cells.length = cells := by
  refine List.ext_getElem (length_load _ _ _) fun cell _ inside => ?_
  simp only [load, List.getElem_map, List.getElem_range, store, Nat.le_add_right, if_true,
    Nat.add_sub_cancel_left, List.getElem?_eq_getElem inside, Option.getD_some]

/-- What is stored elsewhere leaves a range alone. -/
theorem load_store_apart (memory : Nat → α) {offset place length : Nat} {cells : List α}
    (apart : place + length ≤ offset ∨ offset + cells.length ≤ place) :
    load (store memory offset cells) place length = load memory place length := by
  exact load_congr fun cell inside => store_apart memory (by omega)

theorem load_copy_inside (source target : Nat → α) {from_offset to_offset length start count : Nat}
    (inside : start + count ≤ length) :
    load (copy source from_offset target to_offset length) (to_offset + start) count =
      load source (from_offset + start) count := by
  refine load_congr fun cell cell_lt => ?_
  rw [copy, if_pos (by omega)]
  congr 1
  omega

theorem load_copy_start (source target : Nat → α) {from_offset to_offset length count : Nat}
    (inside : count ≤ length) :
    load (copy source from_offset target to_offset length) to_offset count =
      load source from_offset count :=
  @load_copy_inside _ source target from_offset to_offset length 0 count
    ((Nat.zero_add count).trans_le inside)

/-- What is copied elsewhere leaves a range alone. -/
theorem load_copy_apart (source target : Nat → α) {from_offset to_offset length place count : Nat}
    (apart : place + count ≤ to_offset ∨ to_offset + length ≤ place) :
    load (copy source from_offset target to_offset length) place count =
      load target place count := by
  exact load_congr fun cell inside => copy_apart source target (by omega)

/-- The cells lie at a place. -/
def Lies (memory : Nat → α) (place : Nat) (cells : List α) : Prop :=
  load memory place cells.length = cells

variable {memory other : Nat → α} {place : Nat} {cells : List α}

theorem lies_nil : Lies memory place [] := rfl

theorem lies_append {first second : List α} :
    Lies memory place (first ++ second) ↔
      Lies memory place first ∧ Lies memory (place + first.length) second :=
  load_append_iff

theorem Lies.congr (lies : Lies memory place cells)
    (same : ∀ address, place ≤ address → address < place + cells.length →
      other address = memory address) : Lies other place cells := by
  have loaded : load other place cells.length = load memory place cells.length :=
    load_congr fun cell inside => same _ (Nat.le_add_right _ _) (Nat.add_lt_add_left inside _)
  exact loaded.trans lies

theorem lies_store (memory : Nat → α) (place : Nat) (cells : List α) :
    Lies (store memory place cells) place cells := load_store memory place cells

/-- Cells that are copied lie at their new place. -/
theorem Lies.copy_start {source target : Nat → α} {from_offset to_offset length : Nat}
    (lies : Lies source from_offset cells) (inside : cells.length ≤ length) :
    Lies (copy source from_offset target to_offset length) to_offset cells :=
  (load_copy_start source target inside).trans lies

theorem Lies.getElem (lies : Lies memory place cells) {cell : Nat} (inside : cell < cells.length) :
    memory (place + cell) = cells[cell] := by
  have loadable : cell < (load memory place cells.length).length := by
    rw [length_load]
    exact inside
  have loaded : (load memory place cells.length)[cell] = memory (place + cell) := by
    simp only [load, List.getElem_map, List.getElem_range]
  rw [← loaded]
  exact List.getElem_of_eq lies _

end ByteMemory
end Firebird
