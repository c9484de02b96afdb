import Mathlib.Data.List.Nodup
import Mathlib.Data.List.Infix
import Mathlib.Data.Nat.ModEq
import Mathlib.Logic.Function.Basic

/-!
# Keys numbered by their place in a log of blocks

A log keeps `room` keys behind the header cell of each block.  A key is numbered by the cell it is
found in: headers take numbers too, and the numbers are never stored.
-/

namespace Firebird
namespace BlockedLog

variable {room : Nat}

/-- The cell behind which the next key goes, after `count` keys. -/
def position (room count : Nat) : Nat := count + count / room

@[simp]
theorem position_zero (room : Nat) : position room 0 = 0 := by
  simp only [position, Nat.zero_div, Nat.add_zero]

theorem position_strictMono (room : Nat) : StrictMono (position room) := by
  intro first second lt
  have div_le : first / room ≤ second / room := Nat.div_le_div_right lt.le
  simp only [position]
  omega

theorem position_eq (room count : Nat) :
    position room count = (room + 1) * (count / room) + count % room := by
  have split := Nat.div_add_mod count room
  rw [position, Nat.succ_mul]
  omega

theorem position_mod (roomy : 0 < room) (count : Nat) :
    position room count % (room + 1) = count % room := by
  have inside : count % room < room := Nat.mod_lt count roomy
  rw [position_eq, Nat.mul_add_mod, Nat.mod_eq_of_lt (by omega)]

theorem position_div (roomy : 0 < room) (count : Nat) :
    position room count / (room + 1) = count / room := by
  have inside : count % room < room + 1 := (Nat.mod_lt count roomy).trans (Nat.lt_succ_self room)
  rw [position_eq, Nat.mul_add_div (Nat.succ_pos room), Nat.div_eq_of_lt inside, Nat.add_zero]

/-- A block that is not full takes the next key in its next cell. -/
theorem position_succ_of_partial {count : Nat} (here : count % room + 1 < room) :
    position room (count + 1) = position room count + 1 := by
  have div_eq : (count + 1) / room = count / room := by
    rw [Nat.succ_div, if_neg, Nat.add_zero]
    intro divides
    have zero := Nat.mod_eq_zero_of_dvd divides
    rw [← Nat.mod_add_mod, Nat.mod_eq_of_lt here] at zero
    omega
  rw [position, position, div_eq]
  omega

/-- The key that fills a block is followed by the header of the next one. -/
theorem position_succ_of_full {count : Nat} (here : count % room + 1 = room) :
    position room (count + 1) = position room count + 2 := by
  have div_eq : (count + 1) / room = count / room + 1 := by
    rw [Nat.succ_div, if_pos]
    have split := Nat.div_add_mod count room
    refine ⟨count / room + 1, ?_⟩
    rw [Nat.mul_succ]
    omega
  rw [position, position, div_eq]
  omega

theorem div_succ_of_partial {count : Nat} (here : count % room + 1 < room) :
    (count + 1) / room = count / room := by
  have step := position_succ_of_partial here
  simp only [position] at step
  omega

theorem div_succ_of_full {count : Nat} (here : count % room + 1 = room) :
    (count + 1) / room = count / room + 1 := by
  have step := position_succ_of_full here
  simp only [position] at step
  omega

/-! ## The numbers of the keys -/

section Keys

variable {Key : Type*} [DecidableEq Key]

/-- The number of a key of the log. -/
def assigned (room : Nat) (keys : List Key) (key : Key) : Option Nat :=
  (keys.idxOf? key).map fun index => position room index + 1

@[simp]
theorem assigned_nil (room : Nat) : assigned room ([] : List Key) = fun _ => none := rfl

theorem assigned_eq_none_iff {keys : List Key} {key : Key} :
    assigned room keys key = none ↔ key ∉ keys := by
  rw [assigned, Option.map_eq_none_iff, List.idxOf?_eq_none_iff]

/-- The index a number comes from. -/
theorem exists_of_assigned {keys : List Key} {key : Key} {number : Nat}
    (given : assigned room keys key = some number) :
    ∃ index, keys[index]? = some key ∧ position room index + 1 = number := by
  obtain ⟨index, found, rfl⟩ := Option.map_eq_some_iff.mp given
  obtain ⟨inside, here, -⟩ := List.findIdx?_eq_some_iff_getElem.mp found
  refine ⟨index, ?_, rfl⟩
  rw [List.getElem?_eq_getElem inside, eq_of_beq here]

theorem assigned_injective {keys : List Key} {first second : Key} {number : Nat}
    (givenFirst : assigned room keys first = some number)
    (givenSecond : assigned room keys second = some number) : first = second := by
  obtain ⟨index, here, position_index⟩ := exists_of_assigned givenFirst
  obtain ⟨other, there, position_other⟩ := exists_of_assigned givenSecond
  have same : index = other := (position_strictMono room).injective (by omega)
  rw [same, there] at here
  exact (Option.some.inj here).symm

/-- No key is numbered by a header. -/
theorem assigned_mod_ne_zero {keys : List Key} {key : Key} {number : Nat} (roomy : 0 < room)
    (given : assigned room keys key = some number) : number % (room + 1) ≠ 0 := by
  obtain ⟨index, -, rfl⟩ := exists_of_assigned given
  have inside : index % room < room := Nat.mod_lt index roomy
  have mod_eq := position_mod roomy index
  have sum_eq := Nat.div_add_mod (position room index) (room + 1)
  have next : position room index + 1 =
      (room + 1) * (position room index / (room + 1)) + (index % room + 1) := by omega
  rw [next, Nat.mul_add_mod, Nat.mod_eq_of_lt (by omega)]
  omega

theorem assigned_of_prefix {keys longer : List Key} {key : Key} {number : Nat}
    (begins : keys <+: longer) (given : assigned room keys key = some number) :
    assigned room longer key = some number := by
  obtain ⟨index, found, rfl⟩ := Option.map_eq_some_iff.mp given
  rw [assigned, show longer.idxOf? key = some index from begins.findIdx?_eq_some found,
    Option.map_some]

theorem assigned_concat {keys : List Key} {key : Key} (fresh : key ∉ keys) :
    assigned room (keys ++ [key]) =
      Function.update (assigned room keys) key (some (position room keys.length + 1)) := by
  funext other
  have idxOf_append : (keys ++ [key]).idxOf? other =
      (keys.idxOf? other).or (([key].idxOf? other).map fun index => index + keys.length) :=
    List.findIdx?_append
  rw [assigned, idxOf_append, List.idxOf?_singleton]
  rcases eq_or_ne other key with rfl | differs
  · rw [Function.update_self, List.idxOf?_eq_none_iff.mpr fresh]
    simp only [beq_self_eq_true, if_true, Option.map_some, Option.none_or, Nat.zero_add]
  · rw [Function.update_of_ne differs, assigned]
    have unequal : (key == other) = false := beq_eq_false_iff_ne.mpr differs.symm
    rw [unequal, if_neg (by decide), Option.map_none, Option.or_none]

end Keys

end BlockedLog
end Firebird
