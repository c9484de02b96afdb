import Firebird.Common.Fault
import Firebird.Library.Borders

/-!
# The failure table of a substring

`preKmp` fills a table with one entry more than the substring has characters.  An entry tells which
prefix of the substring is tried next when a character does not fit.
-/

namespace Firebird
namespace Kmp

open Borders

variable {α : Type*} [DecidableEq α]

/-- A table of `SLONG`s that was allocated with a number of entries. -/
structure Table where
  entries : Nat
  cells : Nat → Int

namespace Table

/-- `kmpNext[index]`. -/
def read (table : Table) (index : Nat) : Except Fault Int :=
  if index < table.entries then .ok (table.cells index) else .error .outOfBounds

/-- `kmpNext[index] = value`. -/
def write (table : Table) (index : Nat) (value : Int) : Except Fault Table :=
  if index < table.entries then
    .ok { table with cells := fun other => if other = index then value else table.cells other }
  else .error .outOfBounds

end Table

/-- The loops that follow the table from `j` until a character fits. -/
def follow (x : List α) (item : Option α) (kmpNext : Table) : Nat → Int → Except Fault Int
  | 0, _ => .error .exhausted
  | rounds + 1, j =>
      if -1 < j ∧ x[j.toNat]? ≠ item then do
        let j ← kmpNext.read j.toNat
        follow x item kmpNext rounds j
      else .ok j

/-- The entry for a position behind a border that ends at `j`. -/
def nextEntry (x : List α) (kmpNext : Table) (i : Nat) (j : Int) : Except Fault Int :=
  if x[i]? = x[j.toNat]? then kmpNext.read j.toNat else .ok j

/-- The loop of `preKmp` that fills the entries before the last one. -/
def preKmpLoop (x : List α) : Nat → Table → Nat → Int → Except Fault (Table × Nat × Int)
  | 0, kmpNext, i, j => .ok (kmpNext, i, j)
  | left + 1, kmpNext, i, j => do
      let j ← follow x x[i]? kmpNext (x.length + 1) j
      let i := i + 1
      let j := j + 1
      let value ← nextEntry x kmpNext i j
      let kmpNext ← kmpNext.write i value
      preKmpLoop x left kmpNext i j

/-- `preKmp` with a table that has been allocated. -/
def preKmp (x : List α) (kmpNext : Table) : Except Fault Table := do
  let kmpNext ← kmpNext.write 0 (-1)
  let (kmpNext, i, j) ← preKmpLoop x (x.length - 1) kmpNext 0 (-1)
  let j ← follow x x[i]? kmpNext (x.length + 1) j
  kmpNext.write (i + 1) (j + 1)

/-- The entries before a position are right. -/
def Sound (x : List α) (kmpNext : Table) (position : Nat) : Prop :=
  position ≤ kmpNext.entries ∧ ∀ index < position, Failure x index (kmpNext.cells index)

variable {x text : List α} {kmpNext : Table} {position limit : Nat}

omit [DecidableEq α] in
theorem Sound.write (sound : Sound x kmpNext position) (room : position < kmpNext.entries)
    {value : Int} (failure : Failure x position value) :
    ∃ written, kmpNext.write position value = .ok written ∧ Sound x written (position + 1) ∧
      written.entries = kmpNext.entries := by
  refine ⟨_, if_pos room, ⟨room, fun index below => ?_⟩, rfl⟩
  dsimp only
  split
  · rename_i same
    rw [same]
    exact failure
  · exact sound.2 index (by omega)

/-- The table leads to the longest prefix that goes on with a character. -/
theorem follow_spec (sound : Sound x kmpNext position) {item : Option α} {rounds : Nat} {j : Int}
    (start : j = -1 ∨ ∃ number : Nat, j = number ∧ number < position ∧ number < limit ∧
      EndsWith x text number)
    (tried : ∀ other < limit, EndsWith x text other → j < (other : Int) → x[other]? ≠ item)
    (enough : j + 2 ≤ rounds) :
    ∃ found, follow x item kmpNext rounds j = .ok found ∧ found ≤ j ∧
      Greatest (fun count => EndsWith x text count ∧ x[count]? = item) limit found := by
  induction rounds generalizing j with
  | zero =>
      rcases start with rfl | ⟨number, rfl, -⟩
      · omega
      · omega
  | succ rounds ih =>
      rw [follow]
      rcases start with rfl | ⟨number, rfl, inside, below, ends⟩
      · rw [if_neg (by omega)]
        refine ⟨-1, rfl, Int.le_refl _, .inl rfl, fun other other_below both => ?_⟩
        exact absurd both.2 (tried other other_below both.1 (by omega))
      · rw [Int.toNat_natCast]
        by_cases fits : x[number]? = item
        · rw [if_neg (fun both => both.2 fits)]
          refine ⟨number, rfl, Int.le_refl _, .inr ⟨number, rfl, below, ends, fits⟩, ?_⟩
          intro other other_below both
          by_contra longer
          exact tried other other_below both.1 (by omega) both.2
        · rw [if_pos ⟨by omega, fits⟩, Table.read, if_pos (by have := sound.1; omega)]
          obtain ⟨next, left⟩ := Greatest.fail ends below tried fits (sound.2 number inside)
          have less : kmpNext.cells number < number := by
            rcases next with none | ⟨other, same, shorter, -⟩
            · omega
            · omega
          obtain ⟨found, run, at_most, greatest⟩ := @ih (kmpNext.cells number) (by
            rcases next with none | ⟨other, same, shorter, other_ends⟩
            · exact .inl none
            · exact .inr ⟨other, same, by omega, by omega, other_ends⟩) left (by omega)
          exact ⟨found, run, by omega, greatest⟩

/-- The longest prefix that the text ends with is followed by a character. -/
theorem follow_greatest (sound : Sound x kmpNext position) {item : Option α} {rounds : Nat} {j : Int}
    (greatest : Greatest (EndsWith x text) limit j) (inside : j < position) (enough : j + 2 ≤ rounds) :
    ∃ found, follow x item kmpNext rounds j = .ok found ∧ found ≤ j ∧
      Greatest (fun count => EndsWith x text count ∧ x[count]? = item) limit found := by
  refine follow_spec sound ?_ ?_ enough
  · rcases greatest.exists_or_none with none | ⟨number, rfl, below, ends⟩
    · exact .inl none
    · exact .inr ⟨number, rfl, by omega, below, ends⟩
  · intro other below ends longer
    exact absurd (greatest.le_found other below ends) (by omega)

omit [DecidableEq α] in
theorem take_succ_eq {index : Nat} (inside : index < x.length) :
    x.take (index + 1) = x.take index ++ [x[index]] :=
  (List.take_concat_get' x index inside).symm

/-- A border of one character more. -/
theorem border_next (sound : Sound x kmpNext (position + 1)) (inside : position < x.length) {j : Int}
    (greatest : Greatest (EndsWith x (x.take position)) position j) :
    ∃ found, follow x x[position]? kmpNext (x.length + 1) j = .ok found ∧
      Greatest (EndsWith x (x.take (position + 1))) (position + 1) (found + 1) := by
  have bound : j < position := by
    rcases greatest.exists_or_none with none | ⟨number, rfl, below, -⟩
    · omega
    · omega
  obtain ⟨found, run, -, next⟩ := @follow_greatest _ _ x _ kmpNext (position + 1) position sound
    x[position]? (x.length + 1) j greatest (by omega) (by omega)
  rw [List.getElem?_eq_getElem inside] at next
  rw [take_succ_eq inside]
  exact ⟨found, run, next.next⟩

theorem preKmpLoop_spec {left : Nat} {j : Int} (sound : Sound x kmpNext (position + 1))
    (greatest : Greatest (EndsWith x (x.take position)) position j)
    (all : position + left + 1 = x.length) (room : x.length ≤ kmpNext.entries) :
    ∃ filled found, preKmpLoop x left kmpNext position j = .ok (filled, position + left, found) ∧
      Sound x filled x.length ∧ filled.entries = kmpNext.entries ∧
      Greatest (EndsWith x (x.take (position + left))) (position + left) found := by
  induction left generalizing kmpNext position j with
  | zero =>
      refine ⟨kmpNext, j, rfl, ?_, rfl, greatest⟩
      rw [← all]
      exact sound
  | succ left ih =>
      obtain ⟨found, run, next⟩ := border_next sound (by omega) greatest
      obtain ⟨number, number_eq⟩ : ∃ number : Nat, found + 1 = number := by
        rcases next.exists_or_none with none | ⟨number, same, -⟩
        · have least := next.le_found 0 (Nat.succ_pos _) (endsWith_zero _ _)
          omega
        · exact ⟨number, same⟩
      rw [number_eq] at next
      have shorter : number < position + 1 := by
        rcases next.exists_or_none with none | ⟨other, same, below, -⟩
        · omega
        · omega
      have failure := Failure.of_greatest next (sound.2 number shorter)
      obtain ⟨written, write_eq, next_sound, entries⟩ := sound.write (by omega) failure
      obtain ⟨filled, last, rest, filled_sound, filled_entries, last_greatest⟩ :=
        @ih written (position + 1) number next_sound next (by omega) (by omega)
      have position_eq : position + 1 + left = position + (left + 1) := by omega
      rw [position_eq] at rest last_greatest
      refine ⟨filled, last, ?_, filled_sound, filled_entries.trans entries, last_greatest⟩
      rw [preKmpLoop, run]
      simp only [bind, Except.bind]
      rw [number_eq, nextEntry, Int.toNat_natCast]
      split at write_eq
      · rename_i same
        rw [if_pos same, Table.read, if_pos (by omega)]
        simp only [write_eq]
        exact rest
      · rename_i other
        rw [if_neg other]
        simp only [write_eq]
        exact rest

/-- The table of a substring that is not empty is filled within its entries. -/
theorem preKmp_spec (some_character : x ≠ []) (room : x.length + 1 ≤ kmpNext.entries) :
    ∃ filled, preKmp x kmpNext = .ok filled ∧ Sound x filled x.length := by
  have positive := List.length_pos_iff.mpr some_character
  obtain ⟨first, write_eq, sound, entries⟩ := @Sound.write α x kmpNext 0
    ⟨Nat.zero_le _, fun index below => absurd below (Nat.not_lt_zero _)⟩ (by omega) (-1)
    (failure_zero x)
  have start : Greatest (EndsWith x (x.take 0)) 0 (-1) :=
    ⟨.inl rfl, fun other below => absurd below (Nat.not_lt_zero _)⟩
  obtain ⟨middle, found, loop_eq, middle_sound, middle_entries, greatest⟩ :=
    @preKmpLoop_spec _ _ x first 0 (x.length - 1) (-1) sound start (by omega) (by omega)
  rw [Nat.zero_add] at loop_eq greatest
  have last_sound : Sound x middle (x.length - 1 + 1) := by
    rw [Nat.sub_add_cancel positive]
    exact middle_sound
  obtain ⟨last, run, -⟩ := border_next last_sound (by omega) greatest
  refine ⟨{ middle with cells := fun other =>
    if other = x.length - 1 + 1 then last + 1 else middle.cells other }, ?_, ?_⟩
  · rw [preKmp, write_eq]
    simp only [bind, Except.bind, loop_eq, run]
    rw [Table.write, if_pos (by omega)]
  · refine ⟨by dsimp only; omega, fun index below => ?_⟩
    dsimp only
    rw [if_neg (by omega)]
    exact middle_sound.2 index below

theorem Table.write_eq {index : Nat} {value : Int} {written : Table}
    (run : kmpNext.write index value = .ok written) :
    index < kmpNext.entries ∧ written.entries = kmpNext.entries := by
  rw [Table.write] at run
  split at run
  · rename_i inside
    obtain rfl := Except.ok.inj run
    exact ⟨inside, rfl⟩
  · cases run

theorem preKmpLoop_fields {left : Nat} {j : Int} {filled : Table × Nat × Int}
    (run : preKmpLoop x left kmpNext position j = .ok filled) :
    filled.1.entries = kmpNext.entries ∧ filled.2.1 = position + left := by
  induction left generalizing kmpNext position j with
  | zero =>
      obtain rfl := Except.ok.inj run
      exact ⟨rfl, rfl⟩
  | succ left ih =>
      rw [preKmpLoop] at run
      obtain ⟨found, -, run⟩ := bind_eq_ok.mp run
      obtain ⟨value, -, run⟩ := bind_eq_ok.mp run
      obtain ⟨written, write_eq, run⟩ := bind_eq_ok.mp run
      obtain ⟨entries, last⟩ := ih run
      exact ⟨entries.trans (Table.write_eq write_eq).2, last.trans (by omega)⟩

/-- The last entry that is written is that behind the last character, or entry 1. -/
theorem preKmp_room {filled : Table} (run : preKmp x kmpNext = .ok filled) :
    x.length - 1 + 1 < kmpNext.entries := by
  rw [preKmp] at run
  obtain ⟨first, first_eq, run⟩ := bind_eq_ok.mp run
  obtain ⟨middle, loop_eq, run⟩ := bind_eq_ok.mp run
  obtain ⟨last, -, run⟩ := bind_eq_ok.mp run
  obtain ⟨entries, index⟩ := preKmpLoop_fields loop_eq
  have inside := (Table.write_eq run).1
  rw [index, entries, (Table.write_eq first_eq).2] at inside
  omega

end Kmp
end Firebird
