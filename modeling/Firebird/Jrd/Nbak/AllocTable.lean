import Mathlib.Tactic.Ring
import Firebird.Library.BlockedLog
import Firebird.Jrd.Nbak.DifferenceFile

/-!
# The allocation table as a log

The pointer pages hold the database pages in the order of their allocation, so that the difference
page of one is the cell of its entry in a log with a header for each block.  The file holds such a
log, and a process knows a part of it from the front.
-/

namespace Firebird
namespace DifferenceFile

open BlockedLog (position assigned)

/-! ## Numbers -/

namespace PageSize

variable (size : PageSize)

theorem words_eq : size.words = 2 ^ (size.shift - 2) := by
  have shift_le := size.min_le
  rw [words, show (4 : Nat) = 2 ^ 2 from rfl, Nat.pow_div (by omega) Nat.two_pos]

theorem words_dvd : size.words ∣ 2 ^ 32 := by
  have le_shift := size.le_max
  rw [words_eq]
  exact Nat.pow_dvd_pow 2 (by omega)

theorem four_le_words : 4 ≤ size.words := by
  have shift_le := size.min_le
  have two_le : 2 ≤ size.shift - 2 := by omega
  rw [words_eq]
  exact Nat.pow_le_pow_right Nat.two_pos two_le

theorem words_eq_succ : size.words = size.pagesPerAllocPage + 1 := by
  have four_le := size.four_le_words
  rw [pagesPerAllocPage]
  omega

theorem room_pos : 0 < size.pagesPerAllocPage := by
  have four_le := size.four_le_words
  rw [pagesPerAllocPage]
  omega

end PageSize

theorem ulong_of_lt {value : Nat} (small : value < 2 ^ 32) : ulong value = value :=
  Nat.mod_eq_of_lt small

/-- Masking the low bits rounds down to a multiple, since page sizes are powers of two. -/
theorem clearBits_eq {value bits : Nat} (small : value < 2 ^ 64) (few : bits ≤ 64) :
    clearBits value (2 ^ bits - 1) = 2 ^ bits * (value / 2 ^ bits) := by
  apply Nat.eq_of_testBit_eq
  intro index
  have mask_lt : 2 ^ bits - 1 < 2 ^ 64 := by
    have pow_le : 2 ^ bits ≤ 2 ^ 64 := Nat.pow_le_pow_right (by decide) few
    have pow_pos : 0 < 2 ^ bits := Nat.two_pow_pos bits
    omega
  rw [clearBits, Nat.testBit_and, Nat.sub_sub, Nat.add_comm 1,
    Nat.testBit_two_pow_sub_succ mask_lt, Nat.testBit_two_pow_sub_one, Nat.testBit_two_pow_mul,
    Nat.testBit_div_two_pow]
  rcases Nat.lt_or_ge index bits with below | above
  · simp [below, Nat.not_le.mpr below]
  · have not_below : ¬ index < bits := Nat.not_lt.mpr above
    rcases Nat.lt_or_ge index 64 with inside | outside
    · simp [not_below, above, inside, Nat.sub_add_cancel above]
    · have value_lt : value < 2 ^ index :=
        small.trans_le (Nat.pow_le_pow_right (by decide) outside)
      simp [Nat.sub_add_cancel above, Nat.testBit_lt_two_pow value_lt]

variable {size : PageSize}

/-- The header of the block in which the next page is entered. -/
theorem pointerPage_eq {manager : BackupManager} {count : Nat}
    (last : manager.last_allocated_page = position size.pagesPerAllocPage count)
    (small : position size.pagesPerAllocPage count < 2 ^ 32) :
    manager.pointerPage size = size.words * (count / size.pagesPerAllocPage) := by
  have le_shift := size.le_max
  have words_eq := size.words_eq
  have masked := @clearBits_eq manager.last_allocated_page (size.shift - 2)
    (by rw [last]; omega) (by omega)
  rw [← words_eq] at masked
  have div_eq : manager.last_allocated_page / size.words = count / size.pagesPerAllocPage := by
    rw [last, size.words_eq_succ, BlockedLog.position_div size.room_pos]
  rw [BackupManager.pointerPage, PageSize.pagesPerAllocPage, masked, div_eq]
  rfl

/-! ## A file that holds a log -/

/-- The pointer pages of the file hold the database pages in this order. -/
structure Holds (size : PageSize) (file : File) (pages : List Nat) : Prop where
  there : ∀ block ≤ pages.length / size.pagesPerAllocPage, size.words * block < file.size
  count : ∀ block ≤ pages.length / size.pagesPerAllocPage,
    file.page (size.words * block) 0 =
      min size.pagesPerAllocPage (pages.length - size.pagesPerAllocPage * block)
  entry : ∀ index db_page, pages[index]? = some db_page →
    file.page (size.words * (index / size.pagesPerAllocPage))
      (index % size.pagesPerAllocPage + 1) = db_page

namespace Holds

variable {file : File} {pages : List Nat}

theorem count_last (holds : Holds size file pages) :
    file.page (size.words * (pages.length / size.pagesPerAllocPage)) 0 =
      pages.length % size.pagesPerAllocPage := by
  have split := Nat.div_add_mod pages.length size.pagesPerAllocPage
  have inside := Nat.mod_lt pages.length size.room_pos
  rw [holds.count _ le_rfl]
  omega

theorem count_full (holds : Holds size file pages) {block : Nat}
    (before : block < pages.length / size.pagesPerAllocPage) :
    file.page (size.words * block) 0 = size.pagesPerAllocPage := by
  have next_le : size.pagesPerAllocPage * (block + 1) ≤ pages.length :=
    (Nat.mul_le_mul_left _ before).trans (Nat.mul_div_le _ _)
  rw [Nat.mul_succ] at next_le
  rw [holds.count _ before.le]
  omega

theorem pioRead_eq (holds : Holds size file pages) {block : Nat}
    (before : block ≤ pages.length / size.pagesPerAllocPage) :
    file.pioRead (size.words * block) = some (file.page (size.words * block)) :=
  if_pos (holds.there block before)

/-- Pages other than the pointer pages of the log may change. -/
theorem set_other (holds : Holds size file pages) {number : Nat} (content : Page)
    (other : ∀ block ≤ pages.length / size.pagesPerAllocPage, number ≠ size.words * block) :
    Holds size (file.set number content) pages where
  there block before := (holds.there block before).trans_le (Nat.le_max_left _ _)
  count block before := by
    rw [← holds.count block before]
    simp only [File.set, Function.update_of_ne (other block before).symm]
  entry index db_page here := by
    have inside : index ≤ pages.length := (List.getElem?_eq_some_iff.mp here).1.le
    rw [← holds.entry index db_page here]
    simp only [File.set, Function.update_of_ne (other _ (Nat.div_le_div_right inside)).symm]

theorem pioWrite_other (holds : Holds size file pages) {number : Nat} (content : Page)
    (outcome : Outcome)
    (other : ∀ block ≤ pages.length / size.pagesPerAllocPage, number ≠ size.words * block) :
    Holds size (file.pioWrite number content outcome) pages := by
  match outcome with
  | .written => exact holds.set_other content other
  | .failed none => exact holds
  | .failed (some left) => exact holds.set_other left other

end Holds

/-! ## The reading loop -/

namespace BackupManager

variable {file : File} {pages : List Nat}

/-- A run over entries of one pointer page enters them under their numbers. -/
theorem addItems_eq (holds : Holds size file pages) (nodup : pages.Nodup)
    (small : position size.pagesPerAllocPage pages.length < 2 ^ 32) (block start left : Nat)
    (fits : start + left ≤ size.pagesPerAllocPage)
    (inside : size.pagesPerAllocPage * block + start + left ≤ pages.length) :
    addItems (file.page (size.words * block)) (size.words * block)
        (assigned size.pagesPerAllocPage
          (pages.take (size.pagesPerAllocPage * block + start))) start left =
      (assigned size.pagesPerAllocPage
        (pages.take (size.pagesPerAllocPage * block + start + left)), true) := by
  induction left generalizing start with
  | zero => rfl
  | succ left ih =>
      set room := size.pagesPerAllocPage with room_eq
      have room_pos : 0 < room := size.room_pos
      have before : room * block + start < pages.length := by omega
      have div_eq : (room * block + start) / room = block := by
        rw [Nat.mul_add_div room_pos, Nat.div_eq_of_lt (by omega), Nat.add_zero]
      have mod_eq : (room * block + start) % room = start := by
        rw [Nat.mul_add_mod, Nat.mod_eq_of_lt (by omega)]
      have entry := holds.entry _ _ (List.getElem?_eq_getElem before)
      rw [← room_eq, div_eq, mod_eq] at entry
      have number : size.words * block + start = position room (room * block + start) := by
        rw [position, div_eq, size.words_eq_succ, ← room_eq, Nat.succ_mul]
        omega
      have number_lt : size.words * block + start + 1 < 2 ^ 32 := by
        have lt := BlockedLog.position_strictMono room before
        omega
      have fresh : pages[room * block + start] ∉ pages.take (room * block + start) := by
        intro member
        obtain ⟨index, lt, there⟩ := List.mem_take_iff_getElem.mp member
        have same := (List.Nodup.getElem_inj_iff nodup).mp there
        omega
      have taken : pages.take (room * block + (start + 1)) =
          pages.take (room * block + start) ++ [pages[room * block + start]] := by
        rw [← Nat.add_assoc, List.take_succ_eq_append_getElem before]
      have length_eq : (pages.take (room * block + start)).length = room * block + start :=
        List.length_take_of_le before.le
      rw [addItems, AllocItemTree.add, entry, BlockedLog.assigned_eq_none_iff.mpr fresh,
        ulong_of_lt number_lt]
      have step := ih (start + 1) (by omega) (by omega)
      rw [taken, BlockedLog.assigned_concat fresh, length_eq, ← number] at step
      simp only
      rw [step]
      congr 3
      omega

/-- How far a process knows the log after `actualizeAlloc`: the last block is left for later without
the global lock. -/
def reach (size : PageSize) (haveGlobalLock : Bool) (length known : Nat) : Nat :=
  if haveGlobalLock then length
  else max known (size.pagesPerAllocPage * (length / size.pagesPerAllocPage))

theorem le_reach {haveGlobalLock : Bool} {length known : Nat} (inside : known ≤ length) :
    known ≤ reach size haveGlobalLock length known := by
  unfold reach
  split
  · exact inside
  · exact le_max_left _ _

theorem reach_le {haveGlobalLock : Bool} {length known : Nat} (inside : known ≤ length) :
    reach size haveGlobalLock length known ≤ length := by
  unfold reach
  split
  · exact le_rfl
  · exact max_le inside (Nat.mul_div_le _ _)

/-- Reading on from the front of a full block does not change how far the loop comes. -/
theorem reach_of_full {haveGlobalLock : Bool} {length known : Nat}
    (before : known / size.pagesPerAllocPage < length / size.pagesPerAllocPage) :
    reach size haveGlobalLock length
        (size.pagesPerAllocPage * (known / size.pagesPerAllocPage + 1)) =
      reach size haveGlobalLock length known := by
  have next_le : size.pagesPerAllocPage * (known / size.pagesPerAllocPage + 1) ≤
      size.pagesPerAllocPage * (length / size.pagesPerAllocPage) := Nat.mul_le_mul_left _ before
  have known_le : known ≤ size.pagesPerAllocPage * (known / size.pagesPerAllocPage + 1) :=
    (Nat.lt_mul_div_succ known size.room_pos).le
  unfold reach
  split
  · rfl
  · rw [max_eq_right next_le, max_eq_right (known_le.trans next_le)]

/-- A turn over a full pointer page. -/
theorem actualizeLoop_full (holds : Holds size file pages) (nodup : pages.Nodup)
    (small : position size.pagesPerAllocPage pages.length < 2 ^ 32) (haveGlobalLock : Bool)
    (turns : Nat) (manager : BackupManager) {known : Nat}
    (last : manager.last_allocated_page = position size.pagesPerAllocPage known)
    (before : known / size.pagesPerAllocPage < pages.length / size.pagesPerAllocPage) :
    actualizeLoop size file haveGlobalLock (turns + 1) manager
        (assigned size.pagesPerAllocPage (pages.take known)) =
      actualizeLoop size file haveGlobalLock turns
        { manager with
          alloc_buffer := file.page (size.words * (known / size.pagesPerAllocPage))
          last_allocated_page := position size.pagesPerAllocPage
            (size.pagesPerAllocPage * (known / size.pagesPerAllocPage + 1)) }
        (assigned size.pagesPerAllocPage
          (pages.take (size.pagesPerAllocPage * (known / size.pagesPerAllocPage + 1)))) := by
  have pointer_small : position size.pagesPerAllocPage known < 2 ^ 32 := by
    have lt : known < pages.length := by
      by_contra ge
      have le := Nat.div_le_div_right (c := size.pagesPerAllocPage) (Nat.not_lt.mp ge)
      omega
    exact (BlockedLog.position_strictMono _ lt).trans small
  have pointer := pointerPage_eq last pointer_small
  have full := holds.count_full before
  set room := size.pagesPerAllocPage with room_eq
  set block := known / room with block_eq
  have room_pos : 0 < room := size.room_pos
  have known_eq : room * block + known % room = known := Nat.div_add_mod known room
  have inside : known % room < room := Nat.mod_lt known room_pos
  have next_le : room * (block + 1) ≤ pages.length :=
    (Nat.mul_le_mul_left _ before).trans (Nat.mul_div_le _ _)
  have position_known : position room known = size.words * block + known % room := by
    rw [BlockedLog.position_eq, size.words_eq_succ]
  have position_next : position room (room * (block + 1)) = size.words * block + room + 1 := by
    rw [position, Nat.mul_div_cancel_left _ room_pos, size.words_eq_succ, ← room_eq, Nat.succ_mul,
      Nat.mul_succ]
    omega
  have next_small : position room (room * (block + 1)) < 2 ^ 32 :=
    ((BlockedLog.position_strictMono room).monotone next_le).trans_lt small
  have entered := addItems_eq holds nodup small block (known % room) (room - known % room)
    (by omega) (by rw [← room_eq]; rw [Nat.mul_succ] at next_le; omega)
  rw [← room_eq, known_eq, show known + (room - known % room) = room * (block + 1) by
    rw [Nat.mul_succ]; omega] at entered
  have start_eq : manager.last_allocated_page - size.words * block = known % room := by
    rw [last, position_known, Nat.add_sub_cancel_left]
  have last_eq : ulong (ulong (size.words * block + room) + 1) =
      position room (room * (block + 1)) := by
    rw [@ulong_of_lt (size.words * block + room) (by omega), ulong_of_lt (by omega),
      position_next]
  have pass : (!haveGlobalLock && room != room) = false := by
    rw [bne_self_eq_false, Bool.and_false]
  rw [actualizeLoop]
  simp only [pointer, holds.pioRead_eq before.le, ← room_eq, full, pass, start_eq, entered, last_eq,
    if_true, Bool.false_eq_true, if_false]

/-- The last turn, over a pointer page with room left. -/
theorem actualizeLoop_last (holds : Holds size file pages) (nodup : pages.Nodup)
    (small : position size.pagesPerAllocPage pages.length < 2 ^ 32) (haveGlobalLock : Bool)
    (turns : Nat) (manager : BackupManager) {known : Nat} (known_le : known ≤ pages.length)
    (last : manager.last_allocated_page = position size.pagesPerAllocPage known)
    (here : known / size.pagesPerAllocPage = pages.length / size.pagesPerAllocPage) :
    actualizeLoop size file haveGlobalLock (turns + 1) manager
        (assigned size.pagesPerAllocPage (pages.take known)) =
      ({ manager with
          alloc_table := some (assigned size.pagesPerAllocPage
            (pages.take (reach size haveGlobalLock pages.length known)))
          alloc_buffer := file.page (size.words * (pages.length / size.pagesPerAllocPage))
          last_allocated_page := position size.pagesPerAllocPage
            (reach size haveGlobalLock pages.length known)
          allocIsValid := haveGlobalLock }, true) := by
  have pointer := pointerPage_eq last
    (((BlockedLog.position_strictMono _).monotone known_le).trans_lt small)
  have count := holds.count_last
  have read := holds.pioRead_eq (le_refl (pages.length / size.pagesPerAllocPage))
  have entered := addItems_eq holds nodup small (pages.length / size.pagesPerAllocPage)
    (known % size.pagesPerAllocPage) (pages.length - known)
  rw [here] at pointer
  set room := size.pagesPerAllocPage with room_eq
  set block := pages.length / room with block_eq
  have room_pos : 0 < room := size.room_pos
  have inside : pages.length % room < room := Nat.mod_lt _ room_pos
  have length_eq : room * block + pages.length % room = pages.length :=
    Nat.div_add_mod pages.length room
  have known_eq : room * block + known % room = known := by
    rw [← here]
    exact Nat.div_add_mod known room
  have position_known : position room known = size.words * block + known % room := by
    rw [BlockedLog.position_eq, size.words_eq_succ, here]
  have position_length : position room pages.length =
      size.words * block + pages.length % room := by
    rw [BlockedLog.position_eq, size.words_eq_succ]
  have not_full : ¬ pages.length % room = room := by omega
  rw [actualizeLoop]
  cases haveGlobalLock with
  | false =>
      have reach_eq : reach size false pages.length known = known := by
        rw [reach, if_neg (by decide), ← room_eq, ← block_eq]
        omega
      have stop : (!false && file.page (size.words * block) 0 != room) = true := by
        rw [count, Bool.not_false, Bool.true_and]
        exact bne_iff_ne.mpr not_full
      simp only [pointer, read, ← room_eq, stop, if_true, reach_eq, ← last]
  | true =>
      have reach_eq : reach size true pages.length known = pages.length := if_pos rfl
      have start_eq : manager.last_allocated_page - size.words * block = known % room := by
        rw [last, position_known, Nat.add_sub_cancel_left]
      have left_eq : pages.length % room - known % room = pages.length - known := by omega
      have last_eq : ulong (size.words * block + pages.length % room) =
          position room pages.length := by
        rw [ulong_of_lt (by omega), position_length]
      have table_eq := entered (by omega) (by omega)
      rw [known_eq, Nat.add_sub_cancel' known_le, List.take_length] at table_eq
      simp only [pointer, read, ← room_eq, count, start_eq, left_eq, table_eq, last_eq, not_full,
        if_false, Bool.not_true, Bool.false_and, Bool.false_eq_true, reach_eq, List.take_length]

/-- Enough turns read the log to the end. -/
theorem actualizeLoop_eq (holds : Holds size file pages) (nodup : pages.Nodup)
    (small : position size.pagesPerAllocPage pages.length < 2 ^ 32) (haveGlobalLock : Bool)
    (turns : Nat) (manager : BackupManager) {known : Nat} (known_le : known ≤ pages.length)
    (last : manager.last_allocated_page = position size.pagesPerAllocPage known)
    (enough : pages.length / size.pagesPerAllocPage <
      known / size.pagesPerAllocPage + turns) :
    actualizeLoop size file haveGlobalLock turns manager
        (assigned size.pagesPerAllocPage (pages.take known)) =
      ({ manager with
          alloc_table := some (assigned size.pagesPerAllocPage
            (pages.take (reach size haveGlobalLock pages.length known)))
          alloc_buffer := file.page (size.words * (pages.length / size.pagesPerAllocPage))
          last_allocated_page := position size.pagesPerAllocPage
            (reach size haveGlobalLock pages.length known)
          allocIsValid := haveGlobalLock }, true) := by
  have div_le : known / size.pagesPerAllocPage ≤ pages.length / size.pagesPerAllocPage :=
    Nat.div_le_div_right known_le
  induction turns generalizing manager known with
  | zero => omega
  | succ turns ih =>
      rcases div_le.lt_or_eq with before | here
      · have next_le := (Nat.mul_le_mul_left size.pagesPerAllocPage before).trans
          (Nat.mul_div_le pages.length size.pagesPerAllocPage)
        have next_div : size.pagesPerAllocPage * (known / size.pagesPerAllocPage + 1) /
            size.pagesPerAllocPage = known / size.pagesPerAllocPage + 1 :=
          Nat.mul_div_cancel_left _ size.room_pos
        rw [actualizeLoop_full holds nodup small haveGlobalLock turns manager last before,
          ih _ next_le rfl (by rw [next_div]; omega) (by rw [next_div]; exact before),
          reach_of_full before]
      · exact actualizeLoop_last holds nodup small haveGlobalLock turns manager known_le last here

/-- The part of the log that a process knows. -/
structure Knows (size : PageSize) (pages : List Nat) (known : Nat) (manager : BackupManager) :
    Prop where
  known_le : known ≤ pages.length
  table : manager.alloc_table.getD (fun _ => none) =
    assigned size.pagesPerAllocPage (pages.take known)
  last : manager.last_allocated_page = position size.pagesPerAllocPage known
  sound : manager.dbb_bugcheck = false

/-- The three copies of the log agree. -/
structure Current (size : PageSize) (file : File) (pages : List Nat) (manager : BackupManager) :
    Prop where
  table : manager.alloc_table = some (assigned size.pagesPerAllocPage pages)
  buffer : manager.alloc_buffer =
    file.page (size.words * (pages.length / size.pagesPerAllocPage))
  last : manager.last_allocated_page = position size.pagesPerAllocPage pages.length
  sound : manager.dbb_bugcheck = false

theorem Current.knows {manager : BackupManager} (current : Current size file pages manager) :
    Knows size pages pages.length manager where
  known_le := le_rfl
  table := by rw [current.table, Option.getD_some, List.take_length]
  last := current.last
  sound := current.sound

theorem Knows.actualizeAlloc_eq {manager : BackupManager} {known : Nat}
    (knows : Knows size pages known manager) (holds : Holds size file pages)
    (nodup : pages.Nodup) (small : position size.pagesPerAllocPage pages.length < 2 ^ 32)
    (haveGlobalLock : Bool) :
    actualizeAlloc size file manager haveGlobalLock =
      ({ manager with
          alloc_table := some (assigned size.pagesPerAllocPage
            (pages.take (reach size haveGlobalLock pages.length known)))
          alloc_buffer := file.page (size.words * (pages.length / size.pagesPerAllocPage))
          last_allocated_page := position size.pagesPerAllocPage
            (reach size haveGlobalLock pages.length known)
          allocIsValid := haveGlobalLock }, true) := by
  have there := holds.there _ le_rfl
  have block_le : pages.length / size.pagesPerAllocPage ≤
      size.words * (pages.length / size.pagesPerAllocPage) :=
    Nat.le_mul_of_pos_left _ (by have four_le := size.four_le_words; omega)
  have block_lt : pages.length / size.pagesPerAllocPage < file.size + 1 := by omega
  rw [actualizeAlloc, knows.table]
  exact actualizeLoop_eq holds nodup small haveGlobalLock _ manager knows.known_le knows.last
    (block_lt.trans_le (Nat.le_add_left _ _))

/-- With the global lock the table becomes that of the file. -/
theorem Knows.current_fetch {manager : BackupManager} {known : Nat}
    (knows : Knows size pages known manager) (holds : Holds size file pages)
    (nodup : pages.Nodup) (small : position size.pagesPerAllocPage pages.length < 2 ^ 32) :
    Current size file pages (manager.fetch size file) := by
  have reach_eq : reach size true pages.length known = pages.length := if_pos rfl
  rw [fetch, knows.actualizeAlloc_eq holds nodup small true, reach_eq, List.take_length]
  exact ⟨rfl, rfl, rfl, knows.sound⟩

theorem Knows.actualizeAlloc_unlocked {manager : BackupManager} {known : Nat}
    (knows : Knows size pages known manager) (holds : Holds size file pages)
    (nodup : pages.Nodup) (small : position size.pagesPerAllocPage pages.length < 2 ^ 32) :
    Knows size pages (reach size false pages.length known)
      (manager.actualizeAlloc size file false).1 := by
  rw [knows.actualizeAlloc_eq holds nodup small false]
  exact ⟨reach_le knows.known_le, rfl, rfl, knows.sound⟩

end BackupManager

end DifferenceFile
end Firebird
