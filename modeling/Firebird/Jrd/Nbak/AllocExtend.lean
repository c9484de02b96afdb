import Firebird.Jrd.Nbak.AllocTable

/-!
# Extending the allocation table

`allocateDifferencePage` grows the file, enters the page in the buffer of the pointer page, writes
that page and only then moves on.  If none of the writes of a pointer page fails, the log in the
file, the buffer and the table stay the same whatever becomes of the other writes.
-/

namespace Firebird
namespace DifferenceFile

open BlockedLog (position assigned)

variable {size : PageSize} {file : File} {pages : List Nat}

/-- A pointer page with one more entry. -/
def entered (page : Page) (db_page : Nat) : Page :=
  Function.update (Function.update page 0 (page 0 + 1)) (page 0 + 1) db_page

theorem entered_zero (page : Page) (db_page : Nat) : entered page db_page 0 = page 0 + 1 := by
  rw [entered, Function.update_of_ne (Nat.succ_ne_zero _).symm, Function.update_self]

theorem entered_last (page : Page) (db_page : Nat) :
    entered page db_page (page 0 + 1) = db_page := Function.update_self ..

theorem entered_before {page : Page} {db_page index : Nat} (positive : 0 < index)
    (before : index < page 0 + 1) : entered page db_page index = page index := by
  rw [entered, Function.update_of_ne before.ne, Function.update_of_ne positive.ne']

/-- The last pointer page gets the entry; if that fills it, the next one is there and empty. -/
theorem Holds.concat (holds : Holds size file pages) (db_page : Nat)
    (next : pages.length % size.pagesPerAllocPage + 1 = size.pagesPerAllocPage →
      size.words * (pages.length / size.pagesPerAllocPage + 1) < file.size ∧
      file.page (size.words * (pages.length / size.pagesPerAllocPage + 1)) 0 = 0) :
    Holds size
      (file.set (size.words * (pages.length / size.pagesPerAllocPage))
        (entered (file.page (size.words * (pages.length / size.pagesPerAllocPage))) db_page))
      (pages ++ [db_page]) := by
  have count := holds.count_last
  have words_pos : 0 < size.words := by
    have four_le := size.four_le_words
    omega
  have room_pos := size.room_pos
  have inside := Nat.mod_lt pages.length room_pos
  have length_eq := Nat.div_add_mod pages.length size.pagesPerAllocPage
  have before_last {block : Nat} (before : block < pages.length / size.pagesPerAllocPage) :
      size.words * block ≠ size.words * (pages.length / size.pagesPerAllocPage) :=
    (Nat.mul_lt_mul_of_pos_left before words_pos).ne
  have block_cases {block : Nat}
      (le : block ≤ (pages ++ [db_page]).length / size.pagesPerAllocPage) :
      block < pages.length / size.pagesPerAllocPage ∨
        block = pages.length / size.pagesPerAllocPage ∨
        (block = pages.length / size.pagesPerAllocPage + 1 ∧
          pages.length % size.pagesPerAllocPage + 1 = size.pagesPerAllocPage) := by
    rw [List.length_append, List.length_singleton] at le
    rcases Nat.lt_or_ge (pages.length % size.pagesPerAllocPage + 1) size.pagesPerAllocPage with
      partly | full
    · rw [BlockedLog.div_succ_of_partial partly] at le
      omega
    · rw [BlockedLog.div_succ_of_full (by omega)] at le
      omega
  have length_append : (pages ++ [db_page]).length = pages.length + 1 := by
    rw [List.length_append, List.length_singleton]
  refine ⟨fun block le => ?_, fun block le => ?_, fun index other here => ?_⟩
  · rcases block_cases le with before | rfl | ⟨rfl, full⟩
    · exact (holds.there block before.le).trans_le (Nat.le_max_left _ _)
    · exact (holds.there _ le_rfl).trans_le (Nat.le_max_left _ _)
    · exact (next full).1.trans_le (Nat.le_max_left _ _)
  · rw [length_append]
    rcases block_cases le with before | rfl | ⟨rfl, full⟩
    · have next_le := (Nat.mul_le_mul_left size.pagesPerAllocPage before).trans
        (Nat.mul_div_le pages.length size.pagesPerAllocPage)
      rw [Nat.mul_succ] at next_le
      simp only [File.set, Function.update_of_ne (before_last before), holds.count_full before]
      omega
    · simp only [File.set, Function.update_self, entered_zero, count]
      omega
    · have later : size.words * (pages.length / size.pagesPerAllocPage + 1) ≠
          size.words * (pages.length / size.pagesPerAllocPage) :=
        (Nat.mul_lt_mul_of_pos_left (Nat.lt_succ_self _) words_pos).ne'
      have none_yet : (file.set (size.words * (pages.length / size.pagesPerAllocPage))
          (entered (file.page (size.words * (pages.length / size.pagesPerAllocPage))) db_page)).page
            (size.words * (pages.length / size.pagesPerAllocPage + 1)) 0 = 0 := by
        simp only [File.set, Function.update_of_ne later, (next full).2]
      rw [none_yet, Nat.mul_succ]
      omega
  · have index_lt := (List.getElem?_eq_some_iff.mp here).1
    rw [length_append] at index_lt
    rcases Nat.lt_succ_iff_lt_or_eq.mp index_lt with earlier | rfl
    · rw [List.getElem?_append_left earlier] at here
      have entry := holds.entry index other here
      rcases (Nat.div_le_div_right (c := size.pagesPerAllocPage) earlier.le).lt_or_eq with
        before | same
      · simp only [File.set, Function.update_of_ne (before_last before), entry]
      · have index_eq := Nat.div_add_mod index size.pagesPerAllocPage
        rw [same] at index_eq entry ⊢
        have index_before : index % size.pagesPerAllocPage + 1 <
            file.page (size.words * (pages.length / size.pagesPerAllocPage)) 0 + 1 := by
          rw [count]
          omega
        simp only [File.set, Function.update_self,
          entered_before (Nat.succ_pos _) index_before, entry]
    · rw [List.getElem?_append_right le_rfl, Nat.sub_self] at here
      obtain rfl : db_page = other := Option.some.inj here
      have last := entered_last
        (file.page (size.words * (pages.length / size.pagesPerAllocPage))) db_page
      rw [count] at last
      simp only [File.set, Function.update_self, last]

namespace BackupManager

variable {manager : BackupManager}

theorem Current.pioWrite_other (current : Current size file pages manager) {number : Nat}
    (content : Page) (outcome : Outcome)
    (other : number ≠ size.words * (pages.length / size.pagesPerAllocPage)) :
    Current size (file.pioWrite number content outcome) pages manager := by
  refine ⟨current.table, ?_, current.last, current.sound⟩
  rw [current.buffer]
  match outcome with
  | .written => exact (Function.update_of_ne other.symm _ _).symm
  | .failed none => rfl
  | .failed (some left) => exact (Function.update_of_ne other.symm _ _).symm

/-- The cell behind the last one of a block that is not full has a number. -/
theorem position_succ_lt {count : Nat}
    (small : position size.pagesPerAllocPage count < 2 ^ 32) :
    position size.pagesPerAllocPage count + 1 < 2 ^ 32 := by
  obtain ⟨blocks, blocks_eq⟩ := size.words_dvd
  have inside := Nat.mod_lt count size.room_pos
  have split := BlockedLog.position_eq size.pagesPerAllocPage count
  rw [← size.words_eq_succ] at split
  have words_eq := size.words_eq_succ
  rw [blocks_eq] at small ⊢
  have block_lt : count / size.pagesPerAllocPage < blocks := by
    by_contra ge
    have le := Nat.mul_le_mul_left size.words (Nat.not_lt.mp ge)
    omega
  have next_le := Nat.mul_le_mul_left size.words block_lt
  rw [Nat.mul_succ] at next_le
  omega

/-- The writes by which the call may fail: those of the difference page and of a new pointer page,
but not the one that records the allocation.  There are `2 ^ 32` page numbers. -/
def Permitted (size : PageSize) (manager : BackupManager) (grow pointer entry : Outcome) : Prop :=
  grow.succeeds → manager.last_allocated_page + 2 < 2 ^ 32 ∧
    ((manager.alloc_buffer 0 = size.words - 2 → pointer.succeeds) → entry.succeeds)

/-- What a call of `allocateDifferencePage` leaves of a log. -/
structure Extended (size : PageSize) (pages : List Nat) (db_page : Nat)
    (result : File × BackupManager × Nat) (longer : List Nat) : Prop where
  begins : pages <+: longer
  nodup : longer.Nodup
  small : position size.pagesPerAllocPage longer.length < 2 ^ 32
  holds : Holds size result.1 longer
  current : Current size result.1 longer result.2.1
  given : result.2.2 ≠ 0 → assigned size.pagesPerAllocPage longer db_page = some result.2.2

/-- A call that stops before it records the allocation. -/
theorem Extended.refused (holds : Holds size file pages) (current : Current size file pages manager)
    (nodup : pages.Nodup) (small : position size.pagesPerAllocPage pages.length < 2 ^ 32)
    (db_page : Nat) : Extended size pages db_page (file, manager, 0) pages where
  begins := List.prefix_rfl
  nodup := nodup
  small := small
  holds := holds
  current := current
  given nonzero := absurd rfl nonzero

/-- A call that records the allocation; `last` is the last allocated page after it and `buffer` the
pointer page for the next one. -/
theorem Extended.recorded (holds : Holds size file pages)
    (current : Current size file pages manager) (nodup : pages.Nodup) {db_page : Nat}
    (fresh : db_page ∉ pages)
    (next : pages.length % size.pagesPerAllocPage + 1 = size.pagesPerAllocPage →
      size.words * (pages.length / size.pagesPerAllocPage + 1) < file.size ∧
      file.page (size.words * (pages.length / size.pagesPerAllocPage + 1)) 0 = 0)
    {last : Nat} (last_eq : last = position size.pagesPerAllocPage (pages.length + 1))
    (small : last < 2 ^ 32) {after : File}
    (after_eq : after = file.set (size.words * (pages.length / size.pagesPerAllocPage))
      (entered manager.alloc_buffer db_page))
    {buffer : Page}
    (buffer_eq : buffer =
      after.page (size.words * ((pages.length + 1) / size.pagesPerAllocPage))) :
    Extended size pages db_page
      (after,
        { manager with
          alloc_table := manager.alloc_table.map fun table =>
            (table.add db_page (manager.last_allocated_page + 1)).1
          alloc_buffer := buffer
          last_allocated_page := last },
        manager.last_allocated_page + 1) (pages ++ [db_page]) := by
  have length_append : (pages ++ [db_page]).length = pages.length + 1 := by
    rw [List.length_append, List.length_singleton]
  have table_eq : AllocItemTree.add (assigned size.pagesPerAllocPage pages) db_page
      (manager.last_allocated_page + 1) =
        (assigned size.pagesPerAllocPage (pages ++ [db_page]), true) := by
    rw [AllocItemTree.add, BlockedLog.assigned_eq_none_iff.mpr fresh, current.last,
      BlockedLog.assigned_concat fresh]
  refine ⟨List.prefix_append .., ?_, ?_, ?_, ⟨?_, ?_, ?_, current.sound⟩, fun _ => ?_⟩
  · rw [← List.concat_eq_append]
    exact nodup.concat fresh
  · rw [length_append, ← last_eq]
    exact small
  · rw [after_eq, current.buffer]
    exact holds.concat db_page next
  · simp only [current.table, Option.map_some, table_eq]
  · rw [length_append]
    exact buffer_eq
  · rw [length_append]
    exact last_eq
  · rw [BlockedLog.assigned_concat fresh, Function.update_self, current.last]

theorem Current.extend (current : Current size file pages manager)
    (holds : Holds size file pages) (nodup : pages.Nodup)
    (small : position size.pagesPerAllocPage pages.length < 2 ^ 32) {db_page : Nat}
    (fresh : db_page ∉ pages) {grow pointer entry : Outcome}
    (permitted : Permitted size manager grow pointer entry) :
    ∃ longer, Extended size pages db_page
      (manager.extend size file db_page grow pointer entry) longer := by
  have pointer_eq := pointerPage_eq current.last small
  have count : manager.alloc_buffer 0 = pages.length % size.pagesPerAllocPage := by
    rw [current.buffer, holds.count_last]
  have inside := Nat.mod_lt pages.length size.room_pos
  have words_eq := size.words_eq_succ
  have last_eq : manager.last_allocated_page =
      size.words * (pages.length / size.pagesPerAllocPage) +
        pages.length % size.pagesPerAllocPage := by
    rw [current.last, BlockedLog.position_eq, words_eq]
  have last_succ : ulong (manager.last_allocated_page + 1) = manager.last_allocated_page + 1 := by
    rw [current.last, ulong_of_lt (position_succ_lt small)]
  have behind {number : Nat} (after : manager.last_allocated_page < number) :
      ∀ block ≤ pages.length / size.pagesPerAllocPage, number ≠ size.words * block := by
    intro block le
    have mul_le := Nat.mul_le_mul_left size.words le
    omega
  have grown_holds := holds.pioWrite_other emptyBuffer grow
    (behind (Nat.lt_succ_self manager.last_allocated_page))
  have grown_current := current.pioWrite_other emptyBuffer grow
    (behind (Nat.lt_succ_self manager.last_allocated_page) _ le_rfl)
  have full_iff : manager.alloc_buffer 0 = size.words - 2 ↔
      pages.length % size.pagesPerAllocPage + 1 = size.pagesPerAllocPage := by
    rw [count]
    omega
  cases grow with
  | failed left =>
      refine ⟨pages, ?_⟩
      simp only [BackupManager.extend, Outcome.succeeds, Bool.not_false, if_true, last_succ]
      exact Extended.refused grown_holds grown_current nodup small db_page
  | written =>
      obtain ⟨room_left, recorded⟩ := permitted rfl
      have last_next : ulong (manager.last_allocated_page + 2) = manager.last_allocated_page + 2 :=
        ulong_of_lt room_left
      by_cases full : manager.alloc_buffer 0 = size.words - 2
      · have full_block := full_iff.mp full
        have pointed_holds := grown_holds.pioWrite_other emptyBuffer pointer
          (behind (Nat.lt_add_of_pos_right Nat.two_pos))
        have pointed_current := grown_current.pioWrite_other emptyBuffer pointer
          (behind (Nat.lt_add_of_pos_right Nat.two_pos) _ le_rfl)
        cases pointer with
        | failed left =>
            refine ⟨pages, ?_⟩
            simp only [BackupManager.extend, Outcome.succeeds, Bool.not_true, Bool.not_false, full,
              if_true, if_false, Bool.false_eq_true, and_self, last_succ, last_next]
            exact Extended.refused pointed_holds pointed_current nodup small db_page
        | written =>
            cases entry with
            | failed left => exact absurd (recorded fun _ => rfl) Bool.false_ne_true
            | written =>
                refine ⟨pages ++ [db_page], ?_⟩
                have next_eq : size.words * (pages.length / size.pagesPerAllocPage + 1) =
                    manager.last_allocated_page + 2 := by
                  rw [Nat.mul_succ]
                  omega
                have last_next_eq : manager.last_allocated_page + 2 =
                    position size.pagesPerAllocPage (pages.length + 1) := by
                  rw [BlockedLog.position_succ_of_full full_block, current.last]
                have not_last := behind (Nat.lt_add_of_pos_right Nat.two_pos) _ le_rfl
                simp only [BackupManager.extend, Outcome.succeeds, Bool.not_true, full, if_true,
                  if_false, Bool.false_eq_true, and_false, last_succ, last_next, pointer_eq]
                rw [← full]
                refine Extended.recorded pointed_holds pointed_current nodup fresh
                  (fun _ => ?_) last_next_eq room_left rfl ?_
                · rw [next_eq]
                  refine ⟨Nat.lt_of_lt_of_le (Nat.lt_succ_self _) (Nat.le_max_right _ _), ?_⟩
                  simp only [File.pioWrite, File.set, Function.update_self, emptyBuffer]
                · rw [BlockedLog.div_succ_of_full full_block, next_eq]
                  simp only [File.pioWrite, File.set, Function.update_of_ne not_last,
                    Function.update_self]
      · cases entry with
        | failed left => exact absurd (recorded fun here => absurd here full) Bool.false_ne_true
        | written =>
            refine ⟨pages ++ [db_page], ?_⟩
            simp only [BackupManager.extend, Outcome.succeeds, Bool.not_true, full, if_false,
              Bool.false_eq_true, false_and, last_succ, pointer_eq]
            have partly : pages.length % size.pagesPerAllocPage + 1 < size.pagesPerAllocPage := by
              have not_full := fun here => full (full_iff.mpr here)
              omega
            refine Extended.recorded grown_holds grown_current nodup fresh
              (fun here => absurd (full_iff.mpr here) full) ?_ (by omega) rfl ?_
            · rw [BlockedLog.position_succ_of_partial partly, current.last]
            · rw [BlockedLog.div_succ_of_partial partly]
              simp only [File.pioWrite, File.set, Function.update_self]
              rfl

end BackupManager

end DifferenceFile
end Firebird
