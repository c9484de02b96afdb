import Mathlib

/-!
# The allocation table of the difference file

While a database is locked for backup its pages are written to a difference file.  Pointer pages of
that file hold a count and the database pages of the difference pages behind them, in order.  Every
process keeps a copy of the table, which `BackupManager::actualizeAlloc` brings up to date from the
file, `allocateDifferencePage` extends and `getPageIndex` reads.
-/

namespace Firebird
namespace DifferenceFile

/-- `dbb_page_size`, a power of two from `MIN_PAGE_SIZE` to `MAX_PAGE_SIZE`. -/
structure PageSize where
  shift : Nat
  min_le : 12 ≤ shift
  le_max : shift ≤ 15

/-- `dbb_page_size / sizeof(ULONG)`. -/
def PageSize.words (size : PageSize) : Nat := 2 ^ size.shift / 4

/-- `PAGES_PER_ALLOC_PAGE`. -/
def PageSize.pagesPerAllocPage (size : PageSize) : Nat := size.words - 1

/-- The value that a `ULONG` keeps. -/
def ulong (value : Nat) : Nat := value % 2 ^ 32

/-! ## The file -/

/-- The `ULONG` words of a page. -/
abbrev Page := Nat → Nat

/-- `empty_buffer`. -/
def emptyBuffer : Page := fun _ => 0

/-- `diff_file`: pages below `size` can be read. -/
structure File where
  size : Nat
  page : Nat → Page

/-- How a write ends.  A failed write may leave anything in the page, or leave it alone. -/
inductive Outcome where
  | written
  | failed (left : Option Page)

/-- The write is reported as done. -/
def Outcome.succeeds : Outcome → Bool
  | .written => true
  | .failed _ => false

namespace File

/-- The file with a page replaced. -/
def set (file : File) (number : Nat) (content : Page) : File where
  size := max file.size (number + 1)
  page := Function.update file.page number content

/-- `PIO_read`. -/
def pioRead (file : File) (number : Nat) : Option Page :=
  if number < file.size then some (file.page number) else none

/-- `PIO_write`, as it leaves the file. -/
def pioWrite (file : File) (number : Nat) (content : Page) : Outcome → File
  | .written => file.set number content
  | .failed none => file
  | .failed (some left) => file.set number left

end File

/-! ## The state of a process -/

/-- `AllocItemTree`, from database pages to difference pages. -/
abbrev AllocItemTree := Nat → Option Nat

/-- `add`, which refuses a key that is there. -/
def AllocItemTree.add (table : AllocItemTree) (db_page diff_page : Nat) : AllocItemTree × Bool :=
  match table db_page with
  | some _ => (table, false)
  | none => (Function.update table db_page (some diff_page), true)

/-- `lck_physical` of the allocation lock. -/
inductive LockLevel where
  | none
  | read
  | write
  deriving DecidableEq, Repr

/-- `BackupManager`, with the flag `DBB_bugcheck` of its database. -/
structure BackupManager where
  alloc_table : Option AllocItemTree
  alloc_buffer : Page
  last_allocated_page : Nat
  allocIsValid : Bool
  lck_physical : LockLevel
  dbb_bugcheck : Bool

/-- The bits of `value & ~mask`, the mask being a `size_t`. -/
def clearBits (value mask : Nat) : Nat := value &&& (2 ^ 64 - 1 - mask)

namespace BackupManager

variable (size : PageSize)

/-- The pointer page of `last_allocated_page`. -/
def pointerPage (manager : BackupManager) : Nat :=
  clearBits manager.last_allocated_page size.pagesPerAllocPage

/-- The entries of a pointer page from index `from` on. -/
def addItems (page : Page) (pointer : Nat) : AllocItemTree → Nat → Nat → AllocItemTree × Bool
  | table, _, 0 => (table, true)
  | table, start, left + 1 =>
      match table.add (page (start + 1)) (ulong (pointer + start + 1)) with
      | (same, false) => (same, false)
      | (longer, true) => addItems page pointer longer (start + 1) left

/-- The loop of `actualizeAlloc`; every turn reads one pointer page. -/
def actualizeLoop (file : File) (haveGlobalLock : Bool) :
    Nat → BackupManager → AllocItemTree → BackupManager × Bool
  | 0, manager, table => ({ manager with alloc_table := some table }, false)
  | turns + 1, manager, table =>
      let pointer := manager.pointerPage size
      match file.pioRead pointer with
      | none => ({ manager with alloc_table := some table }, false)
      | some page =>
          let manager := { manager with alloc_buffer := page }
          -- the last page of the table could be modified concurrently
          if !haveGlobalLock && page 0 != size.pagesPerAllocPage then
            ({ manager with
                alloc_table := some table
                allocIsValid := haveGlobalLock }, true)
          else
            let start := manager.last_allocated_page - pointer
            match addItems page pointer table start (page 0 - start) with
            | (part, false) =>
                ({ manager with
                    alloc_table := some part
                    dbb_bugcheck := true }, false)
            | (longer, true) =>
                let last := ulong (pointer + page 0)
                if page 0 = size.pagesPerAllocPage then
                  actualizeLoop file haveGlobalLock turns
                    { manager with last_allocated_page := ulong (last + 1) } longer
                else
                  ({ manager with
                      alloc_table := some longer
                      last_allocated_page := last
                      allocIsValid := haveGlobalLock }, true)

/-- `actualizeAlloc`. -/
def actualizeAlloc (file : File) (manager : BackupManager) (haveGlobalLock : Bool) :
    BackupManager × Bool :=
  actualizeLoop size file haveGlobalLock (file.size + 1) manager
    (manager.alloc_table.getD fun _ => none)

/-- `findPageIndex`. -/
def findPageIndex (manager : BackupManager) (db_page : Nat) : Nat :=
  match manager.alloc_table with
  | none => 0
  | some table => (table db_page).getD 0

/-- `NBackupAllocLock::fetch`: `ERR_bugcheck_msg` when the table cannot be brought up to date. -/
def fetch (file : File) (manager : BackupManager) : BackupManager :=
  match actualizeAlloc size file manager true with
  | (manager, true) => manager
  | (manager, false) => { manager with dbb_bugcheck := true }

/-- The end of `allocateDifferencePage`: what follows when both locks are held and the page is not
in the table. -/
def extend (file : File) (manager : BackupManager) (db_page : Nat)
    (grow pointer entry : Outcome) : File × BackupManager × Nat :=
  let last := manager.last_allocated_page
  -- Grow file first, to keep it consistent in case of write error.
  let file := file.pioWrite (ulong (last + 1)) emptyBuffer grow
  if !grow.succeeds then (file, manager, 0)
  else
    let full := manager.alloc_buffer 0 = size.words - 2
    let file := if full then file.pioWrite (ulong (last + 2)) emptyBuffer pointer else file
    if full ∧ !pointer.succeeds then (file, manager, 0)
    else
      -- Write new item to the allocation table
      let count := manager.alloc_buffer 0 + 1
      let alloc_buffer := Function.update (Function.update manager.alloc_buffer 0 count) count db_page
      let file := file.pioWrite (manager.pointerPage size) alloc_buffer entry
      let manager := { manager with alloc_buffer := alloc_buffer }
      if !entry.succeeds then (file, manager, 0)
      else
        let last := ulong (last + 1)
        let manager :=
          { manager with
            last_allocated_page := last
            alloc_table := manager.alloc_table.map fun table => (table.add db_page last).1 }
        if full then
          (file, { manager with last_allocated_page := ulong (last + 1), alloc_buffer := emptyBuffer },
            last)
        else (file, manager, last)

end BackupManager

/-! ## Several processes -/

/-- The difference file and the processes that use it. -/
structure System (Process : Type*) where
  diff_file : File
  process : Process → BackupManager

/-- What a process does. -/
inductive Action (Process : Type*) where
  /-- `allocateDifferencePage`, with how its three writes end. -/
  | allocateDifferencePage (who : Process) (db_page : Nat) (grow pointer entry : Outcome)
  /-- `getPageIndex`. -/
  | getPageIndex (who : Process) (db_page : Nat)
  /-- `actualizeAlloc` without the global lock, from `initializeAlloc` and `extendDatabase`. -/
  | actualizeAlloc (who : Process)
  /-- `writeDifference` to the page that the table gives. -/
  | writeDifference (who : Process) (db_page : Nat) (content : Page) (outcome : Outcome)
  /-- The cached global lock is given up, by a blocking AST or the end of a call. -/
  | releaseLock (who : Process)
  /-- The cached write lock becomes a read lock. -/
  | downgradeLock (who : Process)

namespace System

variable {Process : Type*} [Fintype Process] [DecidableEq Process]
variable (size : PageSize) (system : System Process)

/-- The system with the state of one process replaced. -/
def set (who : Process) (manager : BackupManager) : System Process where
  diff_file := system.diff_file
  process := Function.update system.process who manager

/-- No other process has the global lock at one of the levels. -/
def othersBelow (who : Process) (level : LockLevel) : Prop :=
  ∀ other, other ≠ who →
    (system.process other).lck_physical = .none ∨
      (level = .read ∧ (system.process other).lck_physical = .read)

instance (who : Process) (level : LockLevel) : Decidable (system.othersBelow who level) :=
  inferInstanceAs (Decidable (∀ _, _))

/-- `LCK_lock` followed by `fetch`, `none` while another process holds the lock. -/
def lockAndFetch (who : Process) (level : LockLevel) : Option (System Process) :=
  if system.othersBelow who level then
    some (system.set who
      { (system.process who).fetch size system.diff_file with lck_physical := level })
  else none

/-- `GlobalRWLock::lockWrite` of the allocation lock; a lock of a lower level is released first. -/
def lockWrite (who : Process) : Option (System Process) :=
  if (system.process who).lck_physical = .write then some system
  else system.lockAndFetch size who .write

/-- `GlobalRWLock::lockRead` of the allocation lock. -/
def lockRead (who : Process) : Option (System Process) :=
  if (system.process who).lck_physical = .none then system.lockAndFetch size who .read
  else some system

/-- `allocateDifferencePage`, `none` while it waits for the global lock. -/
def allocateDifferencePage (who : Process) (db_page : Nat) (grow pointer entry : Outcome) :
    Option (System Process × Nat) :=
  if (system.process who).findPageIndex db_page ≠ 0 then
    some (system, (system.process who).findPageIndex db_page)
  else
    (system.lockWrite size who).map fun system =>
      let manager := system.process who
      if manager.dbb_bugcheck then (system, 0)
      -- This page may be allocated by other process
      else if manager.findPageIndex db_page ≠ 0 then (system, manager.findPageIndex db_page)
      else
        let (file, manager, diff_page) :=
          manager.extend size system.diff_file db_page grow pointer entry
        ({ (system.set who manager) with diff_file := file }, diff_page)

/-- `getPageIndex` while the database is locked for backup. -/
def getPageIndex (who : Process) (db_page : Nat) : Option (System Process × Nat) :=
  if (system.process who).findPageIndex db_page ≠ 0 then
    some (system, (system.process who).findPageIndex db_page)
  else
    (system.lockRead size who).map fun system =>
      (system, (system.process who).findPageIndex db_page)

/-- One step of the system, `none` while it has to wait. -/
def perform : Action Process → Option (System Process)
  | .allocateDifferencePage who db_page grow pointer entry =>
      (system.allocateDifferencePage size who db_page grow pointer entry).map (·.1)
  | .getPageIndex who db_page => (system.getPageIndex size who db_page).map (·.1)
  | .actualizeAlloc who =>
      some (system.set who
        ((system.process who).actualizeAlloc size system.diff_file false).1)
  | .writeDifference who db_page content outcome =>
      match (system.process who).findPageIndex db_page with
      | 0 => some system
      | diff_page + 1 =>
          some
            { system with
              diff_file := system.diff_file.pioWrite (diff_page + 1) content outcome }
  | .releaseLock who =>
      some (system.set who
        { system.process who with
          lck_physical := .none
          allocIsValid := false })
  | .downgradeLock who =>
      match (system.process who).lck_physical with
      | .write => some (system.set who { system.process who with lck_physical := .read })
      | _ => some system

/-- The actions one after the other. -/
def run (system : System Process) (actions : List (Action Process)) : Option (System Process) :=
  actions.foldlM (·.perform size) system

end System

end DifferenceFile
end Firebird
