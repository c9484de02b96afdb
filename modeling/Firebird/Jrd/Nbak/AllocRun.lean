import Firebird.Jrd.Nbak.AllocExtend

/-!
# Runs of several processes on one difference file

The log in the file only grows.  Every process knows a part of it from the front, and a process with
the global lock knows all of it.
-/

namespace Firebird
namespace DifferenceFile

open BlockedLog (position assigned)
open BackupManager (Knows Current Permitted)

variable {Process : Type*} {size : PageSize}

/-- A process that has no table yet. -/
def BackupManager.fresh : BackupManager where
  alloc_table := none
  alloc_buffer := emptyBuffer
  last_allocated_page := 0
  allocIsValid := false
  lck_physical := .none
  dbb_bugcheck := false

/-- The table that a process rebuilds from the file. -/
def rebuilt (size : PageSize) (file : File) : Option AllocItemTree :=
  match BackupManager.fresh.actualizeAlloc size file true with
  | (manager, true) => manager.alloc_table
  | (_, false) => none

/-- The database was just locked for backup: the first page is zeroed out. -/
structure Begun (system : System Process) : Prop where
  size_eq : system.diff_file.size = 1
  empty : system.diff_file.page 0 = emptyBuffer
  table : ∀ who, (system.process who).alloc_table = none
  last : ∀ who, (system.process who).last_allocated_page = 0
  lock : ∀ who, (system.process who).lck_physical = .none
  sound : ∀ who, (system.process who).dbb_bugcheck = false

/-- The buffer, the last allocated page and the table of a process agree with each other and with
the file. -/
structure Consistent (size : PageSize) (file : File) (manager : BackupManager) : Prop where
  /-- The assertion of `allocateDifferencePage`. -/
  count : manager.last_allocated_page % size.words = manager.alloc_buffer 0
  buffer : file.pioRead (manager.pointerPage size) = some manager.alloc_buffer
  table : manager.alloc_table = rebuilt size file

/-! ## One step -/

/-- The system uses the log `pages`. -/
structure Sound (size : PageSize) (system : System Process) (pages : List Nat) : Prop where
  holds : Holds size system.diff_file pages
  nodup : pages.Nodup
  small : position size.pagesPerAllocPage pages.length < 2 ^ 32
  knows : ∀ who, ∃ known, Knows size pages known (system.process who)
  current : ∀ who, (system.process who).lck_physical ≠ .none →
    Current size system.diff_file pages (system.process who)
  exclusive : ∀ who other, other ≠ who → (system.process who).lck_physical = .write →
    (system.process other).lck_physical = .none

namespace BackupManager

theorem Knows.longer {pages longer : List Nat} {known : Nat} {manager : BackupManager}
    (knows : Knows size pages known manager) (begins : pages <+: longer) :
    Knows size longer known manager := by
  refine ⟨knows.known_le.trans begins.length_le, ?_, knows.last, knows.sound⟩
  obtain ⟨more, rfl⟩ := begins
  rw [knows.table, List.take_append_of_le_length knows.known_le]

theorem Knows.withLock {pages : List Nat} {known : Nat} {manager : BackupManager}
    (knows : Knows size pages known manager) (level : LockLevel) (valid : Bool) :
    Knows size pages known { manager with lck_physical := level, allocIsValid := valid } :=
  ⟨knows.known_le, knows.table, knows.last, knows.sound⟩

theorem Current.withLock {file : File} {pages : List Nat} {manager : BackupManager}
    (current : Current size file pages manager) (level : LockLevel) (valid : Bool) :
    Current size file pages { manager with lck_physical := level, allocIsValid := valid } :=
  ⟨current.table, current.buffer, current.last, current.sound⟩

theorem Knows.findPageIndex_eq {pages : List Nat} {known : Nat} {manager : BackupManager}
    (knows : Knows size pages known manager) (db_page : Nat) :
    manager.findPageIndex db_page =
      (assigned size.pagesPerAllocPage (pages.take known) db_page).getD 0 := by
  rw [← knows.table, BackupManager.findPageIndex]
  cases manager.alloc_table with
  | none => rfl
  | some table => rfl

theorem Knows.assigned_of_found {pages : List Nat} {known : Nat} {manager : BackupManager}
    (knows : Knows size pages known manager) {db_page : Nat}
    (found : manager.findPageIndex db_page ≠ 0) :
    assigned size.pagesPerAllocPage pages db_page = some (manager.findPageIndex db_page) := by
  rw [knows.findPageIndex_eq] at found ⊢
  rcases given : assigned size.pagesPerAllocPage (pages.take known) db_page with _ | number
  · rw [given] at found
    exact absurd rfl found
  · exact BlockedLog.assigned_of_prefix (List.take_prefix known pages) given

theorem Current.findPageIndex_eq {file : File} {pages : List Nat} {manager : BackupManager}
    (current : Current size file pages manager) (db_page : Nat) :
    manager.findPageIndex db_page = (assigned size.pagesPerAllocPage pages db_page).getD 0 := by
  rw [current.knows.findPageIndex_eq, List.take_length]

theorem Current.notMem_of_not_found {file : File} {pages : List Nat} {manager : BackupManager}
    (current : Current size file pages manager) {db_page : Nat}
    (missing : manager.findPageIndex db_page = 0) : db_page ∉ pages := by
  rw [current.findPageIndex_eq] at missing
  rcases given : assigned size.pagesPerAllocPage pages db_page with _ | number
  · exact BlockedLog.assigned_eq_none_iff.mp given
  · obtain ⟨index, -, rfl⟩ := BlockedLog.exists_of_assigned given
    rw [given] at missing
    exact absurd missing (Nat.succ_ne_zero _)

end BackupManager

namespace Sound

variable {system : System Process} {pages : List Nat}

/-- The level of the lock that a process has does not rise. -/
theorem granted_of_held (sound : Sound size system pages) {who other : Process}
    (differs : other ≠ who) (held : (system.process who).lck_physical ≠ .none) :
    (system.process other).lck_physical = .none ∨
      ((system.process who).lck_physical = .read ∧
        (system.process other).lck_physical = .read) := by
  rcases level : (system.process who).lck_physical with _ | _ | _
  · exact absurd level held
  · rcases other_level : (system.process other).lck_physical with _ | _ | _
    · exact Or.inl rfl
    · exact Or.inr ⟨rfl, rfl⟩
    · have none := sound.exclusive other who differs.symm other_level
      rw [none] at level
      exact absurd level (by decide)
  · exact Or.inl (sound.exclusive who other differs level)

/-- Pages written for the database never are pointer pages. -/
theorem writeDifference (sound : Sound size system pages) {who : Process} {db_page : Nat}
    (content : Page) (outcome : Outcome)
    (found : (system.process who).findPageIndex db_page ≠ 0) :
    Sound size
      { system with
        diff_file := system.diff_file.pioWrite
          ((system.process who).findPageIndex db_page) content outcome } pages := by
  obtain ⟨known, knows⟩ := sound.knows who
  have given := knows.assigned_of_found found
  have other : ∀ block,
      (system.process who).findPageIndex db_page ≠ size.words * block := by
    intro block same
    refine BlockedLog.assigned_mod_ne_zero size.room_pos given ?_
    rw [same, size.words_eq_succ, Nat.mul_mod_right]
  exact ⟨sound.holds.pioWrite_other content outcome fun block _ => other block, sound.nodup,
    sound.small, sound.knows,
    fun holder held => (sound.current holder held).pioWrite_other content outcome (other _),
    sound.exclusive⟩

variable [DecidableEq Process]

/-- A process may move within what it knows. -/
theorem set (sound : Sound size system pages) (who : Process) {manager : BackupManager}
    {known : Nat} (knows : Knows size pages known manager)
    (current : manager.lck_physical ≠ .none → Current size system.diff_file pages manager)
    (granted : manager.lck_physical ≠ .none → ∀ other, other ≠ who →
      (system.process other).lck_physical = .none ∨
        (manager.lck_physical = .read ∧ (system.process other).lck_physical = .read)) :
    Sound size (system.set who manager) pages := by
  refine ⟨sound.holds, sound.nodup, sound.small, fun other => ?_, fun other locked => ?_,
    fun first second differs writes => ?_⟩
  · rcases eq_or_ne other who with rfl | differs
    · exact ⟨known, by simpa only [System.set, Function.update_self] using knows⟩
    · simpa only [System.set, Function.update_of_ne differs] using sound.knows other
  · rcases eq_or_ne other who with rfl | differs
    · simp only [System.set, Function.update_self] at locked ⊢
      exact current locked
    · simp only [System.set, Function.update_of_ne differs] at locked ⊢
      exact sound.current other locked
  · rcases eq_or_ne first who with rfl | first_other
    · simp only [System.set, Function.update_self, Function.update_of_ne differs] at writes ⊢
      rcases granted (by rw [writes]; decide) second differs with none | ⟨reads, -⟩
      · exact none
      · rw [writes] at reads
        exact absurd reads (by decide)
    · simp only [System.set, Function.update_of_ne first_other] at writes
      rcases eq_or_ne second who with rfl | second_other
      · simp only [System.set, Function.update_self]
        by_contra locked
        rcases granted locked first differs.symm with none | ⟨-, reads⟩
        · rw [none] at writes
          exact absurd writes (by decide)
        · rw [reads] at writes
          exact absurd writes (by decide)
      · simp only [System.set, Function.update_of_ne second_other]
        exact sound.exclusive first second differs writes

/-- Without the global lock a table still only grows. -/
theorem actualizeAlloc (sound : Sound size system pages) (who : Process) :
    Sound size
      (system.set who ((system.process who).actualizeAlloc size system.diff_file false).1) pages := by
  obtain ⟨known, knows⟩ := sound.knows who
  have unlocked := knows.actualizeAlloc_unlocked sound.holds sound.nodup sound.small
  have result := knows.actualizeAlloc_eq sound.holds sound.nodup sound.small false
  have level_eq : ((system.process who).actualizeAlloc size system.diff_file false).1.lck_physical =
      (system.process who).lck_physical := by rw [result]
  refine sound.set who unlocked (fun held => ?_) fun held other differs => ?_
  · rw [level_eq] at held
    have current := sound.current who held
    have reach_eq : BackupManager.reach size false pages.length pages.length = pages.length := by
      rw [BackupManager.reach, if_neg (by decide), max_eq_left (Nat.mul_div_le _ _)]
    rw [current.knows.actualizeAlloc_eq sound.holds sound.nodup sound.small false, reach_eq,
      List.take_length]
    exact ⟨rfl, rfl, rfl, current.sound⟩
  · rw [level_eq] at held ⊢
    exact sound.granted_of_held differs held

variable [Fintype Process]

theorem lockAndFetch (sound : Sound size system pages) {who : Process} {level : LockLevel}
    {locked : System Process} (granted : system.lockAndFetch size who level = some locked) :
    Sound size locked pages ∧ locked.diff_file = system.diff_file ∧
      Current size system.diff_file pages (locked.process who) ∧
      (locked.process who).lck_physical = level := by
  unfold System.lockAndFetch at granted
  split at granted
  · rename_i below
    obtain rfl := Option.some.inj granted
    obtain ⟨known, knows⟩ := sound.knows who
    have current := (knows.current_fetch sound.holds sound.nodup sound.small).withLock level
      ((system.process who).fetch size system.diff_file).allocIsValid
    refine ⟨sound.set who current.knows (fun _ => current) fun _ => below, rfl, ?_, ?_⟩
    · simpa only [System.set, Function.update_self] using current
    · simp only [System.set, Function.update_self]
  · exact absurd granted (by simp)

theorem lockWrite (sound : Sound size system pages) {who : Process} {locked : System Process}
    (granted : system.lockWrite size who = some locked) :
    Sound size locked pages ∧ locked.diff_file = system.diff_file ∧
      Current size system.diff_file pages (locked.process who) ∧
      (locked.process who).lck_physical = .write := by
  unfold System.lockWrite at granted
  split at granted
  · rename_i level
    obtain rfl := Option.some.inj granted
    exact ⟨sound, rfl, sound.current who (by rw [level]; decide), level⟩
  · exact sound.lockAndFetch granted

theorem lockRead (sound : Sound size system pages) {who : Process} {locked : System Process}
    (granted : system.lockRead size who = some locked) :
    Sound size locked pages ∧ Current size locked.diff_file pages (locked.process who) := by
  unfold System.lockRead at granted
  split at granted
  · obtain ⟨next, file_eq, current, -⟩ := sound.lockAndFetch granted
    rw [← file_eq] at current
    exact ⟨next, current⟩
  · rename_i level
    obtain rfl := Option.some.inj granted
    exact ⟨sound, sound.current who level⟩

end Sound

variable [Fintype Process] [DecidableEq Process]

/-- If the step is an allocation that comes to write, the writes end in a permitted way. -/
def Careful (size : PageSize) (system : System Process) : Action Process → Prop
  | .allocateDifferencePage who db_page grow pointer entry =>
      ∀ locked, system.lockWrite size who = some locked →
        (system.process who).findPageIndex db_page = 0 →
        (locked.process who).findPageIndex db_page = 0 →
        Permitted size (locked.process who) grow pointer entry
  | _ => True

/-- Every step of the run is careful. -/
def CarefulRun (size : PageSize) : System Process → List (Action Process) → Prop
  | _, [] => True
  | system, action :: rest =>
      Careful size system action ∧
        ∀ next, system.perform size action = some next → CarefulRun size next rest

namespace Sound

variable {system next : System Process} {pages : List Nat}

theorem allocateDifferencePage (sound : Sound size system pages) {who : Process} {db_page : Nat}
    {grow pointer entry : Outcome} {diff_page : Nat}
    (careful : Careful size system (.allocateDifferencePage who db_page grow pointer entry))
    (done : system.allocateDifferencePage size who db_page grow pointer entry =
      some (next, diff_page)) :
    ∃ longer, pages <+: longer ∧ Sound size next longer ∧
      (diff_page ≠ 0 → assigned size.pagesPerAllocPage longer db_page = some diff_page) := by
  unfold System.allocateDifferencePage at done
  split at done
  · -- found while only the local lock is held
    rename_i found
    obtain ⟨rfl, rfl⟩ := Prod.mk.inj (Option.some.inj done)
    obtain ⟨known, knows⟩ := sound.knows who
    exact ⟨pages, List.prefix_rfl, sound, fun _ => knows.assigned_of_found found⟩
  · rename_i missing
    obtain ⟨locked, granted, result_eq⟩ := Option.map_eq_some_iff.mp done
    obtain ⟨locked_sound, file_eq, current, level⟩ := sound.lockWrite granted
    simp only [current.sound, Bool.false_eq_true, if_false] at result_eq
    split at result_eq
    · -- allocated by another process meanwhile
      rename_i found
      obtain ⟨rfl, rfl⟩ := Prod.mk.inj result_eq
      exact ⟨pages, List.prefix_rfl, locked_sound,
        fun _ => current.knows.assigned_of_found found⟩
    · rename_i missing_again
      obtain ⟨rfl, rfl⟩ := Prod.mk.inj result_eq
      have absent := not_not.mp missing_again
      obtain ⟨longer, extended⟩ := current.extend sound.holds sound.nodup sound.small
        (current.notMem_of_not_found absent)
        (careful locked granted (not_not.mp missing) absent)
      rw [← file_eq] at extended
      have others (other : Process) (differs : other ≠ who) :
          (locked.process other).lck_physical = .none :=
        locked_sound.exclusive who other differs level
      refine ⟨longer, extended.begins, ⟨extended.holds, extended.nodup, extended.small,
        fun other => ?_, fun other held => ?_, fun first second differs writes => ?_⟩,
        extended.given⟩
      · rcases eq_or_ne other who with rfl | differs
        · exact ⟨longer.length,
            by simpa only [System.set, Function.update_self] using extended.current.knows⟩
        · obtain ⟨known, knows⟩ := locked_sound.knows other
          refine ⟨known, ?_⟩
          simpa only [System.set, Function.update_of_ne differs] using
            knows.longer extended.begins
      · rcases eq_or_ne other who with rfl | differs
        · simpa only [System.set, Function.update_self] using extended.current
        · simp only [System.set, Function.update_of_ne differs] at held
          exact absurd (others other differs) held
      · rcases eq_or_ne first who with rfl | first_other
        · simpa only [System.set, Function.update_of_ne differs] using others second differs
        · simp only [System.set, Function.update_of_ne first_other] at writes
          rw [others first first_other] at writes
          exact absurd writes (by decide)

theorem getPageIndex (sound : Sound size system pages) {who : Process} {db_page diff_page : Nat}
    (done : system.getPageIndex size who db_page = some (next, diff_page)) :
    Sound size next pages ∧
      diff_page = (assigned size.pagesPerAllocPage pages db_page).getD 0 := by
  unfold System.getPageIndex at done
  split at done
  · rename_i found
    obtain ⟨rfl, rfl⟩ := Prod.mk.inj (Option.some.inj done)
    obtain ⟨known, knows⟩ := sound.knows who
    rw [knows.assigned_of_found found]
    exact ⟨sound, rfl⟩
  · obtain ⟨locked, granted, result_eq⟩ := Option.map_eq_some_iff.mp done
    obtain ⟨locked_sound, current⟩ := sound.lockRead granted
    obtain ⟨rfl, rfl⟩ := Prod.mk.inj result_eq
    exact ⟨locked_sound, current.findPageIndex_eq db_page⟩

theorem perform (sound : Sound size system pages) {action : Action Process}
    (careful : Careful size system action) (done : system.perform size action = some next) :
    ∃ longer, pages <+: longer ∧ Sound size next longer := by
  cases action with
  | allocateDifferencePage who db_page grow pointer entry =>
      obtain ⟨⟨after, diff_page⟩, call, rfl⟩ := Option.map_eq_some_iff.mp done
      obtain ⟨longer, begins, sound, -⟩ := sound.allocateDifferencePage careful call
      exact ⟨longer, begins, sound⟩
  | getPageIndex who db_page =>
      obtain ⟨⟨after, diff_page⟩, call, rfl⟩ := Option.map_eq_some_iff.mp done
      exact ⟨pages, List.prefix_rfl, (sound.getPageIndex call).1⟩
  | actualizeAlloc who =>
      obtain rfl := Option.some.inj done
      exact ⟨pages, List.prefix_rfl, sound.actualizeAlloc who⟩
  | writeDifference who db_page content outcome =>
      refine ⟨pages, List.prefix_rfl, ?_⟩
      rcases index_eq : (system.process who).findPageIndex db_page with _ | diff_page
      · simp only [System.perform, index_eq] at done
        obtain rfl := Option.some.inj done
        exact sound
      · have written := sound.writeDifference content outcome
          (by rw [index_eq]; exact Nat.succ_ne_zero _ :
            (system.process who).findPageIndex db_page ≠ 0)
        simp only [System.perform, index_eq] at done
        obtain rfl := Option.some.inj done
        rwa [index_eq] at written
  | releaseLock who =>
      obtain rfl := Option.some.inj done
      obtain ⟨known, knows⟩ := sound.knows who
      exact ⟨pages, List.prefix_rfl, sound.set who (knows.withLock .none false)
        (fun held => absurd rfl held) fun held => absurd rfl held⟩
  | downgradeLock who =>
      refine ⟨pages, List.prefix_rfl, ?_⟩
      rcases level : (system.process who).lck_physical with _ | _ | _
      · simp only [System.perform, level] at done
        obtain rfl := Option.some.inj done
        exact sound
      · simp only [System.perform, level] at done
        obtain rfl := Option.some.inj done
        exact sound
      · simp only [System.perform, level] at done
        obtain rfl := Option.some.inj done
        have current := sound.current who (by rw [level]; decide)
        have lowered := current.withLock .read (system.process who).allocIsValid
        exact sound.set who lowered.knows (fun _ => lowered)
          fun _ other differs => Or.inl (sound.exclusive who other differs level)

/-! ## Runs -/

theorem run {actions : List (Action Process)} (sound : Sound size system pages)
    (careful : CarefulRun size system actions) (done : system.run size actions = some next) :
    ∃ longer, pages <+: longer ∧ Sound size next longer := by
  induction actions generalizing system pages with
  | nil =>
      obtain rfl := Option.some.inj done
      exact ⟨pages, List.prefix_rfl, sound⟩
  | cons action rest ih =>
      obtain ⟨middle, step, remaining⟩ := Option.bind_eq_some_iff.mp done
      obtain ⟨longer, begins, middle_sound⟩ := sound.perform careful.1 step
      obtain ⟨longest, continues, next_sound⟩ := ih middle_sound (careful.2 middle step) remaining
      exact ⟨longest, begins.trans continues, next_sound⟩

omit [Fintype Process] [DecidableEq Process] in
theorem rebuilt_eq (sound : Sound size system pages) :
    rebuilt size system.diff_file = some (assigned size.pagesPerAllocPage pages) := by
  have knows : Knows size pages 0 BackupManager.fresh :=
    ⟨Nat.zero_le _, by rw [List.take_zero, BlockedLog.assigned_nil]; rfl,
      (BlockedLog.position_zero _).symm, rfl⟩
  have reach_eq : BackupManager.reach size true pages.length 0 = pages.length := if_pos rfl
  rw [rebuilt, knows.actualizeAlloc_eq sound.holds sound.nodup sound.small true, reach_eq,
    List.take_length]

omit [Fintype Process] [DecidableEq Process] in
theorem consistent_of_held (sound : Sound size system pages) {who : Process}
    (held : (system.process who).lck_physical ≠ .none) :
    Consistent size system.diff_file (system.process who) := by
  have current := sound.current who held
  refine ⟨?_, ?_, ?_⟩
  · rw [current.last, current.buffer, sound.holds.count_last, size.words_eq_succ,
      BlockedLog.position_mod size.room_pos]
  · rw [pointerPage_eq current.last sound.small, sound.holds.pioRead_eq le_rfl, current.buffer]
  · rw [current.table, sound.rebuilt_eq]

end Sound

omit [Fintype Process] [DecidableEq Process] in
theorem Begun.sound_start {system : System Process} (begun : Begun system) : Sound size system [] := by
  refine ⟨⟨fun block le => ?_, fun block le => ?_, fun index db_page here => ?_⟩,
    List.nodup_nil, ?_, fun who => ⟨0, Nat.zero_le _, ?_, ?_, begun.sound who⟩,
    fun who held => absurd (begun.lock who) held, fun who other _ writes => ?_⟩
  · obtain rfl : block = 0 := by simpa using le
    rw [Nat.mul_zero, begun.size_eq]
    exact Nat.one_pos
  · obtain rfl : block = 0 := by simpa using le
    rw [Nat.mul_zero, begun.empty, List.length_nil, Nat.zero_sub, Nat.min_zero, emptyBuffer]
  · exact absurd here (by simp)
  · rw [List.length_nil, BlockedLog.position_zero]
    exact Nat.two_pow_pos 32
  · rw [begun.table who, List.take_nil, BlockedLog.assigned_nil, Option.getD_none]
  · rw [begun.last who, BlockedLog.position_zero]
  · exact begun.lock other

theorem CarefulRun.of_append {system middle : System Process} {first later : List (Action Process)}
    (careful : CarefulRun size system (first ++ later))
    (done : system.run size first = some middle) :
    CarefulRun size system first ∧ CarefulRun size middle later := by
  induction first generalizing system with
  | nil =>
      obtain rfl := Option.some.inj done
      exact ⟨trivial, careful⟩
  | cons action rest ih =>
      obtain ⟨next, step, remaining⟩ := Option.bind_eq_some_iff.mp done
      have split := ih (careful.2 next step) remaining
      refine ⟨⟨careful.1, fun other there => ?_⟩, split.2⟩
      obtain rfl : next = other := Option.some.inj (step.symm.trans there)
      exact split.1

/-- As long as no write of a pointer page fails in an allocation that comes to it, the file holds
one table, which every process agrees with and which only grows. -/
theorem allocated_of_careful {start system next : System Process} (begun : Begun start)
    {actions later : List (Action Process)} (careful : CarefulRun size start (actions ++ later))
    (reached : start.run size actions = some system)
    (continued : system.run size later = some next) :
    ∃ table nextTable, rebuilt size system.diff_file = some table ∧
      rebuilt size next.diff_file = some nextTable ∧
      (∀ first second diff_page, table first = some diff_page → table second = some diff_page →
        first = second) ∧
      (∀ db_page diff_page, table db_page = some diff_page → diff_page % size.words ≠ 0) ∧
      (∀ who known db_page diff_page, (system.process who).alloc_table = some known →
        known db_page = some diff_page → table db_page = some diff_page) ∧
      (∀ db_page diff_page, table db_page = some diff_page →
        nextTable db_page = some diff_page) ∧
      (∀ who, (system.process who).lck_physical ≠ .none →
        Consistent size system.diff_file (system.process who)) ∧
      (∀ who db_page grow pointer entry after diff_page,
        Careful size system (.allocateDifferencePage who db_page grow pointer entry) →
        system.allocateDifferencePage size who db_page grow pointer entry =
          some (after, diff_page) → diff_page ≠ 0 →
        ∃ afterTable, rebuilt size after.diff_file = some afterTable ∧
          afterTable db_page = some diff_page) := by
  obtain ⟨first_careful, later_careful⟩ := careful.of_append reached
  have start_sound : Sound size start [] := begun.sound_start
  obtain ⟨pages, -, sound⟩ := start_sound.run first_careful reached
  obtain ⟨longer, begins, next_sound⟩ := sound.run later_careful continued
  refine ⟨_, _, sound.rebuilt_eq, next_sound.rebuilt_eq,
    fun first second diff_page => BlockedLog.assigned_injective, fun db_page diff_page given => ?_,
    fun who known db_page diff_page known_eq given => ?_,
    fun db_page diff_page => BlockedLog.assigned_of_prefix begins,
    fun who held => sound.consistent_of_held held,
    fun who db_page grow pointer entry after diff_page careful done nonzero => ?_⟩
  · rw [size.words_eq_succ]
    exact BlockedLog.assigned_mod_ne_zero size.room_pos given
  · obtain ⟨count, knows⟩ := sound.knows who
    have table_eq := knows.table
    rw [known_eq, Option.getD_some] at table_eq
    rw [table_eq] at given
    exact BlockedLog.assigned_of_prefix (List.take_prefix count pages) given
  · obtain ⟨more, -, after_sound, given⟩ := sound.allocateDifferencePage careful done
    exact ⟨_, after_sound.rebuilt_eq, given nonzero⟩

/-- Pages of 4096 bytes. -/
def smallPages : PageSize := ⟨12, by decide, by decide⟩

/-- Two processes just after the database was locked for backup. -/
def justLocked : System (Fin 2) where
  diff_file := ⟨1, fun _ => emptyBuffer⟩
  process _ := BackupManager.fresh

theorem begun_justLocked : Begun justLocked :=
  ⟨rfl, rfl, fun _ => rfl, fun _ => rfl, fun _ => rfl, fun _ => rfl⟩

/-- Two processes allocate one page each; the first write of the second one fails once. -/
theorem twoProcesses_allocated :
    ∃ system : System (Fin 2),
      justLocked.run smallPages
        [.allocateDifferencePage 0 7 .written .written .written, .releaseLock 0,
          .allocateDifferencePage 1 9 (.failed none) .written .written] = some system ∧
      ∃ table, rebuilt smallPages system.diff_file = some table ∧ table 7 = some 1 ∧
        ∀ who known db_page diff_page, (system.process who).alloc_table = some known →
          known db_page = some diff_page → table db_page = some diff_page := by
  have careful : CarefulRun smallPages justLocked
      ([.allocateDifferencePage 0 7 .written .written .written, .releaseLock 0,
        .allocateDifferencePage 1 9 (.failed none) .written .written] ++ []) := by
    refine ⟨fun locked granted _ _ _ => ?_, fun next step => ⟨trivial, fun second released =>
      ⟨fun locked _ _ _ grown => absurd grown (by decide), fun _ _ => trivial⟩⟩⟩
    obtain rfl := Option.some.inj granted
    exact ⟨by decide, fun _ => rfl⟩
  obtain ⟨table, nextTable, table_eq, -, -, -, known, -⟩ :=
    allocated_of_careful begun_justLocked careful rfl rfl
  refine ⟨_, rfl, table, table_eq, ?_, known⟩
  obtain rfl := Option.some.inj table_eq
  decide

/-- A failed write of the pointer page leaves its entry in the buffer, and the next allocation
writes it after all: the process takes page 1 for what the file has at page 2. -/
theorem not_agreeing :
    ∃ (system : System (Fin 2)) (known table : AllocItemTree),
      justLocked.run smallPages
        [.allocateDifferencePage 0 7 .written .written (.failed none),
          .allocateDifferencePage 0 8 .written .written .written] = some system ∧
      (system.process 0).alloc_table = some known ∧
      rebuilt smallPages system.diff_file = some table ∧
      known 8 = some 1 ∧ table 8 = some 2 :=
  ⟨_, _, _, rfl, rfl, rfl, by decide, by decide⟩

end DifferenceFile
end Firebird
