import Firebird.Jrd.Tra.Sweep

/-!
# The invariant of sweeps

Back versions were written by committed transactions, and so was everything on a page marked as
swept.  What lies behind the sweep was written by committed transactions, by transactions not older
than the oldest active transaction of its start, or by those it has passed.
-/

namespace Firebird

namespace Start

open TransactionState

variable {tipBytes : Nat} {swept wider : Nat → Prop} {world after : World tipBytes}
  {number : Nat}

/-! ## What the actions of transactions do to the inventory -/

theorem Settled.weaken {inventory : Inventory} {limit : Nat}
    (settled : Settled swept inventory limit)
    (weaker : ∀ number, inventory.fetchState number = dead → swept number → wider number) :
    Settled wider inventory limit :=
  fun number positive below => (settled number positive below).imp_right fun ⟨is_dead, clear⟩ =>
    ⟨is_dead, weaker number is_dead clear⟩

theorem Coherent.weaken (coherent : Coherent swept world)
    (weaker : ∀ number, world.inventory.fetchState number = dead → swept number → wider number) :
    Coherent wider world := by
  refine ⟨coherent.oldest_pos, coherent.settled.weaken weaker, coherent.oldest_active,
    coherent.active_le, coherent.unborn, fun process => ?_, coherent.locks,
    fun number transaction held => ?_⟩
  · have informed := coherent.processes process
    exact ⟨informed.settled.weaken weaker, informed.oldest_active, informed.active_le,
      informed.cached, informed.precommitted⟩
  · have sane := coherent.transactions number transaction held
    exact ⟨sane.positive, sane.born, sane.alive, sane.oldest_pos, sane.oldest_le,
      sane.oldest_floor, sane.settled.weaken weaker, sane.floor_bound, sane.vector, sane.complete,
      sane.threshold, sane.lock⟩

theorem Interesting.weaken (interesting : Interesting swept world)
    (weaker : ∀ number, world.inventory.fetchState number = dead → swept number → wider number) :
    Interesting wider world :=
  ⟨interesting.header.weaken weaker, fun process => (interesting.processes process).weaken weaker,
    fun number transaction held => (interesting.transactions number transaction held).weaken weaker⟩

/-- The inventory after an action. -/
inductive Ends (inventory : Inventory) : Inventory → Prop where
  | same : Ends inventory inventory
  /-- A transaction that was active or in limbo has got a final state, or is in limbo. -/
  | set (number : Nat) (state : TransactionState) (ended : state ≠ active)
      (unsettled : Open inventory number) : Ends inventory (inventory.setState number state)

theorem bump_inventory {process : Nat} (bumped : world.bump process = some after) :
    after.inventory = world.inventory ∧
      world.hdr_next_transaction ≤ after.hdr_next_transaction := by
  rw [World.bump] at bumped
  split at bumped
  · cases bumped
    exact ⟨rfl, Nat.le_succ _⟩
  · cases bumped

theorem lookup_inventory {transaction : Transaction} {start : Nat} {cleanup : Bool}
    (looked : world.lookup number transaction start cleanup = some after) :
    after.inventory = world.inventory ∧
      after.hdr_next_transaction = world.hdr_next_transaction := by
  obtain ⟨cache, changed, rfl, -⟩ := lookup_oldest looked
  exact ⟨rfl, rfl⟩

theorem publish_inventory (world : World tipBytes) (number : Nat) (transaction : Transaction) :
    (world.publish number transaction).inventory = world.inventory ∧
      (world.publish number transaction).hdr_next_transaction = world.hdr_next_transaction := by
  obtain ⟨data, data_eq⟩ : ∃ data, (if transaction.readCommitted then number
    else transaction.oldest_active) = data := ⟨_, rfl⟩
  rw [World.publish]
  simp only [data_eq]
  split
  · exact ⟨rfl, rfl⟩
  · split <;> exact ⟨rfl, rfl⟩

/-- States change only of transactions that may still get a new one, and numbers are handed out in
increasing order. -/
theorem inventory_step (coherent : Coherent swept world) {action : Action}
    (taken : world.step action = some after) :
    Ends world.inventory after.inventory ∧
      world.hdr_next_transaction ≤ after.hdr_next_transaction := by
  cases action with
  | begin process readCommitted =>
      rw [World.step, World.begin, Option.map_eq_some_iff] at taken
      obtain ⟨bumped, bump, rfl⟩ := taken
      obtain ⟨same, later⟩ := bump_inventory bump
      refine ⟨?_, later⟩
      change Ends world.inventory bumped.inventory
      rw [same]
      exact .same
  | copy number =>
      rw [World.step] at taken
      split at taken
      · cases taken
      · rw [Option.ite_none_right_eq_some] at taken
        obtain ⟨-, made⟩ := taken
        cases made
        exact ⟨.same, Nat.le_refl _⟩
  | lookup number =>
      rw [World.step] at taken
      split at taken
      · cases taken
      · split at taken
        · obtain ⟨same, next⟩ := lookup_inventory taken
          rw [same, next]
          exact ⟨.same, Nat.le_refl _⟩
        · cases taken
  | query number =>
      rw [World.step] at taken
      split at taken
      · cases taken
      · rw [Option.ite_none_right_eq_some] at taken
        obtain ⟨-, made⟩ := taken
        cases made
        exact ⟨.same, Nat.le_refl _⟩
  | publish number =>
      rw [World.step] at taken
      split at taken
      · cases taken
      · rename_i transaction held
        rw [Option.ite_none_right_eq_some] at taken
        obtain ⟨-, made⟩ := taken
        cases made
        obtain ⟨same, next⟩ := publish_inventory world number transaction
        rw [same, next]
        exact ⟨.same, Nat.le_refl _⟩
  | interest number =>
      rw [World.step] at taken
      split at taken
      · cases taken
      · rw [Option.ite_none_right_eq_some, World.interest] at taken
        obtain ⟨-, interested⟩ := taken
        split at interested
        · cases interested
        · rename_i search
          obtain ⟨cache, rfl⟩ := World.findFirst_cache search
          cases interested
          exact ⟨.same, Nat.le_refl _⟩
  | finish number state =>
      rw [World.step, Option.ite_none_right_eq_some] at taken
      obtain ⟨⟨ended, alive⟩, made⟩ := taken
      cases made
      obtain ⟨transaction, held⟩ := Option.isSome_iff_exists.mp alive
      exact ⟨.set number state ended (.inl (coherent.transactions number transaction held).alive),
        Nat.le_refl _⟩
  | retain number state =>
      rw [World.step] at taken
      split at taken
      · cases taken
      · rename_i transaction held
        rw [Option.ite_none_right_eq_some, World.retain, Option.map_eq_some_iff] at taken
        obtain ⟨⟨-, final⟩, bumped, bump, rfl⟩ := taken
        obtain ⟨same, later⟩ := bump_inventory bump
        refine ⟨?_, later⟩
        change Ends world.inventory (bumped.inventory.setState number state)
        rw [same]
        refine .set number state ?_ (.inl (coherent.transactions number transaction held).alive)
        rcases final with rfl | rfl <;> exact TransactionState.noConfusion
  | release number =>
      rw [World.step, Option.ite_none_right_eq_some] at taken
      obtain ⟨-, made⟩ := taken
      cases made
      exact ⟨.same, Nat.le_refl _⟩
  | vanish number =>
      cases taken
      exact ⟨.same, Nat.le_refl _⟩
  | bury number =>
      rw [World.step, Option.ite_none_right_eq_some] at taken
      obtain ⟨⟨-, is_active⟩, made⟩ := taken
      cases made
      exact ⟨.set number dead TransactionState.noConfusion (.inl is_active), Nat.le_refl _⟩
  | resolve number state =>
      rw [World.step, Option.ite_none_right_eq_some] at taken
      obtain ⟨⟨is_limbo, final⟩, made⟩ := taken
      cases made
      refine ⟨.set number state ?_ (.inr is_limbo), Nat.le_refl _⟩
      rcases final with rfl | rfl <;> exact TransactionState.noConfusion
  | fetch process sequence =>
      rw [World.step] at taken
      split at taken
      · cases taken
      · cases taken
        exact ⟨.same, Nat.le_refl _⟩
  | trim process hdr_oldest =>
      rw [World.step, Option.ite_none_right_eq_some] at taken
      obtain ⟨-, made⟩ := taken
      cases made
      exact ⟨.same, Nat.le_refl _⟩
  | store process number state =>
      rw [World.step, Option.ite_none_right_eq_some] at taken
      obtain ⟨-, made⟩ := taken
      cases made
      exact ⟨.same, Nat.le_refl _⟩
  | precommit process vector =>
      rw [World.step, Option.ite_none_right_eq_some] at taken
      obtain ⟨-, made⟩ := taken
      cases made
      exact ⟨.same, Nat.le_refl _⟩

theorem Ends.committed_stays {before later : Inventory} (ends : Ends before later)
    (is_committed : before.fetchState number = committed) :
    later.fetchState number = committed := by
  cases ends with
  | same => exact is_committed
  | set other state ended unsettled =>
      rw [Inventory.fetchState_setState]
      split
      · rename_i same
        exact absurd (same ▸ is_committed) unsettled.not_committed
      · exact is_committed

theorem Ends.settled_stays {before later : Inventory} (ends : Ends before later) {limit : Nat}
    (settled : Settled swept before limit) : Settled swept later limit := by
  cases ends with
  | same => exact settled
  | set other state ended unsettled => exact settled.setState unsettled

theorem Ends.bound_stays {before later : Inventory} (ends : Ends before later) {limit : Nat}
    (bound : Bound before limit) : Bound later limit := by
  cases ends with
  | same => exact bound
  | set other state ended unsettled => exact bound.setState ended

end Start

namespace Sweep

open TransactionState Start

variable {tipBytes : Nat} {inventory : Inventory} {pages changed : List DataPage}
  {store : Store tipBytes}

/-- The transaction has left no record version. -/
def Clear (pages : List DataPage) (number : Nat) : Prop :=
  ∀ index line versions, recordAt pages index line = some versions → number ∉ versions

/-- The sweep has looked at the line. -/
def Sweeper.Behind (sweeper : Sweeper) (index line : Nat) : Prop :=
  index ∉ sweeper.ahead ∨ sweeper.ahead.head? = some index ∧ line < sweeper.line

/-- What holds of a running sweep. -/
structure Going (swept : Nat → Prop) (inventory : Inventory) (next : Nat) (pages : List DataPage)
    (sweeper : Sweeper) : Prop where
  settled : Settled swept inventory (sweeper.tra_oldest + 1)
  bound : Bound inventory sweeper.transaction_oldest_active
  active_le : sweeper.transaction_oldest_active ≤ sweeper.tra_number
  top_pos : 0 < sweeper.tra_top
  born : sweeper.tra_number ≤ next
  behind : ∀ index line versions, recordAt pages index line = some versions →
    sweeper.Behind index line → ∀ writer ∈ versions, writer < sweeper.transaction_oldest_active →
      lasting inventory writer = true ∨ writer ∈ sweeper.passed

/-- The invariant of all interleavings. -/
structure Tidy (store : Store tipBytes) : Prop where
  coherent : Coherent (Clear store.pages) store.world
  interesting : Interesting (Clear store.pages) store.world
  back : ∀ index line versions, recordAt store.pages index line = some versions →
    ∀ writer ∈ versions.tail, lasting store.world.inventory writer = true
  marked : ∀ page ∈ store.pages, page.dpg_swept = true →
    ∀ versions ∈ page.records, ∀ writer ∈ versions, lasting store.world.inventory writer = true
  sweeper : ∀ sweeper, store.sweeper = some sweeper →
    Going (Clear store.pages) store.world.inventory store.world.hdr_next_transaction store.pages
      sweeper

theorem lasting_iff {number : Nat} :
    lasting inventory number = true ↔ number = 0 ∨ inventory.fetchState number = committed := by
  rw [lasting, Bool.or_eq_true, beq_iff_eq, decide_eq_true_eq]

theorem lasting_of_settled {number limit : Nat} (settled : Settled (Clear pages) inventory limit)
    (below : number < limit) {index line : Nat} {versions : List Nat}
    (held : recordAt pages index line = some versions) (mem : number ∈ versions) :
    lasting inventory number = true := by
  rw [lasting_iff]
  rcases Nat.eq_zero_or_pos number with zero | positive
  · exact .inl zero
  · rcases settled number positive below with is_committed | ⟨-, clear⟩
    · exact .inr is_committed
    · exact absurd mem (clear index line versions held)

/-! ## Changes of the data pages -/

/-- Versions are removed or are written by active transactions. -/
structure Derives (inventory : Inventory) (pages changed : List DataPage) : Prop where
  writers : ∀ index line versions, recordAt changed index line = some versions →
    ∀ writer ∈ versions, inventory.fetchState writer = active ∨
      ∃ earlier, recordAt pages index line = some earlier ∧ writer ∈ earlier
  back : ∀ index line versions, recordAt changed index line = some versions →
    ∀ writer ∈ versions.tail, lasting inventory writer = true
  marked : ∀ page ∈ changed, page.dpg_swept = true →
    ∀ versions ∈ page.records, ∀ writer ∈ versions, lasting inventory writer = true

theorem Derives.clear (derives : Derives inventory pages changed) {number : Nat}
    (is_dead : inventory.fetchState number = dead) (clear : Clear pages number) :
    Clear changed number := by
  intro index line versions held mem
  rcases derives.writers index line versions held number mem with is_active | ⟨earlier, at_line, old⟩
  · cases is_dead.symm.trans is_active
  · exact clear index line earlier at_line old

theorem Tidy.changePages (tidy : Tidy store)
    (derives : Derives store.world.inventory store.pages changed) :
    Tidy { store with pages := changed } := by
  have clear : ∀ number, store.world.inventory.fetchState number = dead →
      Clear store.pages number → Clear changed number := fun _ => derives.clear
  refine ⟨tidy.coherent.weaken clear, tidy.interesting.weaken clear, derives.back, derives.marked,
    fun sweeper going => ?_⟩
  have before := tidy.sweeper sweeper going
  refine ⟨before.settled.weaken clear, before.bound, before.active_le, before.top_pos, before.born,
    fun index line versions held behind writer mem older => ?_⟩
  rcases derives.writers index line versions held writer mem with is_active | ⟨earlier, at_line, old⟩
  · refine .inl (lasting_iff.mpr (.inl (Nat.eq_zero_of_not_pos fun positive => ?_)))
    exact before.bound writer positive older is_active
  · exact before.behind index line earlier at_line behind writer old older

theorem recordAt_modify {index other line : Nat} {change : DataPage → DataPage}
    {versions : List Nat} (held : recordAt (pages.modify index change) other line = some versions) :
    ∃ page, pages[other]? = some page ∧
      if other = index then (change page).records[line]? = some versions
      else page.records[line]? = some versions := by
  rw [recordAt, List.getElem?_modify, Option.bind_eq_some_iff] at held
  obtain ⟨page, at_index, at_line⟩ := held
  split at at_index
  · rename_i same
    rw [Option.map_eq_map, Option.map_eq_some_iff] at at_index
    obtain ⟨original, there, rfl⟩ := at_index
    exact ⟨original, there, by rw [if_pos same.symm]; exact at_line⟩
  · rename_i differ
    rw [Option.map_eq_map, Option.map_id_fun', id] at at_index
    exact ⟨page, at_index, by rw [if_neg (Ne.symm differ)]; exact at_line⟩

theorem mem_modify {index : Nat} {change : DataPage → DataPage} {page : DataPage}
    (mem : page ∈ pages.modify index change) :
    page ∈ pages ∨ ∃ original ∈ pages, pages[index]? = some original ∧ page = change original := by
  obtain ⟨other, at_index⟩ := List.mem_iff_getElem?.mp mem
  rw [List.getElem?_modify] at at_index
  split at at_index
  · rename_i same
    rw [Option.map_eq_map, Option.map_eq_some_iff] at at_index
    obtain ⟨original, there, rfl⟩ := at_index
    exact .inr ⟨original, List.mem_of_getElem? there, same ▸ there, rfl⟩
  · rw [Option.map_eq_map, Option.map_id_fun', id] at at_index
    exact .inl (List.mem_of_getElem? at_index)

theorem recordAt_eq_some {index line : Nat} {versions : List Nat} {page : DataPage}
    (at_index : pages[index]? = some page) (at_line : page.records[line]? = some versions) :
    recordAt pages index line = some versions := by
  rw [recordAt, at_index]
  exact at_line

/-- One record changes. -/
theorem derives_setRecord (tidy : Tidy store) {index line : Nat}
    {earlier versions : List Nat} {writes : Bool}
    (held : recordAt store.pages index line = some earlier)
    (writers : ∀ writer ∈ versions,
      store.world.inventory.fetchState writer = active ∧ writes = true ∨ writer ∈ earlier)
    (back : ∀ writer ∈ versions.tail, lasting store.world.inventory writer = true) :
    Derives store.world.inventory store.pages
      (setRecord store.pages index line versions writes) := by
  have kept : ∀ other other_line found,
      recordAt (setRecord store.pages index line versions writes) other other_line = some found →
        (other = index ∧ other_line = line ∧ found = versions) ∨
          recordAt store.pages other other_line = some found := by
    intro other other_line found at_line
    obtain ⟨page, at_index, at_line⟩ := recordAt_modify at_line
    split at at_line
    · rename_i same_page
      simp only at at_line
      rw [List.getElem?_set] at at_line
      split at at_line
      · rename_i same_line
        split at at_line
        · exact .inl ⟨same_page, same_line.symm, (Option.some.inj at_line).symm⟩
        · cases at_line
      · exact .inr (recordAt_eq_some at_index at_line)
    · exact .inr (recordAt_eq_some at_index at_line)
  refine ⟨fun other other_line found at_line writer mem => ?_,
    fun other other_line found at_line writer mem => ?_, fun page mem is_marked => ?_⟩
  · rcases kept other other_line found at_line with ⟨rfl, rfl, rfl⟩ | old
    · exact (writers writer mem).imp And.left fun old => ⟨earlier, held, old⟩
    · exact .inr ⟨found, old, mem⟩
  · rcases kept other other_line found at_line with ⟨rfl, rfl, rfl⟩ | old
    · exact back writer mem
    · exact tidy.back other other_line found old writer mem
  · rcases mem_modify mem with old | ⟨original, original_mem, at_index, rfl⟩
    · exact tidy.marked page old is_marked
    · simp only [Bool.and_eq_true, Bool.not_eq_true'] at is_marked
      obtain ⟨was_marked, unwritten⟩ := is_marked
      intro found found_mem writer writer_mem
      rcases List.mem_or_eq_of_mem_set found_mem with old | rfl
      · exact tidy.marked original original_mem was_marked found old writer writer_mem
      · rcases writers writer writer_mem with ⟨-, written⟩ | old
        · cases unwritten.symm.trans written
        · rw [recordAt, at_index] at held
          exact tidy.marked original original_mem was_marked earlier (List.mem_of_getElem? held)
            writer old

theorem running_alive (tidy : Tidy store) {number : Nat} (running : store.running number = true) :
    store.world.inventory.fetchState number = active := by
  rw [Store.running] at running
  split at running
  · cases running
  · rename_i transaction held
    exact (tidy.coherent.transactions number transaction held).alive

theorem derives_modify (tidy : Tidy store) {index : Nat} {change : DataPage → DataPage}
    (records : ∀ page : DataPage, (change page).records = page.records)
    (marked : ∀ page, store.pages[index]? = some page → (change page).dpg_swept = true →
      ∀ versions ∈ page.records, ∀ writer ∈ versions,
        lasting store.world.inventory writer = true) :
    Derives store.world.inventory store.pages (store.pages.modify index change) := by
  have same : ∀ other line versions,
      recordAt (store.pages.modify index change) other line = some versions →
        recordAt store.pages other line = some versions := by
    intro other line versions held
    obtain ⟨page, at_index, at_line⟩ := recordAt_modify held
    refine recordAt_eq_some at_index ?_
    split at at_line
    · rw [records] at at_line
      exact at_line
    · exact at_line
  refine ⟨fun other line versions held writer mem =>
      .inr ⟨versions, same other line versions held, mem⟩,
    fun other line versions held => tidy.back other line versions (same other line versions held),
    fun page mem is_marked => ?_⟩
  rcases mem_modify mem with old | ⟨original, original_mem, at_index, rfl⟩
  · exact tidy.marked page old is_marked
  · rw [records]
    exact marked original at_index is_marked

theorem derives_insert (tidy : Tidy store) {number index : Nat}
    (running : store.running number = true) :
    Derives store.world.inventory store.pages (store.pages.modify index fun page =>
      { records := page.records ++ [[number]], dpg_swept := false }) := by
  have kept : ∀ other line versions,
      recordAt (store.pages.modify index fun page =>
          { records := page.records ++ [[number]], dpg_swept := false }) other line =
        some versions →
        versions = [number] ∨ recordAt store.pages other line = some versions := by
    intro other line versions held
    obtain ⟨page, at_index, at_line⟩ := recordAt_modify held
    split at at_line
    · simp only at at_line
      rw [List.getElem?_append] at at_line
      split at at_line
      · exact .inr (recordAt_eq_some at_index at_line)
      · exact .inl (List.mem_singleton.mp (List.mem_of_getElem? at_line))
    · exact .inr (recordAt_eq_some at_index at_line)
  refine ⟨fun other line versions held writer mem => ?_,
    fun other line versions held writer mem => ?_, fun page mem is_marked => ?_⟩
  · rcases kept other line versions held with rfl | old
    · rw [List.mem_singleton.mp mem]
      exact .inl (running_alive tidy running)
    · exact .inr ⟨versions, old, mem⟩
  · rcases kept other line versions held with rfl | old
    · cases mem
    · exact tidy.back other line versions old writer mem
  · rcases mem_modify mem with old | ⟨original, -, -, rfl⟩
    · exact tidy.marked page old is_marked
    · cases is_marked

theorem derives_extend (tidy : Tidy store) :
    Derives store.world.inventory store.pages
      (store.pages ++ [{ records := [], dpg_swept := false }]) := by
  have same : ∀ other line versions,
      recordAt (store.pages ++ [{ records := [], dpg_swept := false }]) other line =
        some versions → recordAt store.pages other line = some versions := by
    intro other line versions held
    rw [recordAt, Option.bind_eq_some_iff] at held
    obtain ⟨page, at_index, at_line⟩ := held
    rw [List.getElem?_append] at at_index
    split at at_index
    · exact recordAt_eq_some at_index at_line
    · rw [List.mem_singleton.mp (List.mem_of_getElem? at_index)] at at_line
      cases at_line
  refine ⟨fun other line versions held writer mem =>
      .inr ⟨versions, same other line versions held, mem⟩,
    fun other line versions held => tidy.back other line versions (same other line versions held),
    fun page mem is_marked => ?_⟩
  rcases List.mem_append.mp mem with old | is_new
  · exact tidy.marked page old is_marked
  · rw [List.mem_singleton.mp is_new] at is_marked
    cases is_marked

end Sweep
end Firebird
