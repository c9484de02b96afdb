import Mathlib
import Firebird.Jrd.Tra.SweepInvariant

/-!
# Sweeps over whole runs

A sweep advances the oldest interesting transaction to a settled number unless a transaction below
its oldest active one is in limbo, or has been rolled back after the sweep has passed a version of
it.
-/

namespace Firebird

namespace Start

open TransactionState

variable {tipBytes : Nat} {swept : Nat → Prop} {world after : World tipBytes} {process number : Nat}

/-- The cache of the process starts no later than the oldest interesting transaction, as the header
page or the process knows it. -/
def Reached (world : World tipBytes) (process : Nat) : Prop :=
  (world.view process).Reaches (world.view process).settled

/-- The inventory reports a transaction as committed only if it is, or is settled. -/
structure Reports (world after : World tipBytes) (process number : Nat) (told : CachedState) :
    Prop where
  cached : ∃ cache, after = world.setCache process cache ∧
    ∀ other state, cache.stored other = some state →
      TipCache.Trace.Genuine world.inventory false other state
  committed_true : told = .onPage committed → number = 0 ∨ number < (world.view process).settled ∨
    world.inventory.fetchState number = committed
  listed : told ≠ .precommitted

theorem cacheTransactions_frame {dbb filled : TipCache.Database tipBytes} {oldest : Nat}
    (fill : dbb.cacheTransactions oldest = .ok filled) :
    filled = { dbb with cache := filled.cache } := by
  rw [TipCache.Database.cacheTransactions] at fill
  split at fill
  · cases fill
  · rename_i fetched pages
    cases fill
    rw [TipCache.Database.fetchPages_frame pages]

theorem initializeTpc_frame {dbb filled : TipCache.Database tipBytes}
    (fill : dbb.initializeTpc number = .ok filled) :
    filled = { dbb with cache := filled.cache } := by
  rw [TipCache.Database.initializeTpc] at fill
  split at fill
  · exact cacheTransactions_frame fill
  · split at fill
    · cases fill
      rfl
    · split at fill
      · exact cacheTransactions_frame fill
      · cases fill
        rfl

theorem extendCache_spec {dbb : TipCache.Database tipBytes}
    (frame : dbb = { world.view process with cache := dbb.cache })
    (genuine : ∀ other state, dbb.cache.stored other = some state →
      TipCache.Trace.Genuine world.inventory false other state) {told : CachedState}
    (extended : world.extendCache process dbb number = .ok (told, after)) :
    Reports world after process number told := by
  have committed_of_stored : ∀ cache : TipCache tipBytes,
      (∀ other state, cache.stored other = some state →
        TipCache.Trace.Genuine world.inventory false other state) →
      CachedState.onPage ((cache.stored number).getD active) = .onPage committed →
        world.inventory.fetchState number = committed := by
    intro cache cached is_committed
    cases held : cache.stored number with
    | none =>
        rw [held] at is_committed
        cases is_committed
    | some state =>
        rw [held] at is_committed
        cases is_committed
        exact (cached number committed held).committed_true rfl
  rw [World.extendCache] at extended
  split at extended
  · cases extended
  · split at extended
    · split at extended
      · cases extended
      · rename_i filled fill
        have filled_frame := cacheTransactions_frame fill
        have same_inventory : dbb.inventory = world.inventory := by rw [frame]; rfl
        have writable : dbb.readOnly = false := by rw [frame]; rfl
        have unnoted : dbb.noted = [] := by rw [frame]; rfl
        have cached := genuine_of_run (by rw [same_inventory, writable]; exact genuine) unnoted
          (TipCache.Trace.cacheTransactions_run fill)
        have filled_inventory : filled.inventory = world.inventory := by
          rw [filled_frame]
          exact same_inventory
        have filled_writable : filled.readOnly = false := by
          rw [filled_frame]
          exact writable
        rw [filled_inventory, filled_writable] at cached
        split at extended
        · rename_i old
          cases extended
          have header : filled.hdr_oldest_transaction = world.hdr_oldest_transaction := by
            rw [filled_frame, frame]
            rfl
          rw [header] at old
          exact ⟨⟨_, rfl, cached⟩, fun _ => .inr (.inl (old.trans_le (Nat.le_max_left _ _))),
            CachedState.noConfusion⟩
        · cases extended
          exact ⟨⟨_, rfl, cached⟩, fun told => .inr (.inr (committed_of_stored _ cached told)),
            CachedState.noConfusion⟩
    · cases extended
      exact ⟨⟨_, rfl, genuine⟩, fun told => .inr (.inr (committed_of_stored _ genuine told)),
        CachedState.noConfusion⟩

theorem fetchState_spec (genuine : ∀ other state,
      (world.processes process).cache.stored other = some state →
        TipCache.Trace.Genuine world.inventory false other state) {told : CachedState}
    (fetched : world.fetchState process number = .ok (told, after)) :
    Reports world after process number told := by
  rw [World.fetchState, TipCache.Database.fetchInventoryPage] at fetched
  split at fetched
  · cases fetched
  · rename_i dbb page
    split at page
    · cases page
      cases fetched
      refine ⟨⟨_, rfl, fun other state held => ?_⟩,
        fun told => .inr (.inr (CachedState.onPage.inj told)), CachedState.noConfusion⟩
      · have read := TipCache.Trace.stored_cachePage held
        split at read
        · rw [read]
          exact TipCache.Trace.genuine_fetchState _ _ other
        · exact genuine other state read
    · cases page

theorem Reports.of_setCache {cache : TipCache tipBytes} {told : CachedState}
    (reports : Reports (world.setCache process cache) after process number told) :
    Reports world after process number told := by
  obtain ⟨⟨fetched, rfl, genuine⟩, committed_true, listed⟩ := reports
  refine ⟨⟨fetched, ?_, genuine⟩, fun told => ?_, listed⟩
  · rw [World.setCache, World.setCache, World.setCache]
    simp only [Function.update_self, Function.update_idem]
  · refine (committed_true told).imp_right (Or.imp_left fun old => ?_)
    rw [World.view, TipCache.Database.settled, World.processes_setCache, if_pos rfl] at old
    exact old

/-- The cache when `TPC_snapshot_state` begins to search it. -/
theorem filled_spec (coherent : Coherent swept world) (reached : Reached world process)
    {dbb : TipCache.Database tipBytes}
    (fill : (if (world.view process).cache.m_cache.isEmpty then
        (world.view process).cacheTransactions 0
      else .ok (world.view process)) = .ok dbb) :
    dbb = { world.view process with cache := dbb.cache } ∧
      dbb.Reaches (world.view process).settled ∧
      ∀ other state, dbb.cache.stored other = some state →
        TipCache.Trace.Genuine world.inventory false other state := by
  have informed := coherent.processes process
  split at fill
  · rename_i vacant
    have vacant : (world.view process).cache.m_cache = [] := List.isEmpty_iff.mp vacant
    have contiguous : (world.view process).Contiguous := by
      rw [TipCache.Database.Contiguous, vacant]
      exact .nil
    obtain ⟨filled, filled_eq, ⟨-, reaches⟩, frame, -⟩ :=
      @TipCache.Database.cacheTransactions_spec tipBytes _ (world.view process) contiguous reached
        (Nat.le_refl _) 0 (by rw [vacant]; rfl) (Nat.zero_le _)
    rw [filled_eq] at fill
    cases fill
    have cached := genuine_of_run informed.cached rfl
      (TipCache.Trace.cacheTransactions_run filled_eq)
    have same_inventory : dbb.inventory = world.inventory := by rw [frame]; rfl
    have writable : dbb.readOnly = false := by rw [frame]; rfl
    rw [same_inventory, writable] at cached
    exact ⟨frame, reaches, cached⟩
  · cases fill
    exact ⟨rfl, reached, informed.cached⟩

theorem snapshotState_spec (coherent : Coherent swept world) (reached : Reached world process)
    {told : CachedState} (told_state : world.snapshotState process number = .ok (told, after)) :
    Reports world after process number told := by
  rw [World.snapshotState] at told_state
  split at told_state
  · cases told_state
  · rename_i dbb fill
    obtain ⟨frame, reaches, genuine⟩ := filled_spec coherent reached fill
    split at told_state
    · cases told_state
    · rename_i tip_cache is_front
      split at told_state
      · rename_i old
        cases told_state
        refine ⟨⟨_, rfl, genuine⟩, fun _ => ?_, CachedState.noConfusion⟩
        rcases old with before | zero
        · exact .inr (.inl (before.trans_le (reaches tip_cache is_front)))
        · exact .inl zero
      · split at told_state
        · rename_i state held
          split at told_state
          · cases told_state
            refine ⟨⟨_, rfl, genuine⟩, fun told => .inr (.inr ?_), CachedState.noConfusion⟩
            exact (genuine number state held).committed_true (CachedState.onPage.inj told)
          · split at told_state
            · cases told_state
              exact ⟨⟨_, rfl, genuine⟩, fun told => (nomatch told), CachedState.noConfusion⟩
            · have at_cache : ∀ other state,
                  ((world.setCache process dbb.cache).processes process).cache.stored other =
                    some state → TipCache.Trace.Genuine world.inventory false other state := by
                rw [World.processes_setCache, if_pos rfl]
                exact genuine
              exact (fetchState_spec at_cache told_state).of_setCache
        · exact extendCache_spec frame genuine told_state

end Start

namespace Sweep

open TransactionState Start

variable {tipBytes : Nat} {store after : Store tipBytes} {sweeper : Sweeper}

/-! ## Changes of the store -/

theorem Tidy.setCache (tidy : Tidy store) (process : Nat) {cache : TipCache tipBytes}
    (genuine : ∀ number state, cache.stored number = some state →
      TipCache.Trace.Genuine store.world.inventory false number state) :
    Tidy { store with world := store.world.setCache process cache } :=
  ⟨tidy.coherent.setCache process genuine, tidy.interesting.setCache process cache, tidy.back,
    tidy.marked, tidy.sweeper⟩

theorem Tidy.proceed (tidy : Tidy store)
    (going : Going (Clear store.pages) store.world.inventory store.world.hdr_next_transaction
      store.pages sweeper) : Tidy (store.proceed sweeper) := by
  refine ⟨tidy.coherent, tidy.interesting, tidy.back, tidy.marked, fun other is_new => ?_⟩
  rw [← Option.some.inj is_new]
  exact going

theorem Tidy.stop (tidy : Tidy store) : Tidy { store with sweeper := none } :=
  ⟨tidy.coherent, tidy.interesting, tidy.back, tidy.marked, fun _ nothing => nomatch nothing⟩

theorem lasting_stays {before later : Inventory} (ends : Ends before later) {writer : Nat}
    (lasts : lasting before writer = true) : lasting later writer = true :=
  lasting_iff.mpr ((lasting_iff.mp lasts).imp_right ends.committed_stays)

theorem Tidy.transaction (tidy : Tidy store) {action : Start.Action} {world : Start.World tipBytes}
    (careful : Careful store.world action) (taken : store.world.step action = some world) :
    Tidy { store with world } := by
  obtain ⟨ends, later⟩ := inventory_step tidy.coherent taken
  refine ⟨tidy.coherent.step careful taken, tidy.interesting.step tidy.coherent careful taken,
    fun index line versions held writer mem =>
      lasting_stays ends (tidy.back index line versions held writer mem),
    fun page mem is_marked versions versions_mem writer writer_mem =>
      lasting_stays ends (tidy.marked page mem is_marked versions versions_mem writer writer_mem),
    fun sweeper going => ?_⟩
  have before := tidy.sweeper sweeper going
  exact ⟨ends.settled_stays before.settled, ends.bound_stays before.bound, before.active_le,
    before.top_pos, before.born.trans later, fun index line versions held behind writer mem older =>
      (before.behind index line versions held behind writer mem older).imp_left
        (lasting_stays ends)⟩

/-! ## The sweep -/

/-- The sweep leaves a data page. -/
theorem Going.leave {swept : Nat → Prop} {inventory : Inventory} {next : Nat}
    {pages : List DataPage} (going : Going swept inventory next pages sweeper) {index : Nat}
    {rest : List Nat} (at_page : sweeper.ahead = index :: rest)
    (done : ∀ line versions, recordAt pages index line = some versions → ∀ writer ∈ versions,
      writer < sweeper.transaction_oldest_active →
        lasting inventory writer = true ∨ writer ∈ sweeper.passed) :
    Going swept inventory next pages { sweeper with ahead := rest, line := 0 } := by
  refine ⟨going.settled, going.bound, going.active_le, going.top_pos, going.born,
    fun other line versions held behind => ?_⟩
  rcases behind with elsewhere | ⟨-, nothing⟩
  · by_cases same : other = index
    · subst same
      exact done line versions held
    · refine going.behind other line versions held (.inl ?_)
      rw [at_page, List.mem_cons, not_or]
      exact ⟨same, elsewhere⟩
  · exact absurd nothing (Nat.not_lt_zero line)

/-- The sweep goes to the next line. -/
theorem Going.pass {swept : Nat → Prop} {inventory : Inventory} {next : Nat}
    {pages : List DataPage} (going : Going swept inventory next pages sweeper) {index : Nat}
    {rest passed : List Nat} (at_page : sweeper.ahead = index :: rest)
    (more : ∀ writer ∈ sweeper.passed, writer ∈ passed)
    (done : ∀ versions, recordAt pages index sweeper.line = some versions →
      ∀ writer ∈ versions, writer < sweeper.transaction_oldest_active →
        lasting inventory writer = true ∨ writer ∈ passed) :
    Going swept inventory next pages { sweeper with line := sweeper.line + 1, passed } := by
  refine ⟨going.settled, going.bound, going.active_le, going.top_pos, going.born,
    fun other line versions held behind writer mem older => ?_⟩
  have before : sweeper.Behind other line → lasting inventory writer = true ∨ writer ∈ passed :=
    fun behind => (going.behind other line versions held behind writer mem older).imp_right
      (more writer)
  rcases behind with elsewhere | ⟨here, below⟩
  · exact before (.inl elsewhere)
  · rcases Nat.lt_or_eq_of_le (Nat.le_of_lt_succ below) with earlier | same_line
    · exact before (.inr ⟨here, earlier⟩)
    · have here : sweeper.ahead.head? = some other := here
      rw [at_page] at here
      cases here
      exact done versions (same_line ▸ held) writer mem older

theorem lasting_of_skips {inventory : Inventory} {pages : List DataPage} {tra_oldest : Nat}
    (settled : Settled (Clear pages) inventory (tra_oldest + 1)) {index line : Nat}
    {versions : List Nat} (held : recordAt pages index line = some versions)
    (skipped : skips tra_oldest versions = true) :
    ∀ writer ∈ versions, lasting inventory writer = true := by
  intro writer mem
  match versions with
  | [] => cases mem
  | [rpb_transaction_nr] =>
      rw [skips, decide_eq_true_eq] at skipped
      refine lasting_of_settled settled ?_ held mem
      rw [List.mem_singleton.mp mem]
      exact Nat.lt_succ_of_le skipped
  | _ :: _ :: _ => cases skipped

/-- What the sweep learns about the transaction of a version. -/
theorem sweeper_snapshotState (tidy : Tidy store) (reached : Reached store.world sweeper.process)
    (going : Going (Clear store.pages) store.world.inventory store.world.hdr_next_transaction
      store.pages sweeper) {head index line : Nat} {versions : List Nat}
    (held : recordAt store.pages index line = some versions) (mem : head ∈ versions)
    {told : Option CachedState} {world : Start.World tipBytes}
    (report : sweeper.snapshotState store.world head = .ok (told, world)) :
    (∃ cache, world = store.world.setCache sweeper.process cache ∧
      ∀ number state, cache.stored number = some state →
        TipCache.Trace.Genuine store.world.inventory false number state) ∧
    (told = some (.onPage dead) ∨ told = some (.onPage limbo) ∨ told = some (.onPage active) ∨
      lasting store.world.inventory head = true ∨ head = sweeper.tra_number) := by
  have informed := tidy.coherent.processes sweeper.process
  have same : store.world =
      store.world.setCache sweeper.process (store.world.processes sweeper.process).cache := by
    rw [World.setCache]
    simp
  rw [Sweeper.snapshotState] at report
  split at report
  · rename_i listed
    cases report
    rw [Bool.and_eq_true, bne_iff_ne] at listed
    exact ⟨⟨_, same, informed.cached⟩, .inr (.inr (.inr (.inl (lasting_iff.mpr
      (.inr (informed.precommitted head listed.1 listed.2))))))⟩
  · split at report
    · rename_i own
      cases report
      exact ⟨⟨_, same, informed.cached⟩, .inr (.inr (.inr (.inr own)))⟩
    · split at report
      · rename_i old
        cases report
        refine ⟨⟨_, same, informed.cached⟩, .inr (.inr (.inr (.inl ?_)))⟩
        rcases old with before | zero
        · exact lasting_of_settled going.settled (before.trans (Nat.lt_succ_self _)) held mem
        · exact lasting_iff.mpr (.inl zero)
      · split at report
        · cases report
        · rename_i state refreshed searched
          cases report
          have reports := snapshotState_spec tidy.coherent reached searched
          refine ⟨reports.cached, ?_⟩
          cases state with
          | precommitted => exact absurd rfl reports.listed
          | onPage state =>
              cases state with
              | dead => exact .inl rfl
              | limbo => exact .inr (.inl rfl)
              | active => exact .inr (.inr (.inl rfl))
              | committed =>
                  refine .inr (.inr (.inr (.inl ?_)))
                  rcases reports.committed_true rfl with zero | settled | is_committed
                  · exact lasting_iff.mpr (.inl zero)
                  · exact lasting_of_settled
                      (tidy.coherent.settled.max informed.settled) settled held mem
                  · exact lasting_iff.mpr (.inr is_committed)

theorem Tidy.visit (tidy : Tidy store) (reached : Reached store.world sweeper.process)
    (sweeping : store.sweeper = some sweeper) {index head : Nat} {rest back : List Nat}
    (at_page : sweeper.ahead = index :: rest)
    (held : recordAt store.pages index sweeper.line = some (head :: back))
    (visited : store.visit sweeper index head back = some after) : Tidy after := by
  have going := tidy.sweeper sweeper sweeping
  have back_lasting := tidy.back index sweeper.line _ held
  rw [Store.visit] at visited
  split at visited
  · cases visited
  · rename_i state world report
    obtain ⟨⟨cache, rfl, genuine⟩, told⟩ :=
      sweeper_snapshotState tidy reached going held List.mem_cons_self report
    have refreshed := tidy.setCache sweeper.process genuine
    have found : ∀ passed : List Nat, (lasting store.world.inventory head = true ∨
        head = sweeper.tra_number ∨ head ∈ passed) → ∀ versions,
          recordAt store.pages index sweeper.line = some versions → ∀ writer ∈ versions,
            writer < sweeper.transaction_oldest_active →
              lasting store.world.inventory writer = true ∨ writer ∈ passed := by
      intro passed head_known versions here writer mem older
      rw [held] at here
      cases here
      rcases List.mem_cons.mp mem with rfl | behind
      · rcases head_known with lasts | own | is_passed
        · exact .inl lasts
        · exact absurd (going.active_le.trans_eq own.symm) (Nat.not_le.mpr older)
        · exact .inr is_passed
      · exact .inl (back_lasting writer behind)
    split at visited
    · cases visited
      refine refreshed.changePages (derives_setRecord refreshed held (fun writer mem =>
        .inr (List.mem_cons_of_mem head mem)) fun writer mem => ?_)
      exact back_lasting writer (List.mem_of_mem_tail mem)
    · cases visited
    · cases visited
      exact refreshed.proceed (going.pass at_page (fun _ => List.mem_cons_of_mem head)
        (found _ (.inr (.inr List.mem_cons_self))))
    · rename_i not_dead not_limbo not_active
      cases visited
      refine refreshed.proceed (going.pass at_page (fun _ mem => mem) (found _ ?_))
      rcases told with rfl | rfl | rfl | lasts | own
      · exact absurd rfl not_dead
      · exact absurd rfl not_limbo
      · exact absurd rfl not_active
      · exact .inl lasts
      · exact .inr (.inl own)

theorem Tidy.next (tidy : Tidy store) (reached : Reached store.world sweeper.process)
    (sweeping : store.sweeper = some sweeper) (went : store.next sweeper = some after) :
    Tidy after := by
  have going := tidy.sweeper sweeper sweeping
  rw [Store.next] at went
  split at went
  · cases went
  · rename_i index rest at_page
    dsimp only at went
    split at went
    · rename_i nothing
      cases went
      refine tidy.proceed (going.leave at_page fun line versions held => ?_)
      rw [recordAt, nothing] at held
      cases held
    · rename_i page here
      split at went
      · rename_i unneeded
        cases went
        refine tidy.proceed (going.leave at_page fun line versions held writer mem _ => .inl ?_)
        rw [recordAt, here] at held
        exact tidy.marked page (List.mem_of_getElem? here) unneeded.2 versions
          (List.mem_of_getElem? held) writer mem
      · split at went
        · rename_i at_end
          cases went
          have left : Tidy (store.proceed { sweeper with ahead := rest, line := 0 }) := by
            refine tidy.proceed (going.leave at_page fun line versions held => ?_)
            refine going.behind index line versions held (.inr ⟨by rw [at_page]; rfl, ?_⟩)
            rw [recordAt, here] at held
            have inside := (List.getElem?_eq_some_iff.mp held).1
            have outside := List.getElem?_eq_none_iff.mp at_end
            omega
          refine left.changePages (derives_modify left (fun _ => rfl) fun original there
            is_marked versions mem writer writer_mem => ?_)
          have original_mem : original ∈ store.pages := List.mem_of_getElem? there
          rw [checkSwept, Bool.or_eq_true, List.all_eq_true] at is_marked
          rcases is_marked with before | skipped
          · exact tidy.marked original original_mem before versions mem writer writer_mem
          · obtain ⟨line, at_line⟩ := List.mem_iff_getElem?.mp mem
            exact lasting_of_skips going.settled (recordAt_eq_some there at_line)
              (skipped versions mem) writer writer_mem
        · rename_i versions at_line
          have held := recordAt_eq_some here at_line
          split at went
          · rename_i skipped
            cases went
            refine tidy.proceed (going.pass at_page (fun _ mem => mem)
              fun found at_found writer mem _ => .inl ?_)
            rw [held] at at_found
            cases at_found
            exact lasting_of_skips going.settled held skipped writer mem
          · split at went
            · cases went
            · exact tidy.visit reached sweeping at_page held went

/-- A transaction below the oldest active one of the sweep is not settled, as far as the sweep can
tell: it is in limbo, or it has been rolled back after the sweep has passed a version of it. -/
def Undecided (store : Store tipBytes) (sweeper : Sweeper) : Prop :=
  ∃ number, 0 < number ∧ number < sweeper.transaction_oldest_active ∧
    (store.world.inventory.fetchState number = limbo ∨
      number ∈ sweeper.passed ∧ store.world.inventory.fetchState number = dead)

/-- At the end of a sweep all transactions below its oldest active one are settled. -/
theorem settled_of_swept (tidy : Tidy store) (sweeping : store.sweeper = some sweeper)
    (at_end : sweeper.ahead = []) (decided : ¬ Undecided store sweeper) :
    Settled (Clear store.pages) store.world.inventory sweeper.transaction_oldest_active := by
  have going := tidy.sweeper sweeper sweeping
  intro number positive older
  cases state : store.world.inventory.fetchState number with
  | active => exact absurd state (going.bound number positive older)
  | limbo => exact absurd ⟨number, positive, older, .inl state⟩ decided
  | committed => exact .inl rfl
  | dead =>
      refine .inr ⟨rfl, fun index line versions held mem => ?_⟩
      have behind : sweeper.Behind index line := by
        refine .inl ?_
        rw [at_end]
        exact List.not_mem_nil
      rcases going.behind index line versions held behind number mem older with lasts | is_passed
      · rcases lasting_iff.mp lasts with zero | is_committed
        · exact positive.ne' zero
        · cases state.symm.trans is_committed
      · exact decided ⟨number, positive, older, .inr ⟨is_passed, state⟩⟩

theorem Tidy.writeOIT (tidy : Tidy store) {oldest limit : Nat} (positive : 0 < oldest)
    (below : oldest < limit)
    (settled : Settled (Clear store.pages) store.world.inventory limit) {world : Start.World tipBytes}
    (written : Store.writeOIT store.world oldest = some world) :
    Tidy { store with world, sweeper := none } := by
  rw [Store.writeOIT] at written
  split at written
  · cases written
    have coherent := tidy.coherent
    refine ⟨⟨positive, settled.mono below.le, coherent.oldest_active, coherent.active_le,
      coherent.unborn, coherent.processes, coherent.locks, coherent.transactions⟩,
      ⟨settled.mono below, tidy.interesting.processes, tidy.interesting.transactions⟩, tidy.back,
      tidy.marked, fun _ nothing => by cases nothing⟩
  · cases written

theorem Tidy.advance (tidy : Tidy store) (sweeping : store.sweeper = some sweeper)
    (at_end : sweeper.ahead = [])
    (decided : store.world.hdr_oldest_transaction < sweeper.transaction_oldest_active - 1 →
      ¬ Undecided store sweeper)
    (advanced : store.advance sweeper = some after) : Tidy after := by
  have going := tidy.sweeper sweeper sweeping
  rw [Store.advance] at advanced
  split at advanced
  · cases advanced
  · rename_i outcome dbb search
    rw [TipCache.Database.findStates, bind_eq_ok] at search
    obtain ⟨filled, fill, search⟩ := search
    rw [bind_eq_ok] at search
    obtain ⟨hit, -, made⟩ := search
    cases made
    have frame := initializeTpc_frame fill
    have same_inventory : dbb.inventory = store.world.inventory := by rw [frame]; rfl
    have writable : dbb.readOnly = false := by rw [frame]; rfl
    have genuine := genuine_of_run (tidy.coherent.processes sweeper.process).cached rfl
      (TipCache.Trace.initializeTpc_run fill)
    rw [same_inventory, writable] at genuine
    have refreshed := tidy.setCache sweeper.process genuine
    dsimp only at advanced
    split at advanced
    · rename_i behind
      rw [Option.map_eq_some_iff] at advanced
      obtain ⟨world, written, rfl⟩ := advanced
      have settled := settled_of_swept tidy sweeping at_end (decided behind)
      have oldest_pos := tidy.coherent.oldest_pos
      refine refreshed.writeOIT ?_ ?_ settled written
      · refine Nat.lt_min.mpr ⟨?_, Nat.zero_lt_of_lt behind⟩
        split
        · rename_i found
          exact Nat.pos_of_ne_zero (bne_iff_ne.mp found)
        · exact going.top_pos
      · exact (Nat.min_le_right _ _).trans_lt (by omega)
    · cases advanced
      exact refreshed.stop

theorem Tidy.start (tidy : Tidy store) {number : Nat} {transaction : Transaction}
    {order : List Nat} (held : store.world.transactions number = some transaction)
    (running : transaction.progress = .running)
    (whole : ∀ index < store.pages.length, index ∈ order) :
    Tidy (store.start number transaction order) := by
  have sane := tidy.coherent.transactions number transaction held
  have found : transaction.found = true := by rw [Transaction.found, running]
  have floor_eq : transaction.floor = transaction.oldest_active := by
    rw [Transaction.floor, running]
  obtain ⟨threshold, active_le⟩ := sane.threshold found
  refine tidy.proceed ⟨tidy.interesting.transactions number transaction held,
    sane.floor_bound.mono (threshold.trans_eq floor_eq.symm), threshold.trans active_le,
    sane.positive, sane.born, fun index line versions at_line behind => ?_⟩
  rcases behind with elsewhere | ⟨-, nothing⟩
  · refine absurd (whole index ?_) elsewhere
    rw [recordAt, Option.bind_eq_some_iff] at at_line
    obtain ⟨page, at_index, -⟩ := at_line
    exact (List.getElem?_eq_some_iff.mp at_index).1
  · exact absurd nothing (Nat.not_lt_zero line)

/-! ## Runs -/

/-- A sweep searches an inventory cache that starts no later than the oldest interesting
transaction, and ends when all older transactions are decided. -/
def Orderly (store : Store tipBytes) : Action → Prop
  | .transaction action => Careful store.world action
  | .next => ∀ sweeper, store.sweeper = some sweeper → Reached store.world sweeper.process
  | .advance => ∀ sweeper, store.sweeper = some sweeper →
      store.world.hdr_oldest_transaction < sweeper.transaction_oldest_active - 1 →
        ¬ Undecided store sweeper
  | _ => True

/-- What one action preserves. -/
theorem Tidy.step (tidy : Tidy store) {action : Action} (orderly : Orderly store action)
    (taken : store.step action = some after) : Tidy after := by
  cases action with
  | transaction action =>
      rw [Store.step, Option.map_eq_some_iff] at taken
      obtain ⟨world, stepped, rfl⟩ := taken
      exact tidy.transaction orderly stepped
  | extend =>
      cases taken
      exact tidy.changePages (derives_extend tidy)
  | insert number index =>
      rw [Store.step, Option.ite_none_right_eq_some] at taken
      obtain ⟨running, made⟩ := taken
      cases made
      exact tidy.changePages (derives_insert tidy running)
  | write number index line =>
      rw [Store.step] at taken
      split at taken
      · cases taken
      · rename_i held
        rw [Option.ite_none_right_eq_some] at taken
        obtain ⟨running, made⟩ := taken
        cases made
        refine tidy.changePages (derives_setRecord tidy held (fun writer mem => .inl ⟨?_, rfl⟩)
          fun _ mem => nomatch mem)
        rw [List.mem_singleton.mp mem]
        exact running_alive tidy running
      · rename_i head back held
        have back_lasting := tidy.back index line _ held
        split at taken
        · rename_i own
          cases taken
          refine tidy.changePages (derives_setRecord tidy held (fun writer mem => .inr ?_)
            back_lasting)
          rw [own.2]
          exact mem
        · rw [Option.ite_none_right_eq_some] at taken
          obtain ⟨⟨running, lasts⟩, made⟩ := taken
          cases made
          refine tidy.changePages (derives_setRecord tidy held (fun writer mem => ?_)
            fun writer mem => ?_)
          · rcases List.mem_cons.mp mem with rfl | old
            · exact .inl ⟨running_alive tidy running, rfl⟩
            · exact .inr old
          · rcases List.mem_cons.mp mem with rfl | old
            · exact lasts
            · exact back_lasting writer old
  | undo number index line =>
      rw [Store.step] at taken
      split at taken
      · rename_i head back held
        rw [Option.ite_none_right_eq_some] at taken
        obtain ⟨-, made⟩ := taken
        cases made
        exact tidy.changePages (derives_setRecord tidy held
          (fun writer mem => .inr (List.mem_cons_of_mem head mem))
          fun writer mem => tidy.back index line _ held writer (List.mem_of_mem_tail mem))
      · cases taken
  | backout index line =>
      rw [Store.step] at taken
      split at taken
      · rename_i head back held
        rw [Option.ite_none_right_eq_some] at taken
        obtain ⟨-, made⟩ := taken
        cases made
        exact tidy.changePages (derives_setRecord tidy held
          (fun writer mem => .inr (List.mem_cons_of_mem head mem))
          fun writer mem => tidy.back index line _ held writer (List.mem_of_mem_tail mem))
      · cases taken
  | purge index line =>
      rw [Store.step] at taken
      split at taken
      · rename_i head back held
        rw [Option.ite_none_right_eq_some] at taken
        obtain ⟨-, made⟩ := taken
        cases made
        refine tidy.changePages (derives_setRecord tidy held (fun writer mem => .inr ?_)
          fun _ mem => nomatch mem)
        rw [List.mem_singleton.mp mem]
        exact List.mem_cons_self
      · cases taken
  | expunge index line =>
      rw [Store.step] at taken
      split at taken
      · rename_i head back held
        rw [Option.ite_none_right_eq_some] at taken
        obtain ⟨-, made⟩ := taken
        cases made
        exact tidy.changePages (derives_setRecord tidy held (fun _ mem => nomatch mem)
          fun _ mem => nomatch mem)
      · cases taken
  | start number order =>
      rw [Store.step] at taken
      split at taken
      · cases taken
      · rename_i transaction held
        rw [Option.ite_none_right_eq_some] at taken
        obtain ⟨⟨-, -, running, whole⟩, made⟩ := taken
        cases made
        exact tidy.start held running whole
  | next =>
      rw [Store.step] at taken
      split at taken
      · cases taken
      · rename_i sweeper sweeping
        exact tidy.next (orderly sweeper sweeping) sweeping taken
  | advance =>
      rw [Store.step] at taken
      split at taken
      · cases taken
      · rename_i sweeper sweeping
        rw [Option.ite_none_right_eq_some] at taken
        exact tidy.advance sweeping taken.1 (orderly sweeper sweeping) taken.2
  | abandon =>
      cases taken
      exact tidy.stop

/-- What can happen from a store on, by allowed actions only. -/
inductive Run (allowed : Store tipBytes → Action → Prop) (start : Store tipBytes) :
    Store tipBytes → Prop where
  | refl : Run allowed start start
  | step {store after : Store tipBytes} (action : Action) : Run allowed start store →
      allowed store action → store.step action = some after → Run allowed start after

/-- A database that has just been opened, with the oldest interesting transaction of the header page
settled. -/
structure Opened (store : Store tipBytes) : Prop where
  world : Start.Opened store.world
  settled : Settled (Clear store.pages) store.world.inventory
    (store.world.hdr_oldest_transaction + 1)
  back : ∀ index line versions, recordAt store.pages index line = some versions →
    ∀ writer ∈ versions.tail, lasting store.world.inventory writer = true
  marked : ∀ page ∈ store.pages, page.dpg_swept = true →
    ∀ versions ∈ page.records, ∀ writer ∈ versions, lasting store.world.inventory writer = true
  idle : store.sweeper = none

theorem Opened.tidy (opened : Opened store) : Tidy store := by
  have processes := opened.world.processes
  refine ⟨opened.world.coherent (opened.settled.mono (Nat.le_succ _)), ⟨opened.settled,
    fun process => opened.settled.mono (Nat.succ_le_succ (processes process).1),
    fun number transaction held => ?_⟩, opened.back, opened.marked, fun sweeper sweeping => ?_⟩
  · obtain ⟨-, -, -, as_begun⟩ := opened.world.transactions number transaction held
    rw [as_begun]
    exact opened.settled
  · cases opened.idle.symm.trans sweeping

/-- No version of a transaction in limbo or a dead one is skipped. -/
structure Swept (store : Store tipBytes) : Prop where
  oldest : ∀ number, 0 < number → number ≤ store.world.hdr_oldest_transaction →
    store.world.inventory.fetchState number = committed ∨
      store.world.inventory.fetchState number = dead ∧ Clear store.pages number
  skipped : ∀ sweeper, store.sweeper = some sweeper → ∀ index line versions,
    recordAt store.pages index line = some versions →
      skips sweeper.tra_oldest versions = true →
        ∀ writer ∈ versions, writer = 0 ∨ store.world.inventory.fetchState writer = committed
  marked : ∀ page ∈ store.pages, page.dpg_swept = true → ∀ versions ∈ page.records,
    ∀ writer ∈ versions, writer = 0 ∨ store.world.inventory.fetchState writer = committed

theorem Tidy.swept (tidy : Tidy store) : Swept store := by
  refine ⟨fun number positive below =>
      tidy.interesting.header number positive (Nat.lt_succ_of_le below),
    fun sweeper sweeping index line versions held skipped writer mem => ?_,
    fun page mem is_marked versions versions_mem writer writer_mem =>
      lasting_iff.mp (tidy.marked page mem is_marked versions versions_mem writer writer_mem)⟩
  exact lasting_iff.mp
    (lasting_of_skips (tidy.sweeper sweeper sweeping).settled held skipped writer mem)

/-- No records yet. -/
def quietStore : Store 1 where
  world := quietWorld
  pages := []
  sweeper := none

theorem opened_quietStore : Opened quietStore := by
  have finished : ∀ number < 4, quietWorld.inventory.fetchState number = committed := by decide
  refine ⟨opened_quietWorld, fun number _ below => .inl (finished number below),
    fun _ _ _ held => (nomatch held), fun _ mem => (nomatch mem), rfl⟩

/-- Transaction 4 starts and writes a record. -/
def writing : List Action :=
  [.transaction (.begin 0 false), .transaction (.copy 4), .transaction (.copy 4),
    .transaction (.copy 4), .transaction (.lookup 4), .transaction (.publish 4),
    .transaction (.interest 4), .extend, .insert 4 0]

/-- The sweep's transaction 5 starts. -/
def sweeping : List Action :=
  [.transaction (.begin 0 true), .transaction (.lookup 5), .transaction (.publish 5),
    .transaction (.interest 5), .start 5 [0]]

theorem run_of_actions {start store after : Store tipBytes} {actions : List Action}
    (begun : Run (fun _ _ => True) start store) (taken : store.run actions = some after) :
    Run (fun _ _ => True) start after := by
  induction actions generalizing store with
  | nil =>
      cases taken
      exact begun
  | cons action rest induction =>
      rw [Store.run, Option.bind_eq_some_iff] at taken
      obtain ⟨next, stepped, rest_taken⟩ := taken
      exact induction (begun.step action trivial stepped) rest_taken

end Sweep
end Firebird
