import Firebird.Jrd.Tra.TipRun

/-!
# What the transaction inventory cache reports

Over every run of fetches and state changes, a report is either the policy for old transactions or
what was last set or read, and a search finds the lowest transaction with a sought state.
-/

namespace Firebird
namespace TipCache

open TransactionState

variable {tipBytes : Nat}

/-! ## Fills are runs -/

namespace Trace

variable {trace : Trace tipBytes} {after : Database tipBytes}

theorem run_append (trace : Trace tipBytes) (first second : List Event) :
    trace.run (first ++ second) = (trace.run first).bind fun middle => middle.run second :=
  List.foldlM_append

theorem fetchPages_run {sequence count : Nat}
    (result : trace.dbb.fetchPages sequence count = .ok after) :
    ∃ events last, trace.run events = some { dbb := after, last } := by
  induction count generalizing trace sequence with
  | zero =>
      cases result
      exact ⟨[], trace.last, rfl⟩
  | succ count ih =>
      obtain ⟨exists_page, rest⟩ := Database.fetchPages_succ.mp result
      have first : trace.step (.fetch sequence) =
          some
            { dbb := trace.dbb.cachePage sequence
              last := fun number =>
                if number / (4 * tipBytes) = sequence then
                  some (trace.dbb.inventory.fetchState number)
                else trace.last number } := by
        rw [step, Trace.fetch, Database.fetchInventoryPage]
        simp only [if_pos exists_page]
      obtain ⟨events, last, path⟩ := @ih
        { dbb := trace.dbb.cachePage sequence
          last := fun number =>
            if number / (4 * tipBytes) = sequence then
              some (trace.dbb.inventory.fetchState number)
            else trace.last number } (sequence + 1) rest
      refine ⟨.fetch sequence :: events, last, ?_⟩
      rw [run, List.foldlM_cons, first]
      exact path

theorem cacheTransactions_run {oldest : Nat}
    (result : trace.dbb.cacheTransactions oldest = .ok after) :
    ∃ events last, trace.run events = some { dbb := after, last } := by
  rw [Database.cacheTransactions] at result
  split at result
  · cases result
  · rename_i fetched pages
    cases result
    obtain ⟨events, last, path⟩ := fetchPages_run pages
    refine ⟨events ++ [.trim trace.dbb.hdr_oldest_transaction], last, ?_⟩
    have same_header : fetched.hdr_oldest_transaction = trace.dbb.hdr_oldest_transaction := by
      rw [Database.fetchPages_frame pages]
    rw [run_append, path]
    simp only [Option.bind_some, run, List.foldlM_cons, List.foldlM_nil, step, same_header,
      Nat.le_refl, if_true]
    rfl

/-- Every extension of the cache is a run, which other actions may interrupt. -/
theorem initializeTpc_run {number : Nat}
    (result : trace.dbb.initializeTpc number = .ok after) :
    ∃ events last, trace.run events = some { dbb := after, last } := by
  rw [Database.initializeTpc] at result
  split at result
  · exact cacheTransactions_run result
  · split at result
    · cases result
      exact ⟨[], trace.last, rfl⟩
    · split at result
      · exact cacheTransactions_run result
      · cases result
        exact ⟨[], trace.last, rfl⟩

end Trace

/-! ## Reports -/

/-- The cached states are those on the pages. -/
def Database.Fresh (dbb : Database tipBytes) : Prop :=
  ∀ number state, dbb.cache.stored number = some state → dbb.inventory.fetchState number = state

theorem Database.Fresh.fetchPages {dbb after : Database tipBytes} {sequence count : Nat}
    (fresh : dbb.Fresh) (result : dbb.fetchPages sequence count = .ok after) : after.Fresh := by
  induction count generalizing dbb sequence with
  | zero =>
      cases result
      exact fresh
  | succ count ih =>
      have fetched : (dbb.cachePage sequence).Fresh := by
        intro number state held
        have read := Trace.stored_cachePage held
        split at read
        · exact read.symm
        · exact fresh number state read
      exact ih fetched (fetchPages_succ.mp result).2

/-- Filling an empty cache reads all its states from the pages. -/
theorem Database.fresh_of_fill {dbb after : Database tipBytes} {number : Nat}
    (vacant : dbb.cache.m_cache = []) (fill : dbb.initializeTpc number = .ok after) :
    after.Fresh := by
  have fresh : dbb.Fresh := by
    intro number state held
    rw [stored, find, vacant] at held
    cases held
  rw [initializeTpc, vacant, List.getLast?_nil] at fill
  simp only [cacheTransactions] at fill
  split at fill
  · cases fill
  · rename_i fetched pages
    cases fill
    have fetched_fresh := fresh.fetchPages pages
    exact fun number state held => fetched_fresh number state (stored_of_dropFront held)

/-- The transaction is the system transaction or older than the cached pages. -/
def Old (cache : TipCache tipBytes) (number : Nat) : Prop :=
  number = 0 ∨ ∃ front ∈ cache.m_cache.head?, number < front.tpc_base

theorem pageState_cases {cache : TipCache tipBytes} {number : Nat} {state : TransactionState}
    (report : cache.pageState number = .ok state) :
    cache.Old number ∧ state = committed ∨
      cache.stored number = none ∧ state = active ∨ cache.stored number = some state := by
  rw [pageState] at report
  cases pages : cache.m_cache with
  | nil =>
      rw [pages] at report
      cases report
  | cons front later =>
      rw [pages] at report
      simp only at report
      split at report
      · rename_i old
        cases report
        refine .inl ⟨?_, rfl⟩
        rcases old with before | is_zero
        · exact .inr ⟨front, by rw [pages]; rfl, before⟩
        · exact .inl is_zero
      · rw [stored]
        cases found : cache.find (baseOf tipBytes number) with
        | none =>
            rw [found] at report
            cases report
            exact .inr (.inl ⟨rfl, rfl⟩)
        | some page =>
            rw [found] at report
            cases report
            exact .inr (.inr rfl)

/-- A report comes from the cache, filled first if it was empty. -/
theorem cacheState_cases {dbb after : Database tipBytes} {number : Nat}
    {state : TransactionState} (report : dbb.cacheState number = .ok (.onPage state, after)) :
    (dbb = after ∨ dbb.cache.m_cache = [] ∧ dbb.initializeTpc number = .ok after) ∧
      after.cache.pageState number = .ok state := by
  rw [Database.cacheState] at report
  split at report
  · cases report
  · obtain ⟨filled, fill, rest⟩ := bind_eq_ok.mp report
    obtain ⟨read, page, last⟩ := bind_eq_ok.mp rest
    cases last
    refine ⟨?_, page⟩
    split at fill
    · rename_i is_empty
      exact .inr ⟨List.isEmpty_iff.mp is_empty, fill⟩
    · cases fill
      exact .inl rfl

/-! ## The cache over every run -/

/-- What holds of the cache of a process. -/
structure Faithful (trace : Trace tipBytes) : Prop where
  /-- The pages are in order, and each starts where an inventory page starts. -/
  ordered : trace.dbb.cache.m_cache.Pairwise fun left right => left.tpc_base < right.tpc_base
  aligned : ∀ page ∈ trace.dbb.cache.m_cache, 4 * tipBytes ∣ page.tpc_base
  /-- A report is the policy for old transactions, the default for uncached ones, or the state last
  set or read, which for an empty cache is the one on the page. -/
  reported : ∀ number state after, trace.dbb.cacheState number = .ok (.onPage state, after) →
    after.cache.Old number ∧ state = committed ∨
      after.cache.stored number = none ∧ state = active ∨
      trace.last number = some state ∨
      trace.dbb.cache.m_cache = [] ∧ after.inventory.fetchState number = state
  /-- A transaction reported as committed is committed, if it is not old. -/
  committed_true : ∀ number after,
    trace.dbb.cacheState number = .ok (.onPage committed, after) →
      after.cache.Old number ∨ after.inventory.fetchState number = committed
  /-- A cache without gaps that starts with the oldest interesting transaction or an earlier one
  reports no interesting transaction as committed that is not. -/
  settled_true : trace.dbb.Contiguous → trace.dbb.Reaches trace.dbb.settled →
    ∀ number after, trace.dbb.cacheState number = .ok (.onPage committed, after) →
      number = 0 ∨ number < after.settled ∨ after.inventory.fetchState number = committed
  /-- An extension of the cache leaves no gap that was not there before. -/
  extended : trace.dbb.Contiguous → ∀ number ≤ trace.dbb.hdr_next_transaction,
    ∃ after, trace.dbb.initializeTpc number = .ok after ∧ after.Contiguous ∧
      (trace.dbb.Reaches trace.dbb.settled → after.Reaches after.settled)
  /-- In a cache without gaps a search finds the lowest transaction with a sought state. -/
  lowest : trace.dbb.Contiguous → ∀ minNumber maxNumber mask, 0 < maxNumber →
    maxNumber ≤ trace.dbb.hdr_next_transaction →
      ∃ outcome after, trace.dbb.findStates minNumber maxNumber mask = .ok (outcome, after) ∧
        (((CachedState.onPage committed).check mask = true → after.Reaches maxNumber) →
          FirstIn (Seen (after.cache.taken after.dbb_pc_transactions mask) mask) minNumber
            maxNumber outcome)

variable {trace : Trace tipBytes}

theorem Trace.Sound.committed_of_report (sound : trace.Sound) {number : Nat}
    {after : Database tipBytes}
    (report : trace.dbb.cacheState number = .ok (.onPage committed, after)) :
    after.cache.Old number ∨ after.inventory.fetchState number = committed := by
  obtain ⟨source, page⟩ := cacheState_cases report
  rcases pageState_cases page with ⟨old, -⟩ | ⟨-, absurd_state⟩ | held
  · exact .inl old
  · cases absurd_state
  · rcases source with rfl | ⟨vacant, fill⟩
    · exact .inr ((sound.cached number committed held).committed_true rfl)
    · exact .inr (Database.fresh_of_fill vacant fill number committed held)

/-- Some bound is met by the first cached page. -/
theorem Database.reaches_some (dbb : Database tipBytes) :
    ∃ bound, dbb.settled ≤ bound ∧ dbb.Reaches bound := by
  cases is_front : dbb.cache.m_cache.head? with
  | none =>
      refine ⟨dbb.settled, Nat.le_refl _, fun front mem => ?_⟩
      rw [is_front] at mem
      cases mem
  | some first =>
      refine ⟨max dbb.settled first.tpc_base, Nat.le_max_left _ _, fun front mem => ?_⟩
      rw [is_front] at mem
      cases mem
      exact Nat.le_max_right _ _

/-- `findStates` on a cache without gaps. -/
theorem Database.findStates_spec {dbb : Database tipBytes} {bound : Nat}
    (contiguous : dbb.Contiguous) (reaches : dbb.Reaches bound) (settled_le : dbb.settled ≤ bound)
    (minNumber maxNumber : Nat) (mask : UInt32) (room : 0 < maxNumber)
    (started : maxNumber ≤ dbb.hdr_next_transaction) :
    ∃ outcome after, dbb.findStates minNumber maxNumber mask = .ok (outcome, after) ∧
      dbb.initializeTpc maxNumber = .ok after ∧ after = { dbb with cache := after.cache } ∧
      (∃ front later, after.cache.m_cache = front :: later ∧ front.tpc_base ≤ bound ∧
        ∀ number, front.tpc_base ≤ number → number < maxNumber →
          (after.cache.stored number).isSome) ∧
      (((CachedState.onPage committed).check mask = true → after.Reaches maxNumber) →
        FirstIn (Seen (after.cache.taken after.dbb_pc_transactions mask) mask) minNumber maxNumber
          outcome) := by
  obtain ⟨after, fill, kept, frame, last, is_last, newest⟩ :=
    initializeTpc_spec contiguous reaches settled_le started
  have found : ∀ outcome, after.cache.search after.dbb_pc_transactions minNumber maxNumber mask =
      .ok outcome → dbb.findStates minNumber maxNumber mask = .ok (outcome, after) := by
    intro outcome result
    exact bind_eq_ok.mpr ⟨after, fill, bind_eq_ok.mpr ⟨outcome, result, rfl⟩⟩
  have covered : ∀ front ∈ after.cache.m_cache.head?, ∀ number, front.tpc_base ≤ number →
      number < maxNumber → (after.cache.stored number).isSome := by
    intro front is_front number above below
    obtain ⟨page, mem, low, high⟩ :=
      covered_of_contiguous kept.1 is_front is_last above (below.trans newest)
    rw [stored_of_mem mem low high]
    rfl
  cases pages : after.cache.m_cache with
  | nil =>
      rw [pages] at is_last
      cases is_last
  | cons front later =>
      have is_front : front ∈ after.cache.m_cache.head? := by
        rw [pages]
        rfl
      have filled : ∃ front later, after.cache.m_cache = front :: later ∧ front.tpc_base ≤ bound ∧
          ∀ number, front.tpc_base ≤ number → number < maxNumber →
            (after.cache.stored number).isSome :=
        ⟨front, later, pages, kept.2 front is_front, covered front is_front⟩
      by_cases recent : (CachedState.onPage committed).check mask = true →
          front.tpc_base ≤ maxNumber
      · obtain ⟨outcome, result, lowest⟩ := @search_spec tipBytes after.cache
          after.dbb_pc_transactions mask after.positive front later pages minNumber maxNumber room
          recent fun number _ above below => covered front is_front number above below
        exact ⟨outcome, after, found outcome result, fill, frame, filled, fun _ => lowest⟩
      · obtain ⟨wanted, before⟩ := Classical.not_imp.mp recent
        refine ⟨none, after, found none ?_, fill, frame, filled, fun reached => ?_⟩
        · rw [search, pages]
          exact if_pos (Nat.lt_of_not_le before)
        · exact absurd (reached wanted front is_front) before

/-- The cache of every process in every run from a cache that was empty. -/
theorem Trace.faithful_of_run {start : Trace tipBytes} (vacant : start.dbb.cache.m_cache = [])
    (unnoted : start.dbb.noted = []) {events : List Event}
    (path : start.run events = some trace) : Faithful trace := by
  have sound := (Trace.sound_of_fresh vacant unnoted).run path
  refine ⟨trace.dbb.cache.ordered, trace.dbb.cache.aligned, ?_,
    fun number after => sound.committed_of_report, ?_, ?_, ?_⟩
  · intro number state after report
    obtain ⟨source, page⟩ := cacheState_cases report
    rcases pageState_cases page with old | uncached | held
    · exact .inl old
    · exact .inr (.inl uncached)
    · rcases source with rfl | ⟨is_empty, fill⟩
      · exact .inr (.inr (.inl (sound.latest number state held)))
      · exact .inr (.inr (.inr ⟨is_empty, Database.fresh_of_fill is_empty fill number state held⟩))
  · intro contiguous reaches number after report
    have after_reaches : after.Reaches after.settled := by
      rcases (cacheState_cases report).1 with rfl | ⟨is_empty, fill⟩
      · exact reaches
      · rw [Database.initializeTpc, is_empty] at fill
        obtain ⟨filled, result, ⟨-, starts⟩, frame, -⟩ :=
          @Database.cacheTransactions_spec tipBytes trace.dbb.settled trace.dbb contiguous reaches
            (Nat.le_refl _) 0 (by rw [is_empty]; rfl) (Nat.zero_le _)
        cases fill.symm.trans result
        rw [frame] at starts ⊢
        exact starts
    rcases sound.committed_of_report report with (is_zero | ⟨front, is_front, before⟩) | genuine
    · exact .inl is_zero
    · exact .inr (.inl (before.trans_le (after_reaches front is_front)))
    · exact .inr (.inr genuine)
  · intro contiguous number started
    obtain ⟨bound, settled_le, reaches⟩ := trace.dbb.reaches_some
    obtain ⟨after, fill, ⟨filled, -⟩, frame, -⟩ :=
      Database.initializeTpc_spec contiguous reaches settled_le started
    refine ⟨after, fill, filled, fun settled_reaches => ?_⟩
    obtain ⟨other, same, ⟨-, starts⟩, -⟩ :=
      Database.initializeTpc_spec contiguous settled_reaches (Nat.le_refl _) started
    cases fill.symm.trans same
    rw [frame] at starts ⊢
    exact starts
  · intro contiguous minNumber maxNumber mask room started
    obtain ⟨bound, settled_le, reaches⟩ := trace.dbb.reaches_some
    obtain ⟨outcome, after, result, -, -, -, lowest⟩ :=
      Database.findStates_spec contiguous reaches settled_le minNumber maxNumber mask room started
    exact ⟨outcome, after, result, lowest⟩

/-! ## A small database -/

/-- Four transactions to a page; transaction 5 is dead, 14 and 15 are active. -/
def sweptInventory : Inventory where
  tipBytes := 1
  tipBytes_pos := Nat.one_pos
  tip_transactions sequence _ := if sequence = 1 then 0xFB else if sequence = 3 then 0x0F else 0xFF

/-- A process with an empty cache, before a sweep of what transaction 5 has left. -/
def sweptTrace : Trace 1 where
  dbb :=
    { inventory := sweptInventory
      sized := rfl
      hdr_oldest_transaction := 5
      hdr_next_transaction := 15
      oldest_le_next := by decide
      next_lt_max := by decide
      readOnly := false
      dbb_oldest_transaction := 0
      dbb_pc_transactions := none
      noted := []
      cache := TipCache.empty 1 }
  last _ := none

theorem faithful_sweptTrace :
    ∃ trace, sweptTrace.run [.fetch 3, .elsewhere 15 .dead, .finish 14 .committed] = some trace ∧
      Faithful trace :=
  ⟨_, rfl, Trace.faithful_of_run rfl rfl
    (rfl : sweptTrace.run [.fetch 3, .elsewhere 15 .dead, .finish 14 .committed] = _)⟩

/-- Pages that the process has not needed leave a gap, and a swept transaction is reported as
committed once the cache starts behind it. -/
theorem not_contiguous_not_committed :
    (¬ ∀ events trace, sweptTrace.run events = some trace → trace.dbb.Contiguous) ∧
      ¬ ∀ events trace number after, sweptTrace.run events = some trace →
        trace.dbb.cacheState number = .ok (.onPage committed, after) →
          after.inventory.fetchState number = committed := by
  refine ⟨fun claim => ?_, fun claim => ?_⟩
  · have contiguous := claim [.fetch 1, .advance 12, .fetch 3] _ rfl
    exact absurd (List.IsChain.rel contiguous) (by decide)
  · have genuine := claim [.advance 12, .fetch 3] _ 5 _ rfl rfl
    exact absurd genuine (by decide)

end TipCache
end Firebird
