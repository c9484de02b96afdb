import Firebird.Jrd.Tra.TipSearch
import Mathlib.Data.List.Chain

/-!
# Filling the transaction inventory cache

`initializeTpc` and `cacheTransactions` with the data they read: the header page, the inventory and
the process's own notion of the oldest transaction.  A fill copies consecutive inventory pages
behind the cached ones; a gap it has to leave lies behind pages that its last loop releases.
-/

namespace Firebird
namespace TipCache

open TransactionState

/-- `MAX_TRA_NUMBER`. -/
def MAX_TRA_NUMBER : Nat := 0x0000FFFFFFFFFFFF

/-- What a process sees of a database: the shared pages and its own memory. -/
structure Database (tipBytes : Nat) where
  /-- The inventory pages on disk, shared by all processes. -/
  inventory : Inventory
  sized : inventory.tipBytes = tipBytes
  hdr_oldest_transaction : Nat
  hdr_next_transaction : Nat
  /-- `BUGCHECK(267)` of `bump_transaction_id`. -/
  oldest_le_next : hdr_oldest_transaction ≤ hdr_next_transaction
  /-- The last number is never given out. -/
  next_lt_max : hdr_next_transaction < MAX_TRA_NUMBER
  readOnly : Bool
  /-- The process's own "oldest interesting" transaction. -/
  dbb_oldest_transaction : Nat
  dbb_pc_transactions : Option (List Nat)
  /-- States that `TRA_wait` has read and is about to store in the cache. -/
  noted : List (Nat × TransactionState)
  cache : TipCache tipBytes

variable {tipBytes : Nat}

namespace Database

theorem positive (dbb : Database tipBytes) : 0 < tipBytes := by
  rw [← dbb.sized]
  exact dbb.inventory.tipBytes_pos

/-- `TPC_update_cache` with an inventory page. -/
def cachePage (dbb : Database tipBytes) (sequence : Nat) : Database tipBytes :=
  { dbb with
    cache := dbb.cache.updateCache dbb.dbb_oldest_transaction (pageCopy dbb.inventory sequence)
      (by rw [length_pageCopy, dbb.sized]) sequence }

/-- `fetch_inventory_page`, and one `CCH_HANDOFF` of `TRA_get_inventory`.  There is a page for
every number given out so far. -/
def fetchInventoryPage (dbb : Database tipBytes) (sequence : Nat) :
    Except Fault (Database tipBytes) :=
  if sequence ≤ dbb.hdr_next_transaction / (4 * tipBytes) then
    .ok (dbb.cachePage sequence)
  else
    .error (.bugcheck 165)

/-- Fetch consecutive pages. -/
def fetchPages (dbb : Database tipBytes) (sequence : Nat) :
    Nat → Except Fault (Database tipBytes)
  | 0 => .ok dbb
  | count + 1 =>
      match dbb.fetchInventoryPage sequence with
      | .error fault => .error fault
      | .ok dbb => dbb.fetchPages (sequence + 1) count

/-- `TRA_get_inventory` without a bit vector: the first page is fetched in any case. -/
def getInventory (dbb : Database tipBytes) (base top : Nat) : Except Fault (Database tipBytes) :=
  let sequence := base / (4 * tipBytes)
  let last := top / (4 * tipBytes)
  dbb.fetchPages sequence (last - sequence + 1)

/-- `cacheTransactions`. -/
def cacheTransactions (dbb : Database tipBytes) (oldest : Nat) :
    Except Fault (Database tipBytes) :=
  let top := dbb.hdr_next_transaction
  let hdr_oldest := dbb.hdr_oldest_transaction
  match dbb.getInventory (max oldest hdr_oldest) top with
  | .error fault => .error fault
  | .ok dbb => .ok { dbb with cache := dbb.cache.trim hdr_oldest }

/-- `initializeTpc`. -/
def initializeTpc (dbb : Database tipBytes) (number : Nat) : Except Fault (Database tipBytes) :=
  match dbb.cache.m_cache.getLast? with
  | none => dbb.cacheTransactions 0
  | some tip_cache =>
      if number < tip_cache.tpc_base + 4 * tipBytes then
        .ok dbb
      else if tip_cache.tpc_base < MAX_TRA_NUMBER - 4 * tipBytes then
        dbb.cacheTransactions (tip_cache.tpc_base + 4 * tipBytes)
      else
        .ok dbb

/-- `cacheState`. -/
def cacheState (dbb : Database tipBytes) (number : Nat) :
    Except Fault (CachedState × Database tipBytes) :=
  if number != 0 && precommited dbb.dbb_pc_transactions number then
    .ok (.precommitted, dbb)
  else do
    let dbb ← (if dbb.cache.m_cache.isEmpty then dbb.initializeTpc number else .ok dbb)
    let state ← dbb.cache.pageState number
    .ok (.onPage state, dbb)

/-- `findStates`. -/
def findStates (dbb : Database tipBytes) (minNumber maxNumber : Nat) (mask : UInt32) :
    Except Fault (Option (Nat × CachedState) × Database tipBytes) := do
  let dbb ← dbb.initializeTpc maxNumber
  let outcome ← dbb.cache.search dbb.dbb_pc_transactions minNumber maxNumber mask
  .ok (outcome, dbb)

/-- What the process takes for settled: older transactions are committed or swept. -/
def settled (dbb : Database tipBytes) : Nat :=
  max dbb.hdr_oldest_transaction dbb.dbb_oldest_transaction

/-- The cached pages follow one another without a gap. -/
def Contiguous (dbb : Database tipBytes) : Prop :=
  dbb.cache.m_cache.IsChain fun left right => right.tpc_base = left.tpc_base + 4 * tipBytes

/-- The first cached page starts no later than some transaction. -/
def Reaches (dbb : Database tipBytes) (bound : Nat) : Prop :=
  ∀ front ∈ dbb.cache.m_cache.head?, front.tpc_base ≤ bound

end Database

/-- The cached pages during a fill: a gap lies behind a page that will be released, and is closed
by a page that starts no later than the oldest interesting transaction. -/
structure Filling (tipBytes settled hdr_oldest : Nat) (pages : List TxPage) : Prop where
  linked : pages.IsChain fun left right =>
    right.tpc_base = left.tpc_base + 4 * tipBytes ∨
      left.tpc_base + 4 * tipBytes < hdr_oldest ∧ right.tpc_base ≤ settled
  front_le : ∀ front ∈ pages.head?, front.tpc_base ≤ settled

/-- A page that starts at `base` may be put behind the cached ones during a fill. -/
def Follows (tipBytes settled hdr_oldest : Nat) (pages : List TxPage) (base : Nat) : Prop :=
  match pages.getLast? with
  | none => base ≤ settled
  | some last =>
      last.tpc_base < base ∧
        (base = last.tpc_base + 4 * tipBytes ∨
          last.tpc_base + 4 * tipBytes < hdr_oldest ∧ base ≤ settled)

variable {settled hdr_oldest : Nat}

/-- Releasing settled pages from the front. -/
theorem Filling.release {pages : List TxPage} {test : TxPage → Bool}
    (filling : Filling tipBytes settled hdr_oldest pages)
    (old : ∀ page, test page = true → page.tpc_base + 4 * tipBytes ≤ settled) :
    Filling tipBytes settled hdr_oldest (pages.dropWhile test) := by
  induction pages with
  | nil => exact filling
  | cons page later ih =>
      by_cases dropped : test page = true
      · rw [List.dropWhile_cons_of_pos dropped]
        have page_old := old page dropped
        have rest := List.isChain_cons.mp filling.linked
        refine ih ⟨rest.2, fun front is_front => ?_⟩
        rcases rest.1 front is_front with next | ⟨-, within⟩
        · exact next.trans_le page_old
        · exact within
      · rw [List.dropWhile_cons_of_neg dropped]
        exact filling

theorem Follows.release {pages : List TxPage} {test : TxPage → Bool} {base : Nat}
    (follows : Follows tipBytes settled hdr_oldest pages base)
    (old : ∀ page, test page = true → page.tpc_base + 4 * tipBytes ≤ settled) :
    Follows tipBytes settled hdr_oldest (pages.dropWhile test) base := by
  induction pages with
  | nil => exact follows
  | cons page later ih =>
      by_cases dropped : test page = true
      · rw [List.dropWhile_cons_of_pos dropped]
        refine ih ?_
        cases later with
        | nil =>
            have page_old := old page dropped
            rcases follows.2 with next | ⟨-, within⟩
            · exact next.trans_le page_old
            · exact within
        | cons second rest =>
            rw [Follows, List.getLast?_cons_cons] at follows
            exact follows
      · rw [List.dropWhile_cons_of_neg dropped]
        exact follows

/-- One fetched page behind the cached ones. -/
theorem Filling.updateCache {cache : TipCache tipBytes}
    (filling : Filling tipBytes settled hdr_oldest cache.m_cache) {oldest sequence : Nat}
    (oldest_le : oldest ≤ settled) {bytes : List UInt8} {whole : bytes.length = tipBytes}
    (follows : Follows tipBytes settled hdr_oldest cache.m_cache (sequence * (4 * tipBytes))) :
    Filling tipBytes settled hdr_oldest (cache.updateCache oldest bytes whole sequence).m_cache ∧
      (cache.updateCache oldest bytes whole sequence).m_cache.getLast? =
        some { tpc_base := sequence * (4 * tipBytes), tpc_transactions := bytes } := by
  have old : ∀ page : TxPage, decide (page.tpc_base + 4 * tipBytes ≤ oldest) = true →
      page.tpc_base + 4 * tipBytes ≤ settled :=
    fun page released => (of_decide_eq_true released).trans oldest_le
  have kept := filling.release old
  have next := follows.release old
  have sorted := (cache.dropFront fun page =>
    decide (page.tpc_base + 4 * tipBytes ≤ oldest)).ordered
  rw [TipCache.updateCache, storePage]
  simp only [dropFront] at sorted ⊢
  generalize cache.m_cache.dropWhile
    (fun page => decide (page.tpc_base + 4 * tipBytes ≤ oldest)) = pages at *
  rw [SortedArray.place_of_lt fun other mem => ?_]
  · refine ⟨⟨List.isChain_append.mpr ⟨kept.linked, List.isChain_singleton _, ?_⟩, ?_⟩,
      List.getLast?_concat⟩
    · rintro last is_last page is_page
      rw [← Option.some.inj is_page]
      rw [Follows, Option.mem_def.mp is_last] at next
      exact next.2
    · intro front is_front
      cases pages with
      | nil =>
          rw [← Option.some.inj is_front]
          exact next
      | cons head tail => exact kept.front_le front is_front
  · cases is_last : pages.getLast? with
    | none =>
        rw [List.getLast?_eq_none_iff.mp is_last] at mem
        cases mem
    | some last =>
        rw [Follows, is_last] at next
        exact (sorted.le_getLast is_last mem).trans_lt next.1

namespace Database

@[simp] theorem hdr_next_cachePage (dbb : Database tipBytes) (sequence : Nat) :
    (dbb.cachePage sequence).hdr_next_transaction = dbb.hdr_next_transaction :=
  rfl

@[simp] theorem dbb_oldest_cachePage (dbb : Database tipBytes) (sequence : Nat) :
    (dbb.cachePage sequence).dbb_oldest_transaction = dbb.dbb_oldest_transaction :=
  rfl

theorem fetchPages_succ {dbb after : Database tipBytes} {sequence count : Nat} :
    dbb.fetchPages sequence (count + 1) = .ok after ↔
      sequence ≤ dbb.hdr_next_transaction / (4 * tipBytes) ∧
        (dbb.cachePage sequence).fetchPages (sequence + 1) count = .ok after := by
  rw [fetchPages, fetchInventoryPage]
  by_cases exists_page : sequence ≤ dbb.hdr_next_transaction / (4 * tipBytes)
  · simp [exists_page]
  · simp [exists_page]

theorem cachePage_filling {dbb : Database tipBytes} {sequence : Nat}
    (filling : Filling tipBytes settled hdr_oldest dbb.cache.m_cache)
    (oldest_le : dbb.dbb_oldest_transaction ≤ settled)
    (follows : Follows tipBytes settled hdr_oldest dbb.cache.m_cache (sequence * (4 * tipBytes))) :
    Filling tipBytes settled hdr_oldest (dbb.cachePage sequence).cache.m_cache ∧
      ∃ last ∈ (dbb.cachePage sequence).cache.m_cache.getLast?,
        last.tpc_base = sequence * (4 * tipBytes) := by
  have whole : (pageCopy dbb.inventory sequence).length = tipBytes := by
    rw [length_pageCopy, dbb.sized]
  obtain ⟨kept, is_last⟩ := @Filling.updateCache tipBytes settled hdr_oldest dbb.cache filling
    dbb.dbb_oldest_transaction sequence oldest_le (pageCopy dbb.inventory sequence) whole follows
  exact ⟨kept, _, is_last, rfl⟩

/-- Consecutive fetches behind the cached pages. -/
theorem fetchPages_filling {dbb after : Database tipBytes} {count sequence : Nat}
    (filling : Filling tipBytes settled hdr_oldest dbb.cache.m_cache)
    (oldest_le : dbb.dbb_oldest_transaction ≤ settled)
    (follows : Follows tipBytes settled hdr_oldest dbb.cache.m_cache (sequence * (4 * tipBytes)))
    (result : dbb.fetchPages sequence (count + 1) = .ok after) :
    Filling tipBytes settled hdr_oldest after.cache.m_cache ∧
      ∃ last ∈ after.cache.m_cache.getLast?,
        last.tpc_base = (sequence + count) * (4 * tipBytes) := by
  induction count generalizing dbb sequence with
  | zero =>
      cases (fetchPages_succ.mp result).2
      exact cachePage_filling filling oldest_le follows
  | succ count ih =>
      obtain ⟨kept, last, is_last, last_eq⟩ := cachePage_filling filling oldest_le follows
      have next : Follows tipBytes settled hdr_oldest (dbb.cachePage sequence).cache.m_cache
          ((sequence + 1) * (4 * tipBytes)) := by
        have := dbb.positive
        rw [Follows, Option.mem_def.mp is_last]
        refine ⟨?_, .inl ?_⟩
        · rw [last_eq]
          exact Nat.mul_lt_mul_of_pos_right (Nat.lt_succ_self sequence) (by omega)
        · rw [last_eq]
          exact Nat.succ_mul _ _
      rw [show sequence + (count + 1) = sequence + 1 + count by omega]
      exact @ih (dbb.cachePage sequence) (sequence + 1) kept oldest_le next
        (fetchPages_succ.mp result).2

/-- A fill finds its pages. -/
theorem fetchPages_ok {dbb : Database tipBytes} {count sequence : Nat}
    (pages : sequence + count ≤ dbb.hdr_next_transaction / (4 * tipBytes) + 1) :
    ∃ after, dbb.fetchPages sequence count = .ok after := by
  induction count generalizing dbb sequence with
  | zero => exact ⟨dbb, rfl⟩
  | succ count ih =>
      obtain ⟨after, rest⟩ := @ih (dbb.cachePage sequence) (sequence + 1)
        (by rw [hdr_next_cachePage]; omega)
      exact ⟨after, fetchPages_succ.mpr ⟨by omega, rest⟩⟩

/-- Fetches change the cache only. -/
theorem fetchPages_frame {dbb after : Database tipBytes} {count sequence : Nat}
    (result : dbb.fetchPages sequence count = .ok after) :
    after = { dbb with cache := after.cache } := by
  induction count generalizing dbb sequence with
  | zero =>
      cases result
      rfl
  | succ count ih =>
      rw [ih (fetchPages_succ.mp result).2]
      rfl

/-- What the last loop of a fill leaves has no gap. -/
theorem contiguous_of_filling {dbb : Database tipBytes}
    (filling : Filling tipBytes settled hdr_oldest dbb.cache.m_cache)
    (old : hdr_oldest ≤ settled) :
    Contiguous { dbb with cache := dbb.cache.trim hdr_oldest } ∧
      Reaches { dbb with cache := dbb.cache.trim hdr_oldest } settled := by
  have kept : Filling tipBytes settled hdr_oldest (dbb.cache.trim hdr_oldest).m_cache :=
    filling.release fun page released => (of_decide_eq_true released).le.trans old
  have recent : ∀ page ∈ (dbb.cache.trim hdr_oldest).m_cache,
      ¬ page.tpc_base + 4 * tipBytes < hdr_oldest := by
    intro page mem
    have sorted := (dbb.cache.trim hdr_oldest).ordered
    have head_kept := List.head?_dropWhile_not (fun page : TxPage =>
      decide (page.tpc_base + 4 * tipBytes < hdr_oldest)) dbb.cache.m_cache
    rw [trim, dropFront] at sorted mem
    simp only at sorted mem
    cases pages : dbb.cache.m_cache.dropWhile fun page =>
        decide (page.tpc_base + 4 * tipBytes < hdr_oldest) with
    | nil =>
        rw [pages] at mem
        cases mem
    | cons front later =>
        rw [pages] at mem sorted head_kept
        have front_recent := of_decide_eq_false head_kept
        rw [SortedArray.Sorted, List.pairwise_cons] at sorted
        rcases List.mem_cons.mp mem with rfl | behind
        · exact front_recent
        · have := sorted.1 page behind
          omega
  refine ⟨kept.linked.imp_of_mem_imp fun left right left_mem _ link => ?_, kept.front_le⟩
  rcases link with next | ⟨gap, -⟩
  · exact next
  · exact absurd gap (recent left left_mem)

theorem getLast?_dropWhile {pages : List TxPage} {test : TxPage → Bool} {last : TxPage}
    (is_last : pages.getLast? = some last) (kept : test last = false) :
    (pages.dropWhile test).getLast? = some last := by
  induction pages with
  | nil => exact is_last
  | cons page later ih =>
      by_cases dropped : test page = true
      · rw [List.dropWhile_cons_of_pos dropped]
        cases later with
        | nil =>
            rw [List.getLast?_singleton] at is_last
            rw [Option.some.inj is_last, kept] at dropped
            cases dropped
        | cons second rest =>
            rw [List.getLast?_cons_cons] at is_last
            exact ih is_last
      · rw [List.dropWhile_cons_of_neg dropped]
        exact is_last

/-- `cacheTransactions`, called for the transactions behind the cached pages. -/
theorem cacheTransactions_spec {dbb : Database tipBytes} (contiguous : dbb.Contiguous)
    (reaches : dbb.Reaches settled) (settled_le : dbb.settled ≤ settled) {oldest : Nat}
    (behind : match dbb.cache.m_cache.getLast? with
      | none => oldest = 0
      | some last => oldest = last.tpc_base + 4 * tipBytes)
    (started : oldest ≤ dbb.hdr_next_transaction) :
    ∃ after, dbb.cacheTransactions oldest = .ok after ∧
      (after.Contiguous ∧ after.Reaches settled) ∧ after = { dbb with cache := after.cache } ∧
      ∃ last ∈ after.cache.m_cache.getLast?,
        dbb.hdr_next_transaction < last.tpc_base + 4 * tipBytes := by
  have positive := dbb.positive
  have span : 0 < 4 * tipBytes := by omega
  have bounded := dbb.oldest_le_next
  have hdr_settled : dbb.hdr_oldest_transaction ≤ settled :=
    (Nat.le_max_left _ _).trans settled_le
  have dbb_settled : dbb.dbb_oldest_transaction ≤ settled :=
    (Nat.le_max_right _ _).trans settled_le
  generalize first_eq : max oldest dbb.hdr_oldest_transaction / (4 * tipBytes) = first
  have within : first ≤ dbb.hdr_next_transaction / (4 * tipBytes) := by
    rw [← first_eq]
    exact Nat.div_le_div_right (by omega)
  have first_le : first * (4 * tipBytes) ≤ max oldest dbb.hdr_oldest_transaction := by
    rw [← first_eq]
    exact Nat.div_mul_le_self _ _
  have filling : Filling tipBytes settled dbb.hdr_oldest_transaction dbb.cache.m_cache :=
    ⟨contiguous.imp fun _ _ next => .inl next, reaches⟩
  have follows : Follows tipBytes settled dbb.hdr_oldest_transaction dbb.cache.m_cache
      (first * (4 * tipBytes)) := by
    rw [Follows]
    cases is_last : dbb.cache.m_cache.getLast? with
    | none =>
        rw [is_last] at behind
        simp only at behind ⊢
        omega
    | some last =>
        rw [is_last] at behind
        obtain ⟨sequence, base_eq⟩ := dbb.cache.aligned last (List.mem_of_getLast? is_last)
        have next_eq : oldest = (sequence + 1) * (4 * tipBytes) := by
          rw [Nat.succ_mul, Nat.mul_comm sequence, ← base_eq]
          exact behind
        simp only at behind ⊢
        have reached : oldest ≤ first * (4 * tipBytes) := by
          rw [next_eq, ← first_eq]
          refine Nat.mul_le_mul_right _ ((Nat.le_div_iff_mul_le span).mpr ?_)
          rw [← next_eq]
          exact Nat.le_max_left _ _
        omega
  obtain ⟨fetched, result⟩ := @fetchPages_ok tipBytes dbb
    (dbb.hdr_next_transaction / (4 * tipBytes) - first + 1) first (by omega)
  have frame := fetchPages_frame result
  obtain ⟨filled, last, is_last, last_eq⟩ :=
    fetchPages_filling filling dbb_settled follows result
  have newest : dbb.hdr_next_transaction < last.tpc_base + 4 * tipBytes := by
    have := Nat.div_add_mod' dbb.hdr_next_transaction (4 * tipBytes)
    have := Nat.mod_lt dbb.hdr_next_transaction span
    rw [last_eq, show first + (dbb.hdr_next_transaction / (4 * tipBytes) - first) =
      dbb.hdr_next_transaction / (4 * tipBytes) by omega]
    omega
  refine ⟨{ fetched with cache := fetched.cache.trim dbb.hdr_oldest_transaction }, ?_, ?_, ?_,
    last, ?_, newest⟩
  · rw [cacheTransactions, getInventory]
    simp only [first_eq, result]
  · exact contiguous_of_filling filled hdr_settled
  · rw [frame]
  · exact getLast?_dropWhile is_last (decide_eq_false (by omega))

/-- `initializeTpc` keeps the cache without gaps and extends it to the number. -/
theorem initializeTpc_spec {dbb : Database tipBytes} (contiguous : dbb.Contiguous)
    (reaches : dbb.Reaches settled) (settled_le : dbb.settled ≤ settled) {number : Nat}
    (started : number ≤ dbb.hdr_next_transaction) :
    ∃ after, dbb.initializeTpc number = .ok after ∧
      (after.Contiguous ∧ after.Reaches settled) ∧ after = { dbb with cache := after.cache } ∧
      ∃ last ∈ after.cache.m_cache.getLast?, number < last.tpc_base + 4 * tipBytes := by
  have bounded := dbb.next_lt_max
  have fill := fun oldest =>
    @cacheTransactions_spec tipBytes settled dbb contiguous reaches settled_le oldest
  rw [initializeTpc]
  cases is_last : dbb.cache.m_cache.getLast? with
  | none =>
      rw [is_last] at fill
      obtain ⟨after, result, kept, frame, last, at_end, newest⟩ := fill 0 rfl (Nat.zero_le _)
      exact ⟨after, result, kept, frame, last, at_end, started.trans_lt newest⟩
  | some tip_cache =>
      rw [is_last] at fill
      simp only
      by_cases cached : number < tip_cache.tpc_base + 4 * tipBytes
      · exact ⟨dbb, if_pos cached, ⟨contiguous, reaches⟩, rfl, tip_cache, is_last, cached⟩
      · rw [if_neg cached, if_pos (by omega)]
        obtain ⟨after, result, kept, frame, last, at_end, newest⟩ := fill _ rfl (by omega)
        exact ⟨after, result, kept, frame, last, at_end, started.trans_lt newest⟩

end Database

/-- Pages without a gap hold every transaction from the first to the last. -/
theorem covered_of_contiguous {pages : List TxPage} {front last : TxPage} {number : Nat}
    (contiguous : pages.IsChain fun left right => right.tpc_base = left.tpc_base + 4 * tipBytes)
    (is_front : front ∈ pages.head?) (is_last : last ∈ pages.getLast?)
    (above : front.tpc_base ≤ number) (below : number < last.tpc_base + 4 * tipBytes) :
    ∃ page ∈ pages, page.tpc_base ≤ number ∧ number < page.tpc_base + 4 * tipBytes := by
  induction pages generalizing front with
  | nil => cases is_front
  | cons page later ih =>
      cases is_front
      rw [List.isChain_cons] at contiguous
      by_cases on_page : number < page.tpc_base + 4 * tipBytes
      · exact ⟨page, List.mem_cons_self, above, on_page⟩
      · cases later with
        | nil =>
            cases is_last
            exact absurd below on_page
        | cons second rest =>
            rw [List.getLast?_cons_cons] at is_last
            have next := contiguous.1 second rfl
            obtain ⟨holder, mem, span⟩ := ih contiguous.2 rfl is_last (by omega)
            exact ⟨holder, List.mem_cons_of_mem _ mem, span⟩

end TipCache
end Firebird
