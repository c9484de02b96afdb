import Firebird.Common.Fault
import Firebird.Jrd.Tra.Inventory
import Firebird.Library.SortedArray
import Mathlib.Data.List.GetD

/-!
# The transaction inventory cache

`TipCache` of `jrd/tpc.cpp`: inventory pages held in memory, sorted by the number of their first
transaction.  A cache carries the facts that its pages are sorted, start on page boundaries and are
whole, so that the searches below need not assume them.
-/

namespace Firebird

open TransactionState

/-- What a query of the cache reports. -/
inductive CachedState where
  /-- A state from an inventory page. -/
  | onPage (state : TransactionState)
  | precommitted
  deriving DecidableEq, Repr

namespace CachedState

/-- The bit of a state in a mask: `1 << state`. -/
def bit : CachedState → UInt32
  | onPage active => 1
  | onPage limbo => 2
  | onPage dead => 4
  | onPage committed => 8
  | precommitted => 32

/-- `check_state`. -/
def check (state : CachedState) (mask : UInt32) : Bool := (state.bit &&& mask) != 0

theorem check_precommitted_only (state : TransactionState) :
    (onPage state).check precommitted.bit = false := by
  cases state <;> decide

end CachedState

/-- `TipCache::TxPage`. -/
structure TxPage where
  tpc_base : Nat
  tpc_transactions : List UInt8
  deriving DecidableEq, Repr

/-- `TipCache::m_cache`, for inventory pages of `tipBytes` bytes. -/
structure TipCache (tipBytes : Nat) where
  m_cache : List TxPage
  ordered : SortedArray.Sorted TxPage.tpc_base m_cache
  aligned : ∀ page ∈ m_cache, 4 * tipBytes ∣ page.tpc_base
  whole : ∀ page ∈ m_cache, page.tpc_transactions.length = tipBytes

/-- `TRA_precommited` with two equal numbers: a test for presence. -/
def precommited (dbb_pc_transactions : Option (List Nat)) (number : Nat) : Bool :=
  match dbb_pc_transactions with
  | none => false
  | some vector => vector.contains number

namespace TipCache

variable {tipBytes : Nat}

/-- The first transaction on the page that holds `number`. -/
def baseOf (tipBytes number : Nat) : Nat := number - number % (4 * tipBytes)

/-- The cache a process starts with. -/
def empty (tipBytes : Nat) : TipCache tipBytes where
  m_cache := []
  ordered := List.Pairwise.nil
  aligned := by simp
  whole := by simp

/-- `m_cache.find(base, pos)`. -/
def find (cache : TipCache tipBytes) (base : Nat) : Option TxPage :=
  SortedArray.find TxPage.tpc_base base cache.m_cache

/-- The state the cache holds for a transaction. -/
def stored (cache : TipCache tipBytes) (number : Nat) : Option TransactionState :=
  (cache.find (baseOf tipBytes number)).map fun page =>
    traState page.tpc_transactions page.tpc_base number

/-- Remove pages from the front while they satisfy a test. -/
def dropFront (cache : TipCache tipBytes) (test : TxPage → Bool) : TipCache tipBytes where
  m_cache := cache.m_cache.dropWhile test
  ordered := cache.ordered.suffix (List.dropWhile_suffix test)
  aligned page mem := cache.aligned page ((List.dropWhile_suffix test).mem mem)
  whole page mem := cache.whole page ((List.dropWhile_suffix test).mem mem)

/-- Store a page: overwrite the cached one or insert it at its place. -/
def storePage (cache : TipCache tipBytes) (page : TxPage) (aligned : 4 * tipBytes ∣ page.tpc_base)
    (whole : page.tpc_transactions.length = tipBytes) : TipCache tipBytes where
  m_cache := SortedArray.place TxPage.tpc_base page cache.m_cache
  ordered := cache.ordered.place page
  aligned other mem := by
    rcases (SortedArray.mem_place cache.ordered).mp mem with rfl | ⟨mem, -⟩
    · exact aligned
    · exact cache.aligned other mem
  whole other mem := by
    rcases (SortedArray.mem_place cache.ordered).mp mem with rfl | ⟨mem, -⟩
    · exact whole
    · exact cache.whole other mem

/-- `updateCache`: a fetched inventory page replaces what is cached of it, after pages older than
`dbb_oldest_transaction` have been released. -/
def updateCache (cache : TipCache tipBytes) (dbb_oldest_transaction : Nat)
    (tip_transactions : List UInt8) (whole : tip_transactions.length = tipBytes) (sequence : Nat) :
    TipCache tipBytes :=
  (cache.dropFront fun page =>
      decide (page.tpc_base + 4 * tipBytes ≤ dbb_oldest_transaction)).storePage
    { tpc_base := sequence * (4 * tipBytes), tpc_transactions := tip_transactions }
    ⟨sequence, Nat.mul_comm _ _⟩ whole

/-- The last loop of `cacheTransactions`. -/
def trim (cache : TipCache tipBytes) (hdr_oldest : Nat) : TipCache tipBytes :=
  cache.dropFront fun page => decide (page.tpc_base + 4 * tipBytes < hdr_oldest)

theorem mem_of_find {cache : TipCache tipBytes} {base : Nat} {page : TxPage}
    (found : cache.find base = some page) : page ∈ cache.m_cache ∧ page.tpc_base = base :=
  (SortedArray.find_eq_some_iff cache.ordered).mp found

/-- `setState`: only the state of a transaction on a cached page is set. -/
def setState (cache : TipCache tipBytes) (number : Nat) (state : TransactionState) :
    TipCache tipBytes :=
  let byte := transOffset (number % (4 * tipBytes))
  match found : cache.find (baseOf tipBytes number) with
  | some page =>
      cache.storePage
        { page with
          tpc_transactions :=
            page.tpc_transactions.set byte
              (setInByte (page.tpc_transactions.getD byte 0) number state) }
        (cache.aligned page (mem_of_find found).1)
        (by rw [List.length_set]; exact cache.whole page (mem_of_find found).1)
  | none => cache

/-- `cacheState` on a filled cache, for a transaction that is not precommitted. -/
def pageState (cache : TipCache tipBytes) (number : Nat) : Except Fault TransactionState :=
  match cache.m_cache with
  | [] => .error .outOfBounds
  | front :: _ =>
      if number < front.tpc_base ∨ number = 0 then
        .ok committed
      else
        match cache.find (baseOf tipBytes number) with
        | some page => .ok (traState page.tpc_transactions page.tpc_base number)
        | none => .ok active

/-- The inner loop of `findStates`: `count` transactions of one page from `number` on. -/
def scanPage (dbb_pc_transactions : Option (List Nat)) (check_precommitted : Bool) (mask : UInt32)
    (page : TxPage) : Nat → Nat → Except Fault (Option (Nat × CachedState))
  | 0, _ => .ok none
  | count + 1, number =>
      if check_precommitted && number != 0 && precommited dbb_pc_transactions number then
        .ok (some (number, .precommitted))
      else if number < page.tpc_base then
        -- The assertion `number >= tpc_base` fails: `TRA_state` would index before the page.
        .error .outOfBounds
      else
        let tx_state := traState page.tpc_transactions page.tpc_base number
        if (CachedState.onPage tx_state).check mask then
          .ok (some (number, .onPage tx_state))
        else
          scanPage dbb_pc_transactions check_precommitted mask page count (number + 1)

/-- The outer loop of `findStates`, over the pages from the one at `pos` on. -/
def scanPages (tipBytes : Nat) (dbb_pc_transactions : Option (List Nat))
    (check_precommitted : Bool) (mask : UInt32) (maxNumber : Nat) :
    List TxPage → Nat → Except Fault (Option (Nat × CachedState))
  | [], _ => .ok none
  | page :: later, number =>
      if maxNumber ≤ number then
        .ok none
      else
        let stop := min (page.tpc_base + 4 * tipBytes) maxNumber
        match scanPage dbb_pc_transactions check_precommitted mask page (stop - number) number with
        | .error fault => .error fault
        | .ok (some found) => .ok (some found)
        | .ok none =>
            scanPages tipBytes dbb_pc_transactions check_precommitted mask maxNumber later
              (max number stop)

/-- `findStates` after the cache has been extended; `none` stands for the result 0 with `state`
unchanged. -/
def search (cache : TipCache tipBytes) (dbb_pc_transactions : Option (List Nat))
    (minNumber maxNumber : Nat) (mask : UInt32) : Except Fault (Option (Nat × CachedState)) :=
  match cache.m_cache with
  | [] => .error .outOfBounds
  | front :: _ =>
      if maxNumber < front.tpc_base then
        .ok none
      else if (minNumber < front.tpc_base ∨ minNumber = 0) ∧
          (CachedState.onPage committed).check mask then
        .ok (some (minNumber, .onPage committed))
      else
        let start :=
          if minNumber < front.tpc_base ∨ minNumber = 0 then front.tpc_base else minNumber
        if CachedState.precommitted.check mask && dbb_pc_transactions.isNone &&
            mask == CachedState.precommitted.bit then
          .ok none
        else
          let check_precommitted :=
            CachedState.precommitted.check mask && dbb_pc_transactions.isSome
          match cache.find (baseOf tipBytes start) with
          | none => .ok none
          | some _ =>
              scanPages tipBytes dbb_pc_transactions check_precommitted mask maxNumber
                (SortedArray.seek TxPage.tpc_base (baseOf tipBytes start) cache.m_cache) start

/-! ## What the operations do to the stored states -/

/-- The bytes of an inventory page, as `updateCache` copies them. -/
def pageCopy (inventory : Inventory) (sequence : Nat) : List UInt8 :=
  (List.range inventory.tipBytes).map (inventory.tip_transactions sequence)

@[simp] theorem length_pageCopy (inventory : Inventory) (sequence : Nat) :
    (pageCopy inventory sequence).length = inventory.tipBytes := by
  rw [pageCopy, List.length_map, List.length_range]

theorem baseOf_eq (number : Nat) :
    baseOf tipBytes number = number / (4 * tipBytes) * (4 * tipBytes) := by
  have := Nat.div_add_mod' number (4 * tipBytes)
  rw [baseOf]
  omega

theorem baseOf_le (number : Nat) : baseOf tipBytes number ≤ number := Nat.sub_le _ _

theorem snapshotBase_of_dvd {base : Nat} (aligned : 4 * tipBytes ∣ base) :
    snapshotBase base = base := by
  have : 4 ∣ base := Nat.dvd_trans (Nat.dvd_mul_right 4 tipBytes) aligned
  rw [snapshotBase]
  omega

theorem offset_in_page (number : Nat) :
    transOffset (number - baseOf tipBytes number) = transOffset (number % (4 * tipBytes)) := by
  have := Nat.mod_le number (4 * tipBytes)
  rw [baseOf]
  congr 1
  omega

theorem transOffset_lt (positive : 0 < tipBytes) (number : Nat) :
    transOffset (number % (4 * tipBytes)) < tipBytes := by
  have := Nat.mod_lt number (Nat.mul_pos (by decide : 0 < 4) positive)
  rw [transOffset]
  omega

/-- A copied page gives every transaction on it the state it has on the page. -/
theorem traState_pageCopy (inventory : Inventory) (number : Nat) :
    traState (pageCopy inventory (number / inventory.transPerTIP))
      (baseOf inventory.tipBytes number) number = inventory.fetchState number := by
  have inside := transOffset_lt inventory.tipBytes_pos number
  rw [traState, snapshotBase_of_dvd (by rw [baseOf_eq]; exact Nat.dvd_mul_left _ _), offset_in_page,
    pageCopy, List.getD_eq_getElem _ _ (by simpa using inside), List.getElem_map,
    List.getElem_range, Inventory.fetchState]
  rfl

theorem find_storePage (cache : TipCache tipBytes) (page : TxPage)
    (aligned : 4 * tipBytes ∣ page.tpc_base) (whole : page.tpc_transactions.length = tipBytes)
    (base : Nat) :
    (cache.storePage page aligned whole).find base =
      if base = page.tpc_base then some page else cache.find base :=
  SortedArray.find_place cache.ordered page base

theorem find_of_dropFront {cache : TipCache tipBytes} {test : TxPage → Bool} {base : Nat}
    {page : TxPage} (found : (cache.dropFront test).find base = some page) :
    cache.find base = some page :=
  SortedArray.find_of_suffix cache.ordered (List.dropWhile_suffix test) found

theorem stored_of_dropFront {cache : TipCache tipBytes} {test : TxPage → Bool} {number : Nat}
    {state : TransactionState} (held : (cache.dropFront test).stored number = some state) :
    cache.stored number = some state := by
  rw [stored, Option.map_eq_some_iff] at held ⊢
  obtain ⟨page, found, same⟩ := held
  exact ⟨page, find_of_dropFront found, same⟩

/-- After a fetch the cache holds, of the transactions on the page, the states read, and of the
others nothing new. -/
theorem stored_updateCache {cache : TipCache tipBytes} {oldest sequence : Nat}
    {bytes : List UInt8} {whole : bytes.length = tipBytes} {number : Nat}
    (positive : 0 < tipBytes) {state : TransactionState}
    (held : (cache.updateCache oldest bytes whole sequence).stored number = some state) :
    if number / (4 * tipBytes) = sequence then
      state = traState bytes (baseOf tipBytes number) number
    else cache.stored number = some state := by
  rw [updateCache, stored, find_storePage] at held
  split
  · rename_i on_page
    have same_base : baseOf tipBytes number = sequence * (4 * tipBytes) := by
      rw [baseOf_eq, on_page]
    rw [if_pos same_base, Option.map_some] at held
    rw [← Option.some.inj held, same_base]
  · rename_i elsewhere
    have other_base : baseOf tipBytes number ≠ sequence * (4 * tipBytes) := by
      rw [baseOf_eq]
      intro same
      exact elsewhere (Nat.eq_of_mul_eq_mul_right (by omega) same)
    rw [if_neg other_base] at held
    exact stored_of_dropFront held

theorem stored_setState (positive : 0 < tipBytes) (cache : TipCache tipBytes)
    (number other : Nat) (state : TransactionState) :
    (cache.setState number state).stored other =
      if other = number then (cache.stored other).map fun _ => state else cache.stored other := by
  rw [setState]
  split
  · rename_i page found
    have mem := mem_of_find found
    have inside := transOffset_lt positive number
    have length := cache.whole page mem.1
    have at_base : snapshotBase page.tpc_base = page.tpc_base :=
      snapshotBase_of_dvd (cache.aligned page mem.1)
    rw [stored, find_storePage]
    simp only
    by_cases same_page : baseOf tipBytes other = page.tpc_base
    · have other_found : cache.find (baseOf tipBytes other) = some page := by
        rw [same_page, mem.2]
        exact found
      have other_offset : transOffset (other - baseOf tipBytes other) =
          transOffset (other % (4 * tipBytes)) := offset_in_page other
      rw [if_pos same_page, stored, other_found, Option.map_some, Option.map_some, Option.map_some,
        traState, traState, at_base, ← same_page, other_offset]
      have other_inside :
          transOffset (other % (4 * tipBytes)) < page.tpc_transactions.length := by
        have := transOffset_lt positive other
        omega
      rw [List.getD_eq_getElem _ _ (by rw [List.length_set]; exact other_inside),
        List.getElem_set]
      have split := Nat.div_add_mod other (4 * tipBytes)
      have split' := Nat.div_add_mod number (4 * tipBytes)
      have same_sequence : 4 * tipBytes * (other / (4 * tipBytes)) =
          4 * tipBytes * (number / (4 * tipBytes)) := by
        have := same_page.trans mem.2
        rw [baseOf, baseOf] at this
        omega
      have low := Nat.mod_mul_right_mod other 4 tipBytes
      have low' := Nat.mod_mul_right_mod number 4 tipBytes
      by_cases same_byte :
          transOffset (number % (4 * tipBytes)) = transOffset (other % (4 * tipBytes))
      · rw [if_pos same_byte, stateInByte_setInByte, same_byte]
        rw [transOffset, transOffset] at same_byte
        by_cases same_slot : other % 4 = number % 4
        · have same : other = number := by omega
          rw [if_pos same_slot, if_pos same]
        · have differ : other ≠ number := fun same => same_slot (by rw [same])
          rw [if_neg same_slot, if_neg differ]
      · have differ : other ≠ number := fun same => same_byte (by rw [same])
        rw [if_neg same_byte, if_neg differ, List.getD_eq_getElem _ _ other_inside]
    · have differ : other ≠ number := fun same => same_page (by rw [same]; exact mem.2.symm)
      rw [if_neg same_page, if_neg differ, stored]
  · rename_i missing
    by_cases same : other = number
    · subst same
      rw [if_pos rfl, stored, missing]
      rfl
    · rw [if_neg same]

end TipCache

end Firebird
