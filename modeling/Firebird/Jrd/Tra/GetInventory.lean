import Mathlib
import Firebird.Jrd.Tra.Inventory
import Firebird.Library.ByteMemory

/-!
# Filling a snapshot's bit vector

`TRA_get_inventory` of `jrd/tra.cpp` copies the inventory pages of a range of transactions one
behind the other, and `TRA_state` reads the copy.  `transaction_start` rounds the first number down
to a byte (`snapshotBase`) before it calls the one and keeps the number itself for the other.
-/

namespace Firebird

/-- The inventory pages of a database.  `dbb_t_pages` finds them by a ULONG sequence, and page 0 is
the header page, so that there are fewer than `2 ^ 32` of them. -/
structure InventoryPages extends Inventory where
  count : Nat
  count_lt : count < 2 ^ 32

namespace InventoryPages

/-- A transaction number that has its state on an inventory page. -/
structure TraNumber (pages : InventoryPages) where
  number : Nat
  on_page : number / pages.transPerTIP < pages.count

variable (pages : InventoryPages)

/-- The loop of `TRA_get_inventory`: the pages from `sequence` to `last`. -/
def successivePages (sequence last top : Nat) : List UInt8 :=
  if sequence ≤ last then
    pages.nextBytes sequence top ++ successivePages (sequence + 1) last top
  else []
termination_by last + 1 - sequence

/-- What `TRA_get_inventory` moves into the bit vector. -/
def getInventory (base top : Nat) : List UInt8 :=
  let sequence := base / pages.transPerTIP % 2 ^ 32
  let last := top / pages.transPerTIP % 2 ^ 32
  pages.firstBytes base top ++ pages.successivePages (sequence + 1) last top

/-- The bytes of the inventory from one index up to another. -/
def bytesBetween (start stop : Nat) : List UInt8 :=
  ByteMemory.load pages.byteAt start (stop - start)

theorem length_bytesBetween (start stop : Nat) :
    (pages.bytesBetween start stop).length = stop - start :=
  ByteMemory.length_load _ _ _

theorem bytesBetween_append {start middle stop : Nat} (before : start ≤ middle)
    (behind : middle ≤ stop) :
    pages.bytesBetween start middle ++ pages.bytesBetween middle stop =
      pages.bytesBetween start stop := by
  have parts : stop - start = (middle - start) + (stop - middle) := by omega
  rw [bytesBetween, bytesBetween, bytesBetween, parts, ByteMemory.load_add,
    Nat.add_sub_cancel' before]

variable {base top : Nat}

theorem pageBytes_between {sequence : Nat} (aligned : base % 4 = 0)
    (first : base / pages.transPerTIP ≤ sequence) (last : sequence ≤ top / pages.transPerTIP)
    (ordered : base ≤ top) :
    pages.pageBytes base top sequence =
      pages.bytesBetween (pages.copyStart base sequence) (pages.copyEnd top sequence) :=
  pages.pageBytes_eq aligned first last ordered

/-- The loop copies everything from its first page up to the byte of `top`. -/
theorem successivePages_eq {sequence : Nat} (aligned : base % 4 = 0)
    (first : base / pages.transPerTIP < sequence)
    (last : sequence ≤ top / pages.transPerTIP + 1) (ordered : base ≤ top) :
    pages.successivePages sequence (top / pages.transPerTIP) top =
      pages.bytesBetween (min (top / 4 + 1) (sequence * pages.tipBytes)) (top / 4 + 1) := by
  have positive := pages.tipBytes_pos
  induction remaining : top / pages.transPerTIP + 1 - sequence generalizing sequence with
  | zero =>
      have behind : top / pages.transPerTIP < sequence := by omega
      rw [pages.div_transPerTIP, Nat.div_lt_iff_lt_mul positive] at behind
      rw [successivePages, if_neg (by omega), Nat.min_eq_left (by omega), bytesBetween,
        Nat.sub_self]
      rfl
  | succ remaining ih =>
      have inside : sequence ≤ top / pages.transPerTIP := by omega
      have top_page : sequence * pages.tipBytes ≤ top / 4 := by
        rwa [pages.div_transPerTIP, Nat.le_div_iff_mul_le positive] at inside
      have base_page : base / 4 < sequence * pages.tipBytes := by
        rwa [pages.div_transPerTIP, Nat.div_lt_iff_lt_mul positive] at first
      have next_page : (sequence + 1) * pages.tipBytes =
          sequence * pages.tipBytes + pages.tipBytes := Nat.succ_mul _ _
      have page := pages.pageBytes_between aligned first.le inside ordered
      rw [Inventory.pageBytes, if_neg (by omega), Inventory.copyStart, Inventory.copyEnd,
        Nat.max_eq_right base_page.le] at page
      rw [successivePages, if_pos inside, page,
        ih (by omega) (by omega) (by omega),
        Nat.min_eq_right (show sequence * pages.tipBytes ≤ top / 4 + 1 by omega)]
      apply pages.bytesBetween_append
      · omega
      · exact Nat.min_le_left _ _

/-- The bit vector holds the inventory from the byte of `base` to the byte of `top`. -/
theorem getInventory_eq (aligned : base % 4 = 0) (ordered : base ≤ top)
    (on_page : top / pages.transPerTIP < pages.count) :
    pages.getInventory base top = pages.bytesBetween (base / 4) (top / 4 + 1) := by
  have positive := pages.tipBytes_pos
  have count_lt := pages.count_lt
  have page_le : base / pages.transPerTIP ≤ top / pages.transPerTIP :=
    Nat.div_le_div_right ordered
  have first_page : base / pages.transPerTIP * pages.tipBytes ≤ base / 4 := by
    rw [pages.div_transPerTIP]
    exact Nat.div_mul_le_self _ _
  have next_page : (base / pages.transPerTIP + 1) * pages.tipBytes =
      base / pages.transPerTIP * pages.tipBytes + pages.tipBytes := Nat.succ_mul _ _
  have base_page : base / 4 < (base / pages.transPerTIP + 1) * pages.tipBytes := by
    rw [pages.div_transPerTIP]
    exact (Nat.div_lt_iff_lt_mul positive).mp (Nat.lt_succ_self _)
  have page := pages.pageBytes_between aligned le_rfl page_le ordered
  rw [Inventory.pageBytes, if_pos rfl, Inventory.copyStart, Inventory.copyEnd,
    Nat.max_eq_left first_page] at page
  rw [getInventory, Nat.mod_eq_of_lt (page_le.trans_lt (on_page.trans count_lt)),
    Nat.mod_eq_of_lt (on_page.trans count_lt), page,
    pages.successivePages_eq aligned (Nat.lt_succ_self _) (by omega) ordered]
  apply pages.bytesBetween_append
  · omega
  · exact Nat.min_le_left _ _

/-- The bit vector that `transaction_start` allocates is filled to its end. -/
theorem length_getInventory (aligned : base % 4 = 0) (ordered : base ≤ top)
    (on_page : top / pages.transPerTIP < pages.count) :
    (pages.getInventory base top).length = (top + 1 - base + 3) / 4 := by
  rw [pages.getInventory_eq aligned ordered on_page, length_bytesBetween]
  omega

/-- A snapshot gives every transaction of its range the state that is stored on its page. -/
theorem state_getInventory (oldest top : pages.TraNumber) (number : Nat)
    (from_oldest : oldest.number ≤ number) (up_to_top : number ≤ top.number) :
    traState (pages.getInventory (snapshotBase oldest.number) top.number) oldest.number number =
      pages.fetchState number := by
  have base_le : snapshotBase oldest.number ≤ oldest.number := Nat.sub_le _ _
  have aligned : snapshotBase oldest.number % 4 = 0 := by
    rw [snapshotBase]
    omega
  have index_eq : transOffset (number - snapshotBase oldest.number) =
      number / 4 - snapshotBase oldest.number / 4 := by
    rw [transOffset]
    omega
  have inside : number / 4 - snapshotBase oldest.number / 4 <
      top.number / 4 + 1 - snapshotBase oldest.number / 4 := by omega
  have place : snapshotBase oldest.number / 4 +
      (number / 4 - snapshotBase oldest.number / 4) = number / 4 := by omega
  rw [traState, pages.getInventory_eq aligned (by omega) top.on_page, index_eq, pages.fetchState_eq,
    List.getD_eq_getElem _ _ (by rw [length_bytesBetween]; exact inside)]
  simp only [bytesBetween, ByteMemory.load, List.getElem_map, List.getElem_range, place]

/-- Four pages of eight transactions each. -/
def fourPages : InventoryPages where
  tipBytes := 2
  tipBytes_pos := by decide
  tip_transactions := fun sequence byte => UInt8.ofNat (27 + 64 * sequence + 7 * byte)
  count := 4
  count_lt := by decide

theorem state_getInventory_fourPages :
    traState (fourPages.getInventory (snapshotBase 6) 29) 6 13 = fourPages.fetchState 13 :=
  fourPages.state_getInventory ⟨6, by decide⟩ ⟨29, by decide⟩ 13 (by decide) (by decide)

end InventoryPages
end Firebird
