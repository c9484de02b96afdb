import Mathlib.Data.Nat.Bitwise
import Mathlib.Data.Fin.VecNotation
import Mathlib.Logic.Function.Basic

/-!
# Transaction counters on the header page

The header page keeps the low 32 bits of each transaction counter in a field of its own and the
high 16 bits in `hdr_tra_high` (`jrd/ods.h`, `jrd/ods.cpp`).  `TRA_update_counters` of `jrd/tra.cpp`
brings the page up to the counters cached in the `Database` block.
-/

namespace Firebird
namespace HeaderCounters

/-- `BITS_PER_LONG`. -/
def BITS_PER_LONG : Nat := 32

/-- `MAX_ULONG`. -/
def MAX_ULONG : Nat := 0xFFFFFFFF

/-- `MAX_TRA_NUMBER`. -/
def MAX_TRA_NUMBER : Nat := 0x0000FFFFFFFFFFFF

/-- `NEXT_INDEX`. -/
def NEXT_INDEX : Fin 4 := 0

/-- `OIT_INDEX`. -/
def OIT_INDEX : Fin 4 := 1

/-- `OAT_INDEX`. -/
def OAT_INDEX : Fin 4 := 2

/-- `OST_INDEX`. -/
def OST_INDEX : Fin 4 := 3

/-- The transaction counters of a header page. -/
structure HeaderPage where
  hdr_oldest_transaction : UInt32
  hdr_oldest_active : UInt32
  hdr_next_transaction : UInt32
  hdr_oldest_snapshot : UInt32
  hdr_tra_high : Fin 4 → UInt16

/-- The part of the `Database` block that is read; a transaction number has 48 bits. -/
structure Database where
  /-- `DBB_read_only`. -/
  read_only : Bool
  /-- `DBB_new`. -/
  new : Bool
  dbb_next_transaction : Nat
  dbb_oldest_transaction : Nat
  dbb_oldest_active : Nat
  dbb_oldest_snapshot : Nat
  next_le : dbb_next_transaction ≤ MAX_TRA_NUMBER
  transaction_le : dbb_oldest_transaction ≤ MAX_TRA_NUMBER
  active_le : dbb_oldest_active ≤ MAX_TRA_NUMBER
  snapshot_le : dbb_oldest_snapshot ≤ MAX_TRA_NUMBER

/-- `(TraNumber) high << BITS_PER_LONG | low`. -/
def join (high : UInt16) (low : UInt32) : Nat := high.toNat <<< BITS_PER_LONG ||| low.toNat

/-- `(ULONG) (number & MAX_ULONG)`. -/
def lowWord (number : Nat) : UInt32 := UInt32.ofNat (number &&& MAX_ULONG)

/-- `(USHORT) (number >> BITS_PER_LONG)`. -/
def highWord (number : Nat) : UInt16 := UInt16.ofNat (number >>> BITS_PER_LONG)

namespace HeaderPage

variable (page : HeaderPage) (number : Nat)

/-- `getNT`. -/
def getNT : Nat := join (page.hdr_tra_high NEXT_INDEX) page.hdr_next_transaction

/-- `getOIT`. -/
def getOIT : Nat := join (page.hdr_tra_high OIT_INDEX) page.hdr_oldest_transaction

/-- `getOAT`. -/
def getOAT : Nat := join (page.hdr_tra_high OAT_INDEX) page.hdr_oldest_active

/-- `getOST`. -/
def getOST : Nat := join (page.hdr_tra_high OST_INDEX) page.hdr_oldest_snapshot

/-- The assignment to an element of `hdr_tra_high`. -/
def setHigh (index : Fin 4) : HeaderPage :=
  { page with hdr_tra_high := Function.update page.hdr_tra_high index (highWord number) }

/-- `writeNT`. -/
def writeNT : HeaderPage :=
  { page with hdr_next_transaction := lowWord number }.setHigh number NEXT_INDEX

/-- `writeOIT`. -/
def writeOIT : HeaderPage :=
  { page with hdr_oldest_transaction := lowWord number }.setHigh number OIT_INDEX

/-- `writeOAT`. -/
def writeOAT : HeaderPage :=
  { page with hdr_oldest_active := lowWord number }.setHigh number OAT_INDEX

/-- `writeOST`. -/
def writeOST : HeaderPage :=
  { page with hdr_oldest_snapshot := lowWord number }.setHigh number OST_INDEX

end HeaderPage

/-- The condition on which `TRA_update_counters` marks the page. -/
def outdated (header : HeaderPage) (dbb : Database) : Bool :=
  header.getOAT < dbb.dbb_oldest_active || header.getOIT < dbb.dbb_oldest_transaction ||
    header.getOST < dbb.dbb_oldest_snapshot || header.getNT < dbb.dbb_next_transaction

/-- `TRA_update_counters`: what becomes of the header page.  The values on the page are read before
anything is written, but three of the four are then compared with a field that has 32 bits. -/
def TRA_update_counters (header : HeaderPage) (dbb : Database) : HeaderPage :=
  if dbb.read_only || dbb.new || dbb.dbb_oldest_transaction = 0 then
    header
  else if outdated header dbb then
    let next_transaction := header.getNT
    let header :=
      if header.hdr_oldest_active.toNat < dbb.dbb_oldest_active then
        header.writeOAT dbb.dbb_oldest_active
      else
        header
    let header :=
      if header.hdr_oldest_transaction.toNat < dbb.dbb_oldest_transaction then
        header.writeOIT dbb.dbb_oldest_transaction
      else
        header
    let header :=
      if header.hdr_oldest_snapshot.toNat < dbb.dbb_oldest_snapshot then
        header.writeOST dbb.dbb_oldest_snapshot
      else
        header
    if next_transaction < dbb.dbb_next_transaction then
      header.writeNT dbb.dbb_next_transaction
    else
      header
  else
    header

/-! ## Reading back what was written -/

theorem join_eq (high : UInt16) (low : UInt32) : join high low = high.toNat * 2 ^ 32 + low.toNat := by
  rw [join, BITS_PER_LONG, Nat.shiftLeft_eq, Nat.mul_comm]
  exact (Nat.two_pow_add_eq_or_of_lt low.toNat_lt high.toNat).symm

theorem join_words {number : Nat} (bounded : number ≤ MAX_TRA_NUMBER) :
    join (highWord number) (lowWord number) = number := by
  have low : (lowWord number).toNat = number % 2 ^ 32 := by
    rw [lowWord, MAX_ULONG, UInt32.toNat_ofNat', show 0xFFFFFFFF = 2 ^ 32 - 1 from rfl,
      Nat.and_two_pow_sub_one_eq_mod, Nat.mod_mod]
  have high : (highWord number).toNat = number / 2 ^ 32 := by
    rw [highWord, BITS_PER_LONG, UInt16.toNat_ofNat', Nat.shiftRight_eq_div_pow]
    rw [MAX_TRA_NUMBER] at bounded
    omega
  rw [join_eq, low, high]
  omega

theorem low_le (high : UInt16) (low : UInt32) : low.toNat ≤ join high low := by
  rw [join_eq]
  omega

/-- The counters of a header page. -/
inductive Counter where
  | next
  | oldestTransaction
  | oldestActive
  | oldestSnapshot
  deriving DecidableEq, Repr

namespace Counter

/-- A counter as it stands on the header page. -/
def stored (header : HeaderPage) : Counter → Nat
  | next => header.getNT
  | oldestTransaction => header.getOIT
  | oldestActive => header.getOAT
  | oldestSnapshot => header.getOST

/-- A counter as it is cached in the `Database` block. -/
def cached (dbb : Database) : Counter → Nat
  | next => dbb.dbb_next_transaction
  | oldestTransaction => dbb.dbb_oldest_transaction
  | oldestActive => dbb.dbb_oldest_active
  | oldestSnapshot => dbb.dbb_oldest_snapshot

/-- The value that a cached counter is compared with before it is written. -/
def compared (header : HeaderPage) : Counter → Nat
  | next => header.getNT
  | oldestTransaction => header.hdr_oldest_transaction.toNat
  | oldestActive => header.hdr_oldest_active.toNat
  | oldestSnapshot => header.hdr_oldest_snapshot.toNat

theorem cached_le (dbb : Database) (counter : Counter) : cached dbb counter ≤ MAX_TRA_NUMBER := by
  cases counter with
  | next => exact dbb.next_le
  | oldestTransaction => exact dbb.transaction_le
  | oldestActive => exact dbb.active_le
  | oldestSnapshot => exact dbb.snapshot_le

theorem compared_le (header : HeaderPage) (counter : Counter) :
    compared header counter ≤ stored header counter := by
  cases counter with
  | next => exact le_refl _
  | oldestTransaction => exact low_le _ _
  | oldestActive => exact low_le _ _
  | oldestSnapshot => exact low_le _ _

end Counter

open Counter

/-! ## What one update does to each counter -/

section Write

variable (page : HeaderPage) {number : Nat} (bounded : number ≤ MAX_TRA_NUMBER)

include bounded

theorem stored_writeNT (counter : Counter) : stored (page.writeNT number) counter =
    if counter = .next then number else stored page counter := by
  cases counter with
  | next => exact join_words bounded
  | oldestTransaction => rfl
  | oldestActive => rfl
  | oldestSnapshot => rfl

theorem stored_writeOIT (counter : Counter) : stored (page.writeOIT number) counter =
    if counter = .oldestTransaction then number else stored page counter := by
  cases counter with
  | next => rfl
  | oldestTransaction => exact join_words bounded
  | oldestActive => rfl
  | oldestSnapshot => rfl

theorem stored_writeOAT (counter : Counter) : stored (page.writeOAT number) counter =
    if counter = .oldestActive then number else stored page counter := by
  cases counter with
  | next => rfl
  | oldestTransaction => rfl
  | oldestActive => exact join_words bounded
  | oldestSnapshot => rfl

theorem stored_writeOST (counter : Counter) : stored (page.writeOST number) counter =
    if counter = .oldestSnapshot then number else stored page counter := by
  cases counter with
  | next => rfl
  | oldestTransaction => rfl
  | oldestActive => rfl
  | oldestSnapshot => exact join_words bounded

end Write

/-- The calls that return before they look at the page. -/
def Database.Exempt (dbb : Database) : Prop :=
  dbb.read_only = true ∨ dbb.new = true ∨ dbb.dbb_oldest_transaction = 0

theorem outdated_iff (header : HeaderPage) (dbb : Database) :
    outdated header dbb = true ↔ ∃ counter, stored header counter < cached dbb counter := by
  simp only [outdated, Bool.or_eq_true, decide_eq_true_eq]
  constructor
  · rintro (((active | transaction) | snapshot) | next)
    · exact ⟨.oldestActive, active⟩
    · exact ⟨.oldestTransaction, transaction⟩
    · exact ⟨.oldestSnapshot, snapshot⟩
    · exact ⟨.next, next⟩
  · rintro ⟨counter, newer⟩
    cases counter with
    | next => exact .inr newer
    | oldestTransaction => exact .inl (.inl (.inr newer))
    | oldestActive => exact .inl (.inl (.inl newer))
    | oldestSnapshot => exact .inl (.inr newer)

theorem update_of_exempt {header : HeaderPage} {dbb : Database} (exempt : dbb.Exempt) :
    TRA_update_counters header dbb = header := by
  rw [TRA_update_counters, if_pos]
  simpa [Database.Exempt, or_assoc] using exempt

theorem update_of_current {header : HeaderPage} {dbb : Database}
    (current : ∀ counter, cached dbb counter ≤ stored header counter) :
    TRA_update_counters header dbb = header := by
  have settled : ¬outdated header dbb = true := fun newer => by
    obtain ⟨counter, less⟩ := (outdated_iff header dbb).mp newer
    exact absurd less (Nat.not_lt.mpr (current counter))
  rw [TRA_update_counters, if_neg settled, ite_self]

/-- A call that marks the page writes every counter that is greater than what it is compared
with. -/
theorem stored_update {header : HeaderPage} {dbb : Database} (active : ¬dbb.Exempt)
    (newer : ∃ counter, stored header counter < cached dbb counter) (counter : Counter) :
    stored (TRA_update_counters header dbb) counter =
      if compared header counter < cached dbb counter then cached dbb counter
      else stored header counter := by
  have unmarked : ¬(dbb.read_only || dbb.new || decide (dbb.dbb_oldest_transaction = 0)) = true := by
    simpa [Database.Exempt, or_assoc] using active
  rw [TRA_update_counters, if_neg unmarked, if_pos ((outdated_iff header dbb).mpr newer)]
  have write {advance : Prop} [Decidable advance] (first second : HeaderPage) :
      stored (if advance then first else second) counter =
        if advance then stored first counter else stored second counter :=
    apply_ite (stored · counter) advance first second
  have transaction_kept (number : Nat) (advance : Prop) [Decidable advance] :
      (if advance then header.writeOAT number else header).hdr_oldest_transaction =
        header.hdr_oldest_transaction := by
    split <;> rfl
  have snapshot_kept (page : HeaderPage) (number : Nat) (advance : Prop) [Decidable advance] :
      (if advance then page.writeOIT number else page).hdr_oldest_snapshot =
        page.hdr_oldest_snapshot := by
    split <;> rfl
  have snapshot_kept_active (number : Nat) (advance : Prop) [Decidable advance] :
      (if advance then header.writeOAT number else header).hdr_oldest_snapshot =
        header.hdr_oldest_snapshot := by
    split <;> rfl
  simp only [write, stored_writeNT _ dbb.next_le, stored_writeOIT _ dbb.transaction_le,
    stored_writeOAT _ dbb.active_le, stored_writeOST _ dbb.snapshot_le, transaction_kept,
    snapshot_kept, snapshot_kept_active]
  cases counter with
  | next => simp only [reduceIte, reduceCtorEq, ite_self]; rfl
  | oldestTransaction => simp only [reduceIte, reduceCtorEq, ite_self]; rfl
  | oldestActive => simp only [reduceIte, reduceCtorEq, ite_self]; rfl
  | oldestSnapshot => simp only [reduceIte, reduceCtorEq, ite_self]; rfl

/-- No counter on the page goes down exactly when the call returns early, has nothing to write, or
finds no cached counter between the low 32 bits of the one on the page and its full value. -/
theorem update_keeps_iff (header : HeaderPage) (dbb : Database) :
    (∀ counter, stored header counter ≤ stored (TRA_update_counters header dbb) counter) ↔
      dbb.Exempt ∨ (∀ counter, cached dbb counter ≤ stored header counter) ∨
        ∀ counter, cached dbb counter ≤ compared header counter ∨
          stored header counter ≤ cached dbb counter := by
  by_cases exempt : dbb.Exempt
  · simp [update_of_exempt exempt, exempt]
  by_cases current : ∀ counter, cached dbb counter ≤ stored header counter
  · simp [update_of_current current, current]
  have newer : ∃ counter, stored header counter < cached dbb counter := by
    simpa only [not_forall, not_le] using current
  simp only [exempt, current, false_or]
  refine forall_congr' fun counter => ?_
  rw [stored_update exempt newer]
  by_cases written : compared header counter < cached dbb counter
  · rw [if_pos written]
    exact ⟨.inr, fun kept => kept.resolve_left (Nat.not_le.mpr written)⟩
  · rw [if_neg written]
    exact ⟨fun _ => .inl (Nat.not_lt.mp written), fun _ => le_refl _⟩

/-- A header page on which the oldest active transaction has passed 32 bits. -/
def crossed : HeaderPage where
  hdr_oldest_transaction := 0xFFFFFFD8
  hdr_oldest_active := 5
  hdr_next_transaction := 20
  hdr_oldest_snapshot := 0xFFFFFFE2
  hdr_tra_high := ![1, 0, 1, 0]

/-- The counters of a process that has not seen the latest oldest active transaction. -/
def lagging : Database where
  read_only := false
  new := false
  dbb_next_transaction := 0x10000000A
  dbb_oldest_transaction := 0xFFFFFFEC
  dbb_oldest_active := 0xFFFFFFF6
  dbb_oldest_snapshot := 0xFFFFFFE2
  next_le := by decide
  transaction_le := by decide
  active_le := by decide
  snapshot_le := by decide

/-- The oldest active transaction on the page goes back from `2 ^ 32 + 5` to `2 ^ 32 - 10`. -/
theorem update_lowers : ¬∀ header dbb counter,
    stored header counter ≤ stored (TRA_update_counters header dbb) counter := fun keeps =>
  absurd (keeps crossed lagging .oldestActive) (by decide)

end HeaderCounters
end Firebird
