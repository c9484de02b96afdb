import Firebird.Jrd.Dpm.RelationScan
import Firebird.Library.Enumeration

/-!
# The layout of a relation

Which primary record versions a relation has, and the invariants of its pages.
-/

namespace Firebird
namespace RelationScan

/-- The line holds a primary record version. -/
def Line.Primary (line : Line) : Prop :=
  line.dpg_offset ≠ 0 ∧ line.header.rhdf_flags &&& (rhdBlob ||| rhdChain ||| rhdFragment) = 0

instance (line : Line) : Decidable line.Primary :=
  inferInstanceAs (Decidable (_ ∧ _))

/-- The record parameter block is filled from a line of a page. -/
structure Rpb.Carries (rpb : Rpb) (number line : Nat) (entry : Line) : Prop where
  page : rpb.rpb_page = number
  line : rpb.rpb_line = line
  flags : rpb.rpb_flags = entry.header.rhdf_flags
  back : rpb.rpb_b_page = entry.header.rhdf_b_page ∧ rpb.rpb_b_line = entry.header.rhdf_b_line
  transaction : rpb.rpb_transaction_nr = entry.header.rhdf_transaction
  format : rpb.rpb_format_number = entry.header.rhdf_format
  fragment : entry.header.rhdf_flags &&& rhdIncomplete ≠ 0 →
    rpb.rpb_f_page = entry.header.rhdf_f_page ∧ rpb.rpb_f_line = entry.header.rhdf_f_line
  address : rpb.rpb_address = entry.dpg_offset + headerSize entry.header.rhdf_flags
  length : rpb.rpb_length = entry.dpg_length - headerSize entry.header.rhdf_flags

theorem Rpb.Carries.setNumber {rpb : Rpb} {number line : Nat} {entry : Line}
    (carries : rpb.Carries number line entry) (value : Int) :
    { rpb with rpb_number := value }.Carries number line entry := by
  obtain ⟨page, line, flags, back, transaction, format, fragment, address, length⟩ := carries
  exact ⟨page, line, flags, back, transaction, format, fragment, address, length⟩

namespace Relation

/-- Line, slot and pointer page of a record number, without the bounds of machine integers. -/
def position (relation : Relation) (start : Nat) : Position where
  line := start % relation.dbb_max_records
  slot := start / relation.dbb_max_records % relation.dbb_dp_per_pp
  pp_sequence := start / relation.dbb_max_records / relation.dbb_dp_per_pp

/-- The slot of a data page sequence. -/
def slot (relation : Relation) (sequence : Nat) : Option Slot :=
  (relation.pointers[sequence / relation.dbb_dp_per_pp]?).bind fun ppage =>
    ppage.slots[sequence % relation.dbb_dp_per_pp]?

/-- The data page that the pointer pages list for a sequence, with its page number. -/
def listed (relation : Relation) (sequence : Nat) : Option (Nat × DataPage) :=
  ((relation.slot sequence).filter fun slot => slot.number ≠ 0).bind fun slot =>
    (relation.pages slot.number).map (Prod.mk slot.number)

/-- The primary record version of a record number, with the number of its page. -/
def version (relation : Relation) (number : Nat) : Option (Nat × Line) :=
  (relation.listed (number / relation.dbb_max_records)).bind fun page =>
    ((page.2.dpg_rpt[number % relation.dbb_max_records]?).filter fun line => line.Primary).map
      (Prod.mk page.1)

/-- One more than the highest record number of the pointer pages. -/
def bound (relation : Relation) : Nat :=
  relation.pointers.length * relation.dbb_dp_per_pp * relation.dbb_max_records

/-- The record numbers of the primary record versions from a number on. -/
def primaries (relation : Relation) (start : Nat) : List Nat :=
  Enumeration.listFrom (fun number => (relation.version number).isSome) relation.bound start

end Relation

/-- A relation with what holds of the pages of every relation. -/
structure Layout extends Relation where
  records_pos : 0 < dbb_max_records
  records_small : dbb_max_records < 2 ^ 16
  slots_pos : 0 < dbb_dp_per_pp
  slots_small : dbb_dp_per_pp < 2 ^ 16
  /-- `dpg_sequence` is a `ULONG`. -/
  sequences_small : pointers.length * dbb_dp_per_pp < 2 ^ 32
  /-- A relation is created with its first pointer page. -/
  pointers_pos : 0 < pointers.length
  pointer {sequence : Nat} {ppage : PointerPage} : pointers[sequence]? = some ppage →
    ppage.ppg_relation = rel_id ∧ ppage.ppg_sequence = sequence
  slots_le {sequence : Nat} {ppage : PointerPage} : pointers[sequence]? = some ppage →
    ppage.count ≤ dbb_dp_per_pp
  /-- The last pointer page is marked. -/
  eof {sequence : Nat} {ppage : PointerPage} : pointers[sequence]? = some ppage →
    (ppage.pag_flags &&& ppgEof ≠ 0 ↔ sequence + 1 = pointers.length)
  /-- A slot leads to a data page. -/
  data {sequence : Nat} {slot : Slot} : toRelation.slot sequence = some slot → slot.number ≠ 0 →
    ∃ page, pages slot.number = some page
  /-- Listed pages have the relation's id. -/
  related {sequence : Nat} {page : Nat × DataPage} : toRelation.listed sequence = some page →
    page.2.dpg_relation = rel_id
  /-- Primary record versions are not stored on secondary pages. -/
  secondary {sequence : Nat} {slot : Slot} {page : DataPage} :
    toRelation.slot sequence = some slot → pages slot.number = some page →
    slot.bits &&& ppgDpSecondary ≠ 0 → ∀ line ∈ page.dpg_rpt, ¬line.Primary
  /-- Pages marked as empty have no lines. -/
  empty {sequence : Nat} {slot : Slot} {page : DataPage} :
    toRelation.slot sequence = some slot → pages slot.number = some page →
    slot.bits &&& ppgDpEmpty ≠ 0 → page.count = 0
  /-- A line takes more bytes than `dbb_max_records` allows for. -/
  lines_lt {number : Nat} {page : DataPage} : pages number = some page →
    page.dpg_relation = rel_id → page.count < dbb_max_records
  /-- `RDB$PAGES` is modified only by the system transaction. -/
  system {number : Nat} {page : DataPage} : pages number = some page →
    page.dpg_relation = rel_id → rel_id = 0 → ∀ line ∈ page.dpg_rpt, line.header.rhdf_transaction = 0

namespace Relation

variable {relation : Relation} {start number sequence page_number line : Nat} {page : DataPage}

/-! ## Versions by their position -/

theorem version_of_listed (pos : line < relation.dbb_max_records)
    (listed : relation.listed sequence = some (page_number, page)) :
    relation.version (sequence * relation.dbb_max_records + line) =
      ((page.dpg_rpt[line]?).filter fun line => line.Primary).map (Prod.mk page_number) := by
  have quotient : (sequence * relation.dbb_max_records + line) / relation.dbb_max_records =
      sequence := by
    rw [Nat.mul_comm, Nat.mul_add_div (Nat.zero_lt_of_lt pos), Nat.div_eq_of_lt pos, Nat.add_zero]
  have remainder : (sequence * relation.dbb_max_records + line) % relation.dbb_max_records = line := by
    rw [Nat.mul_comm, Nat.mul_add_mod, Nat.mod_eq_of_lt pos]
  rw [version, quotient, remainder, listed]
  rfl

/-- There is no version on a sequence without lines that hold one. -/
theorem version_eq_none {first : Nat}
    (absent : ∀ page_number page, relation.listed sequence = some (page_number, page) →
      ∀ other entry, first ≤ other → page.dpg_rpt[other]? = some entry → ¬entry.Primary)
    (after : sequence * relation.dbb_max_records + first ≤ number)
    (before : number < (sequence + 1) * relation.dbb_max_records) :
    relation.version number = none := by
  have quotient : number / relation.dbb_max_records = sequence :=
    Nat.div_eq_of_lt_le (Nat.le_of_add_right_le after) before
  have split := Nat.div_add_mod number relation.dbb_max_records
  rw [quotient, Nat.mul_comm] at split
  rw [version, quotient]
  cases listed : relation.listed sequence with
  | none => rfl
  | some found =>
      rw [Option.bind_some, Option.map_eq_none_iff, Option.filter_eq_none_iff]
      intro entry there
      rw [decide_eq_true_iff]
      exact absent found.1 found.2 listed _ entry (by omega) there

theorem version_of_bound_le (positive : 0 < relation.dbb_dp_per_pp)
    (records : 0 < relation.dbb_max_records) (beyond : relation.bound ≤ number) :
    relation.version number = none := by
  have sequences : relation.pointers.length * relation.dbb_dp_per_pp ≤
      number / relation.dbb_max_records := (Nat.le_div_iff_mul_le records).mpr beyond
  have pointers : relation.pointers.length ≤
      number / relation.dbb_max_records / relation.dbb_dp_per_pp :=
    (Nat.le_div_iff_mul_le positive).mpr sequences
  rw [version, listed, slot, List.getElem?_eq_none pointers]
  rfl

/-- A remembered page that passes the check is the listed page of its sequence, or it has no version
to return and no line for one that is to come. -/
def FreshPage (relation : Relation) (page_number sequence line : Nat) : Prop :=
  ∀ page, page_number ≠ 0 → relation.pages page_number = some page → relation.pageOk sequence page →
    (relation.listed sequence).map Prod.fst = some page_number ∨
      (∀ other entry, line ≤ other → page.dpg_rpt[other]? = some entry → ¬entry.Primary) ∧
        ∀ number, sequence * relation.dbb_max_records + line ≤ number →
          number < sequence * relation.dbb_max_records + page.count → relation.version number = none

/-- What the relation remembers for a record number is fresh. -/
def Fresh (relation : Relation) (dpMap : Nat → Nat) (start : Nat) : Prop :=
  relation.FreshPage (dpMap (start / relation.dbb_max_records)) (start / relation.dbb_max_records)
    (start % relation.dbb_max_records)

/-! ## Where the next version is -/

/-- What is the next primary version from a number on. -/
inductive Located (relation : Relation) (start : Nat) : Bool × Rpb → Prop where
  | found {rpb : Rpb} {number page_number : Nat} {entry : Line} (after : start ≤ number)
      (version : relation.version number = some (page_number, entry))
      (numbered : rpb.rpb_number = number)
      (carries : rpb.Carries page_number (number % relation.dbb_max_records) entry)
      (first : ∀ other, start ≤ other → other < number → relation.version other = none) :
      Located relation start (true, rpb)
  | ended {rpb : Rpb} (none : ∀ other, start ≤ other → relation.version other = none) :
      Located relation start (false, rpb)

/-- Numbers without a version may be left out. -/
theorem Located.skip {next : Nat} {result : Bool × Rpb} (located : relation.Located next result)
    (le : start ≤ next)
    (between : ∀ other, start ≤ other → other < next → relation.version other = none) :
    relation.Located start result := by
  cases located with
  | found after version numbered carries first =>
      refine .found (le.trans after) version numbered carries fun other from_start before => ?_
      rcases Nat.lt_or_ge other next with skipped | kept
      · exact between other from_start skipped
      · exact first other kept before
  | ended none =>
      refine .ended fun other from_start => ?_
      rcases Nat.lt_or_ge other next with skipped | kept
      · exact between other from_start skipped
      · exact none other kept

/-- A version that a result has passed by. -/
theorem Located.not_skipped {next other : Nat} {result : Bool × Rpb}
    (located : relation.Located next result) (after : start ≤ other) (before : other < next)
    (there : relation.version other ≠ none) : ¬relation.Located start result := by
  intro claimed
  cases claimed with
  | found _ _ numbered _ first =>
      cases located with
      | found beyond _ numbered' _ _ =>
          have same := Int.ofNat.inj (numbered.symm.trans numbered')
          exact there (first other after (by omega))
  | ended none => exact there (none other after)

end Relation
end RelationScan
end Firebird
