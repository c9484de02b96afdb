import Firebird.Common.Fault
import Mathlib.Data.UInt

/-!
# The scan of a relation

`DPM_next`, as a stream that is no sweeper calls it.  The next record is first looked for on the page
that the relation remembers for the position, and then through the pointer pages.
-/

namespace Firebird
namespace RelationScan

/-! ## Pages -/

/-- `rhd_chain`, an old version. -/
def rhdChain : UInt16 := 2

/-- `rhd_fragment`. -/
def rhdFragment : UInt16 := 4

/-- `rhd_incomplete`, the record goes on in a fragment. -/
def rhdIncomplete : UInt16 := 8

/-- `rhd_blob`. -/
def rhdBlob : UInt16 := 16

/-- `rhd_long_tranum`, the transaction number has 64 bits. -/
def rhdLongTranum : UInt16 := 1024

/-- `dpg_orphan`, the data page is not in a pointer page. -/
def dpgOrphan : UInt8 := 1

/-- `dpg_large`, a large object is on the page. -/
def dpgLarge : UInt8 := 4

/-- `dpg_secondary`, primary record versions are not stored on this page. -/
def dpgSecondary : UInt8 := 16

/-- `ppg_eof`, the last pointer page of the relation. -/
def ppgEof : UInt8 := 1

/-- `ppg_dp_secondary`. -/
def ppgDpSecondary : UInt8 := 8

/-- `ppg_dp_empty`. -/
def ppgDpEmpty : UInt8 := 16

/-- The fields of `rhdf`. -/
structure Header where
  rhdf_flags : UInt16
  rhdf_b_page : Nat
  rhdf_b_line : Nat
  /-- `getTraNum`. -/
  rhdf_transaction : Nat
  rhdf_format : Nat
  rhdf_f_page : Nat
  rhdf_f_line : Nat
  deriving DecidableEq, Repr

/-- An entry of `dpg_rpt` with the header it leads to, which counts if the offset is not 0. -/
structure Line where
  dpg_offset : Nat
  dpg_length : Nat
  header : Header
  deriving DecidableEq, Repr

/-- A page of type `pag_data`. -/
structure DataPage where
  pag_flags : UInt8
  dpg_sequence : Nat
  dpg_relation : Nat
  dpg_rpt : List Line
  deriving DecidableEq, Repr

/-- `dpg_count`. -/
def DataPage.count (page : DataPage) : Nat := page.dpg_rpt.length

/-- A slot of a pointer page. -/
structure Slot where
  /-- `ppg_page`, 0 when the slot has no data page. -/
  number : Nat
  bits : UInt8
  deriving DecidableEq, Repr

/-- A page of type `pag_pointer`. -/
structure PointerPage where
  pag_flags : UInt8
  ppg_sequence : Nat
  ppg_relation : Nat
  slots : List Slot
  deriving DecidableEq, Repr

/-- `ppg_count`. -/
def PointerPage.count (ppage : PointerPage) : Nat := ppage.slots.length

/-- A relation and the pages of its page space. -/
structure Relation where
  rel_id : Nat
  dbb_max_records : Nat
  dbb_dp_per_pp : Nat
  /-- The pointer pages in the order of `rel_pages` and `ppg_next`. -/
  pointers : List PointerPage
  /-- The data pages by page number, nothing for a page of another type. -/
  pages : Nat → Option DataPage

/-- `record_param`, as far as `get_header` fills it. -/
structure Rpb where
  rpb_number : Int
  rpb_page : Nat
  rpb_line : Nat
  rpb_flags : UInt16
  rpb_b_page : Nat
  rpb_b_line : Nat
  rpb_transaction_nr : Nat
  rpb_format_number : Nat
  rpb_f_page : Nat
  rpb_f_line : Nat
  /-- `rpb_address`, from the start of the page. -/
  rpb_address : Nat
  rpb_length : Int
  deriving DecidableEq, Repr

/-- `RHDF_SIZE`, `RHDE_SIZE` or `RHD_SIZE`. -/
def headerSize (flags : UInt16) : Nat :=
  if flags &&& rhdIncomplete ≠ 0 then 22 else if flags &&& rhdLongTranum ≠ 0 then 16 else 13

/-- Ways the scan stops without a result. -/
inductive Failure where
  /-- `BUGCHECK(code)`. -/
  | bugcheck (code : Nat)
  /-- `CORRUPT(code)`. -/
  | corrupt (code : Nat)
  /-- A page of the wrong type was fetched. -/
  | pageType
  /-- The bound on the rounds of the loop is used up. -/
  | exhausted
  deriving DecidableEq, Repr

/-! ## Record numbers -/

/-- Line, slot and pointer page of a record number. -/
structure Position where
  line : Nat
  slot : Nat
  pp_sequence : Nat
  deriving DecidableEq, Repr

namespace Relation

/-- `static_cast<ULONG>(value / records_per_page)`. -/
def dpSequence (relation : Relation) (value : Int) : Nat :=
  (value.tdiv relation.dbb_max_records % 2 ^ 32).toNat

/-- `RecordNumber::decompose`. -/
def decompose (relation : Relation) (value : Int) : Position :=
  let sequence := relation.dpSequence value
  { line := (value.tmod relation.dbb_max_records % 2 ^ 16).toNat
    slot := sequence % relation.dbb_dp_per_pp % 2 ^ 16
    pp_sequence := sequence / relation.dbb_dp_per_pp }

/-- `RecordNumber::compose`. -/
def compose (relation : Relation) (line slot pp_sequence : Nat) : Int :=
  ((pp_sequence * relation.dbb_dp_per_pp + slot) * relation.dbb_max_records + line : Nat)

/-! ## The scan -/

/-- `get_header`. -/
def getHeader (relation : Relation) (number : Nat) (page : DataPage) (line : Nat) (rpb : Rpb) :
    Except Failure (Bool × Rpb) :=
  match page.dpg_rpt[line]? with
  | none => .ok (false, rpb)
  | some index =>
      if index.dpg_offset = 0 then .ok (false, rpb)
      else
        let header := index.header
        let rpb := { rpb with rpb_page := number, rpb_line := line, rpb_flags := header.rhdf_flags }
        if rpb.rpb_flags &&& rhdFragment = 0 ∧
            relation.rel_id = 0 ∧ header.rhdf_transaction ≠ 0 then
          .error (.bugcheck 307)
        else
          let rpb := if rpb.rpb_flags &&& rhdFragment = 0 then
              { rpb with
                rpb_b_page := header.rhdf_b_page
                rpb_b_line := header.rhdf_b_line
                rpb_transaction_nr := header.rhdf_transaction
                rpb_format_number := header.rhdf_format }
            else rpb
          let rpb := if rpb.rpb_flags &&& rhdIncomplete ≠ 0 then
              { rpb with rpb_f_page := header.rhdf_f_page, rpb_f_line := header.rhdf_f_line }
            else rpb
          .ok (true, { rpb with
            rpb_address := index.dpg_offset + headerSize rpb.rpb_flags
            rpb_length := index.dpg_length - headerSize rpb.rpb_flags })

/-- The loop over the lines of a data page, with the lines that are left.  Returns the line at which
it stopped. -/
def lineLoop (relation : Relation) (number : Nat) (page : DataPage) (slot pp_sequence : Nat) :
    Nat → Nat → Rpb → Except Failure (Bool × Nat × Rpb)
  | 0, line, rpb => .ok (false, line, rpb)
  | left + 1, line, rpb =>
      match relation.getHeader number page line rpb with
      | .error failure => .error failure
      | .ok (present, rpb) =>
          if present ∧ rpb.rpb_flags &&& (rhdBlob ||| rhdChain ||| rhdFragment) = 0 then
            .ok (true, line, { rpb with rpb_number := relation.compose line slot pp_sequence })
          else relation.lineLoop number page slot pp_sequence left (line + 1) rpb

/-- The loop over the lines from a line on. -/
def lines (relation : Relation) (number : Nat) (page : DataPage) (line slot pp_sequence : Nat)
    (rpb : Rpb) : Except Failure (Bool × Nat × Rpb) :=
  relation.lineLoop number page slot pp_sequence (page.count - line) line rpb

/-- `pageOk`. -/
def pageOk (relation : Relation) (sequence : Nat) (page : DataPage) : Bool :=
  page.pag_flags &&& (dpgSecondary ||| dpgLarge ||| dpgOrphan) = 0 ∧
    page.dpg_relation = relation.rel_id ∧ page.dpg_sequence = sequence ∧ 0 < page.count

/-- The lines of the page that the relation remembers for the position, whose number is 0 when there is
none.  Returns the line at which it stopped. -/
def cached (relation : Relation) (page_number sequence : Nat) (position : Position) (rpb : Rpb) :
    Except Failure (Bool × Nat × Rpb) :=
  if page_number = 0 then .ok (false, position.line, rpb)
  else
    match relation.pages page_number with
    | none => .ok (false, position.line, rpb)
    | some page =>
        if relation.pageOk sequence page then
          relation.lines page_number page position.line position.slot position.pp_sequence rpb
        else .ok (false, position.line, rpb)

/-- `get_pointer_page`. -/
def getPointerPage (relation : Relation) (sequence : Nat) : Except Failure (Option PointerPage) :=
  match relation.pointers[sequence]? with
  | none => .ok none
  | some page =>
      if page.ppg_relation ≠ relation.rel_id ∨ page.ppg_sequence ≠ sequence then
        .error (.corrupt 259)
      else .ok (some page)

/-- The data page of a slot is worth a visit. -/
def visited (slot : Slot) : Bool :=
  slot.number ≠ 0 ∧ slot.bits &&& ppgDpSecondary = 0 ∧ slot.bits &&& ppgDpEmpty = 0

/-- The loop over the slots of a pointer page, with the slots that are left.  The first flag says that
the call is over, the second one what it returns. -/
def slotLoop (relation : Relation) (onepage : Bool) (ppage : PointerPage) (pp_sequence : Nat) :
    Nat → Nat → Nat → Rpb → Except Failure (Bool × Bool × Rpb)
  | 0, _, _, rpb => .ok (false, false, rpb)
  | left + 1, slot, line, rpb =>
      match ppage.slots[slot]? with
      | none => .ok (false, false, rpb)
      | some entry =>
          if visited entry then
            match relation.pages entry.number with
            | none => .error .pageType
            | some page =>
                match relation.lines entry.number page line slot pp_sequence rpb with
                | .error failure => .error failure
                | .ok (true, _, rpb) => .ok (true, true, rpb)
                | .ok (false, _, rpb) =>
                    if onepage then .ok (true, false, rpb)
                    -- the pointer page is fetched again and has not changed
                    else relation.slotLoop onepage ppage pp_sequence left (slot + 1) 0 rpb
          else if onepage then .ok (true, false, rpb)
          else relation.slotLoop onepage ppage pp_sequence left (slot + 1) 0 rpb

/-- The loop over the pointer pages. -/
def pointerLoop (relation : Relation) (onepage : Bool) :
    Nat → Nat → Nat → Nat → Rpb → Except Failure (Bool × Rpb)
  | 0, _, _, _, _ => .error .exhausted
  | rounds + 1, pp_sequence, slot, line, rpb =>
      match relation.getPointerPage pp_sequence with
      | .error failure => .error failure
      | .ok none => .error (.bugcheck 249)
      | .ok (some ppage) =>
          match relation.slotLoop onepage ppage pp_sequence (ppage.count - slot) slot line rpb with
          | .error failure => .error failure
          | .ok (true, found, rpb) => .ok (found, rpb)
          | .ok (false, _, rpb) =>
              if ppage.pag_flags &&& ppgEof ≠ 0 ∨ onepage then .ok (false, rpb)
              else relation.pointerLoop onepage rounds (pp_sequence + 1) 0 0 rpb

/-- The rest of the call, when the remembered page has been looked at. -/
def proceed (relation : Relation) (onepage : Bool) (position : Position) :
    Bool × Nat × Rpb → Except Failure (Bool × Rpb)
  | (true, _, rpb) => .ok (true, rpb)
  | (false, line, rpb) =>
      relation.pointerLoop onepage (relation.pointers.length + 1) position.pp_sequence position.slot
        line rpb

/-- `DPM_next`.  `dpMap` gives the page number that the relation remembers for the sequence of a data
page; what the call itself remembers is in the map of the next call. -/
def next (relation : Relation) (dpMap : Nat → Nat) (onepage : Bool) (rpb : Rpb) :
    Except Failure (Bool × Rpb) := do
  let rpb := { rpb with rpb_number := rpb.rpb_number + 1 }
  let position := relation.decompose rpb.rpb_number
  let sequence := relation.dpSequence rpb.rpb_number
  relation.proceed onepage position (← relation.cached (dpMap sequence) sequence position rpb)

end Relation
end RelationScan
end Firebird
