import Mathlib.Data.List.Basic
import Mathlib.Logic.Function.Basic

/-!
# The swept flag of data pages

The routines of `dpm.epp` that change a data page, with its record headers, the flags that decide
what sweep reads, and the bits of the pointer page that repeat them.  Every event runs from the fetch
of a data page for write to its release; `mark_full`, which comes after the release, is an event of
its own.
-/

namespace Firebird
namespace SweptFlag

/-- The flags of a record header. -/
structure RecordFlags where
  deleted : Bool
  chain : Bool
  fragment : Bool
  incomplete : Bool
  blob : Bool
  large : Bool
  delta : Bool
  gcActive : Bool
  deriving DecidableEq, Repr

namespace RecordFlags

/-- The flags of an ordinary primary record version. -/
def none : RecordFlags :=
  { deleted := false, chain := false, fragment := false, incomplete := false, blob := false,
    large := false, delta := false, gcActive := false }

end RecordFlags

/-- The header of a record version or of a fragment, `rhd`. -/
structure Header where
  transaction : Nat
  flags : RecordFlags
  /-- `rhd_b_page`, 0 for none. -/
  backPage : Nat
  backLine : Nat
  deriving DecidableEq, Repr

/-- A data page: a line without an offset holds nothing. -/
structure DataPage where
  lines : List (Option Header)
  swept : Bool
  secondary : Bool
  large : Bool
  deriving DecidableEq, Repr

namespace DataPage

/-- A data page as `extend_relation` formats it. -/
def fresh (secondary : Bool) : DataPage :=
  { lines := [], swept := false, secondary := secondary, large := false }

/-- The header at a line. -/
def header? (page : DataPage) (line : Nat) : Option Header := page.lines.getD line none

/-- A header written at a line. -/
def setHeader (page : DataPage) (line : Nat) (header : Header) : DataPage :=
  { page with lines := page.lines.set line (some header) }

/-- What `find_space` does to a page with space: the line is new or one without an offset. -/
def findSpace (page : DataPage) (line : Nat) (primary : Bool) (header : Header) : DataPage :=
  let lines := if line < page.lines.length then page.lines.set line (some header)
    else page.lines ++ [some header]
  { page with
    lines := lines
    secondary := if lines.length = 1 then !primary else page.secondary }

/-- A page with the flag cleared. -/
def clearSwept (page : DataPage) : DataPage := { page with swept := false }

/-- The lines up to the last one in use. -/
def dropUnused (lines : List (Option Header)) : List (Option Header) :=
  (lines.reverse.dropWhile (·.isNone)).reverse

end DataPage

/-- A page as a routine releases it, and whether `mark_full` follows. -/
structure Released where
  page : DataPage
  markFull : Bool
  deriving DecidableEq, Repr

/-- The end of the writers that look at the flag. -/
def releaseCleared (page : DataPage) : Released :=
  if page.swept then { page := page.clearSwept, markFull := true }
  else { page := page, markFull := false }

/-- `DPM_store` of a record that fits on a page. -/
def store (page : DataPage) (line : Nat) (primary : Bool) (header : Header) : Released :=
  releaseCleared (page.findSpace line primary header)

/-- `store_big_record`: the front part, whose tail pages are written already. -/
def storeBigRecord (page : DataPage) (line : Nat) (primary : Bool) (header : Header) : Released :=
  let front := { header with flags := { header.flags with incomplete := true, large := true } }
  let page := page.findSpace line primary front
  if page.large then { page := page, markFull := false }
  else { page := { page with large := true }, markFull := true }

/-- `DPM_store_blob`; a blob above level 0 is a vector of pages.  The header of a blob has no
transaction and no back version. -/
def storeBlob (page : DataPage) (line level : Nat) : Released :=
  let header : Header :=
    { transaction := 0
      flags := { RecordFlags.none with blob := true, large := decide (level ≠ 0) }
      backPage := 0
      backLine := 0 }
  let page := page.findSpace line false header
  if level ≠ 0 ∧ page.large = false then
    { page := { page with large := true }, markFull := true }
  else { page := page, markFull := false }

/-- `DPM_update` of a record that fits on its page. -/
def update (page : DataPage) (line : Nat) (header : Header) : Released :=
  releaseCleared (page.setHeader line header)

/-- The first part of `fragment`, until it releases the page to store the tail.  The record is a
version of another transaction, a delta, or replaced by a deleted stub of the own transaction. -/
def fragmentHead (page : DataPage) (line own : Nat) (record : Header) : Released :=
  match page.header? line with
  | none => { page := page, markFull := false }
  | some header =>
      let header :=
        if record.transaction ≠ own then header
        else if record.flags.delta then
          { header with
            flags := { header.flags with delta := true }
            backPage := record.backPage
            backLine := record.backLine }
        else
          { transaction := own
            flags := { RecordFlags.none with deleted := true }
            backPage := record.backPage
            backLine := record.backLine }
      let header := { header with flags := { header.flags with gcActive := true } }
      { page := page.setHeader line header, markFull := false }

/-- The second part of `fragment`, with the page fetched again. -/
def fragmentTail (page : DataPage) (line own : Nat) (record : Header) : Released :=
  match page.header? line with
  | none => { page := page, markFull := false }
  | some header =>
      let header :=
        { header with
          transaction := record.transaction
          flags := { record.flags with incomplete := true } }
      let header :=
        if record.transaction ≠ own then
          { header with backPage := record.backPage, backLine := record.backLine }
        else header
      releaseCleared (page.setHeader line header)

/-- `DPM_chain`, when the record has not changed and the new version fits on its page. -/
def chain (number : Nat) (page : DataPage) (line slot : Nat) (record : Header) : Released :=
  match page.header? line with
  | none => { page := page, markFull := false }
  | some header =>
      let old := { header with flags := { header.flags with chain := true } }
      let lines := if slot < page.lines.length then page.lines.set slot (some old)
        else page.lines ++ [some old]
      let new := { record with backPage := number, backLine := slot }
      releaseCleared ({ page with lines := lines }.setHeader line new)

/-- `DPM_backout`: the back version on the same page takes the place of the record. -/
def backout (page : DataPage) (line : Nat) : Released :=
  match page.header? line with
  | none => { page := page, markFull := false }
  | some header =>
      match page.header? header.backLine with
      | none => { page := page, markFull := false }
      | some back =>
          let old := { back with flags := { back.flags with chain := false, gcActive := false } }
          let lines := (page.lines.set line (some old)).set header.backLine none
          { page := { page with lines := DataPage.dropUnused lines }, markFull := false }

/-- `DPM_backout_mark`. -/
def backoutMark (page : DataPage) (line : Nat) : Released :=
  match page.header? line with
  | none => { page := page, markFull := false }
  | some header =>
      { page := page.setHeader line { header with flags := { header.flags with gcActive := true } }
        markFull := false }

/-- `DPM_rewrite_header` as `purge` and `list_staying` call it, without the back version. -/
def rewriteHeader (page : DataPage) (line : Nat) : Released :=
  match page.header? line with
  | none => { page := page, markFull := false }
  | some header =>
      let header :=
        { header with
          flags := { header.flags with delta := false, gcActive := false }
          backPage := 0
          backLine := 0 }
      { page := page.setHeader line header, markFull := false }

/-- `DPM_delete` up to the release of the page. -/
def delete (page : DataPage) (line : Nat) : Released :=
  { page := { page with lines := DataPage.dropUnused (page.lines.set line none) }
    markFull := false }

/-- The test of `check_swept` for one line. -/
def Header.sweepable (oldest : Nat) (header : Header) : Bool :=
  !(decide (oldest < header.transaction) ||
    (header.flags.blob || header.flags.chain || header.flags.fragment) ||
    decide (header.backPage ≠ 0))

/-- No line in use fails the test. -/
def DataPage.sweepable (oldest : Nat) (page : DataPage) : Bool :=
  page.lines.all fun line => line.all (Header.sweepable oldest)

/-- The bits of a data page on its pointer page. -/
structure Bits where
  swept : Bool
  secondary : Bool
  empty : Bool
  deriving DecidableEq, Repr

/-- The data pages of a relation. -/
structure Relation where
  pages : Nat → DataPage
  bits : Nat → Bits
  /-- The pages released on the way into `mark_full`. -/
  markFull : List Nat
  /-- The `tra_oldest` of the transaction that last marked the page as swept. -/
  markedAt : Nat → Nat

/-- What happens to the pages of a relation. -/
inductive Event where
  | store (number line : Nat) (primary : Bool) (header : Header)
  | storeBigRecord (number line : Nat) (primary : Bool) (header : Header)
  | storeBlob (number line level : Nat)
  | update (number line : Nat) (header : Header)
  | fragmentHead (number line own : Nat) (record : Header)
  | fragmentTail (number line own : Nat) (record : Header)
  | chain (number line slot : Nat) (record : Header)
  | backout (number line : Nat)
  | backoutMark (number line : Nat)
  | rewriteHeader (number line : Nat)
  | delete (number line : Nat)
  | checkSwept (number oldest : Nat)
  | markFull (number : Nat)
  | locateEmpty (number : Nat) (primary : Bool)
  | markEmpty (number : Nat)
  | extend (number : Nat) (secondary : Bool)
  deriving DecidableEq, Repr

namespace Relation

/-- A data page released by a routine. -/
def release (relation : Relation) (number : Nat) (released : Released) : Relation :=
  { relation with
    pages := Function.update relation.pages number released.page
    markFull := if released.markFull then number :: relation.markFull else relation.markFull }

/-- `check_swept`. -/
def checkSwept (relation : Relation) (number oldest : Nat) : Relation :=
  let page := relation.pages number
  let bits := relation.bits number
  if bits.secondary || bits.swept then relation
  else if page.sweepable oldest then
    { relation.release number { page := { page with swept := true }, markFull := true } with
      markedAt := Function.update relation.markedAt number oldest }
  else relation

/-- The end of `mark_full`: the flags of the page are copied to its pointer page. -/
def copyFlags (relation : Relation) (number : Nat) : Relation :=
  let page := relation.pages number
  { relation with
    bits := Function.update relation.bits number
      { swept := page.swept, secondary := page.secondary, empty := page.lines.isEmpty }
    markFull := relation.markFull.erase number }

/-- The relation after an event. -/
def step (relation : Relation) : Event → Relation
  | .store number line primary header =>
      relation.release number (store (relation.pages number) line primary header)
  | .storeBigRecord number line primary header =>
      relation.release number (storeBigRecord (relation.pages number) line primary header)
  | .storeBlob number line level =>
      relation.release number (storeBlob (relation.pages number) line level)
  | .update number line header =>
      relation.release number (update (relation.pages number) line header)
  | .fragmentHead number line own record =>
      relation.release number (fragmentHead (relation.pages number) line own record)
  | .fragmentTail number line own record =>
      relation.release number (fragmentTail (relation.pages number) line own record)
  | .chain number line slot record =>
      relation.release number (chain number (relation.pages number) line slot record)
  | .backout number line => relation.release number (backout (relation.pages number) line)
  | .backoutMark number line => relation.release number (backoutMark (relation.pages number) line)
  | .rewriteHeader number line =>
      relation.release number (rewriteHeader (relation.pages number) line)
  | .delete number line => relation.release number (delete (relation.pages number) line)
  | .checkSwept number oldest => relation.checkSwept number oldest
  | .markFull number => relation.copyFlags number
  -- `locate_space` finds the empty bit set
  | .locateEmpty number primary =>
      { relation with
        bits := Function.update relation.bits number
          { relation.bits number with empty := false, secondary := !primary } }
  -- `DPM_delete` keeps an empty page of an extent
  | .markEmpty number =>
      { relation with
        bits := Function.update relation.bits number { relation.bits number with empty := true } }
  | .extend number secondary =>
      { relation with
        pages := Function.update relation.pages number (DataPage.fresh secondary)
        bits := Function.update relation.bits number
          { swept := false, secondary := secondary, empty := false } }

end Relation

end SweptFlag
end Firebird
