import Firebird.Library.Extent
import Mathlib.Data.UInt
import Mathlib.Logic.Function.Basic

/-!
# The areas of a data page

The bytes of a data page and its line index `dpg_rpt`, as `find_space`, `DPM_update`, `fragment`,
`DPM_chain`, `DPM_backout`, `DPM_delete` and `compress` of `dpm.epp` use them.  A record is given by
the image of its header and its packed data; each routine computes the free space in its own way.
-/

namespace Firebird
namespace LineArea

/-- `ROUNDUP(n, ODS_ALIGNMENT)`. -/
def roundup (n : Nat) : Nat := (n + 3) / 4 * 4

/-- `RHDF_SIZE`, the header of a fragmented record, which is also `SPACE_FUDGE`. -/
def rhdfSize : Nat := 22

/-- `HIGH_WATER(count)`, the end of the line index: a data page with one line takes 28 bytes. -/
def highWater (count : Nat) : Nat := 24 + 4 * count

/-- An entry of the line index, without a record when its offset is 0. -/
structure Line where
  /-- `dpg_offset`. -/
  offset : Nat
  /-- `dpg_length`. -/
  length : Nat
  /-- The line holds a deleted record as `DPM_chain` stores it, which is not padded. -/
  stub : Bool
  deriving DecidableEq, Repr

namespace Line

/-- An entry without a record. -/
def unused : Line := { offset := 0, length := 0, stub := false }

/-- The area that a record takes on the page. -/
def area (line : Line) : Extent := { start := line.offset, size := roundup line.length }

end Line

/-- A data page. -/
structure Page where
  lines : List Line
  bytes : Nat → UInt8

/-- The image of a record to be stored. -/
structure Record where
  /-- The header, `RHD_SIZE` or `RHDE_SIZE` bytes. -/
  header : List UInt8
  /-- The packed data. -/
  packed : List UInt8
  /-- `rpb_deleted`. -/
  deleted : Bool
  deriving DecidableEq, Repr

namespace Record

/-- Header and data, padded to the length of a fragmented record header. -/
def padded (record : Record) : List UInt8 :=
  let size := record.header.length + record.packed.length
  record.header ++ record.packed ++ List.replicate (rhdfSize - size) 0

/-- What `DPM_chain` stores: deleted records are not padded. -/
def chained (record : Record) : List UInt8 :=
  if record.deleted then record.header ++ record.packed else record.padded

end Record

/-- The bytes after an image has been written at an address. -/
def writeBytes (bytes : Nat → UInt8) (start : Nat) (image : List UInt8) : Nat → UInt8 :=
  fun address =>
    if start ≤ address then image.getD (address - start) (bytes address) else bytes address

/-- The bytes after single bytes have been written at distances from an address. -/
def patchBytes (bytes : Nat → UInt8) (start : Nat) (patch : List (Nat × UInt8)) : Nat → UInt8 :=
  patch.foldl (fun bytes field => Function.update bytes (start + field.1) field.2) bytes

/-- The bytes that the used lines take, each rounded up. -/
def occupied : List Line → Nat
  | [] => 0
  | line :: lines =>
      if line.offset ≠ 0 then roundup line.length + occupied lines else occupied lines

/-- The lowest offset in use, or the page size. -/
def lowest (pageSize : Nat) : List Line → Nat
  | [] => pageSize
  | line :: lines =>
      if line.offset ≠ 0 then min line.offset (lowest pageSize lines) else lowest pageSize lines

/-- The loop of `compress`: `temp` is the temporary page, filled from its end. -/
def compressLoop (bytes : Nat → UInt8) :
    List Line → Nat → (Nat → UInt8) → List Line × Nat × (Nat → UInt8)
  | [], space, temp => ([], space, temp)
  | line :: lines, space, temp =>
      if line.offset ≠ 0 then
        let l := roundup line.length
        let space := space - l
        let temp := fun address =>
          if space ≤ address ∧ address < space + l then bytes (line.offset + (address - space))
          else temp address
        let rest := compressLoop bytes lines space temp
        ({ line with offset := space } :: rest.1, rest.2)
      else
        let rest := compressLoop bytes lines space temp
        (line :: rest.1, rest.2)

/-- `compress`: the page and its high water mark. -/
def compress (pageSize : Nat) (page : Page) : Page × Nat :=
  let result := compressLoop page.bytes page.lines pageSize page.bytes
  let space := result.2.1
  ({ lines := result.1
     bytes := fun address =>
       if space ≤ address ∧ address < pageSize then result.2.2 address else page.bytes address },
    space)

/-- A line at the given place of the index, which may be the next new one. -/
def setLine (lines : List Line) (slot : Nat) (line : Line) : List Line :=
  if slot < lines.length then lines.set slot line else lines ++ [line]

/-- A primary record version that may have to grow: no back version, and none of the flags `rhd_chain`,
`rhd_blob`, `rhd_deleted` and `rhd_fragment`. -/
def fudged (bytes : Nat → UInt8) (line : Line) : Bool :=
  (List.range 4).all (fun index => bytes (line.offset + 4 + index) == 0) &&
    (bytes (line.offset + 10) &&& 0x17) == 0

/-- The space that `find_space` reserves for the primary versions. -/
def reserved (bytes : Nat → UInt8) : List Line → Nat
  | [] => 0
  | line :: lines =>
      if line.offset ≠ 0 && fudged bytes line then rhdfSize + reserved bytes lines
      else reserved bytes lines

/-- The slot that `find_space` takes, 0 for a new one: the first line is never reused. -/
def freeSlot (lines : List Line) : Nat :=
  match lines.tail.findIdx? fun line => line.offset = 0 with
  | some index => index + 1
  | none => 0

/-- `find_space` and the caller's copy of the image: the new page and the slot, or nothing. -/
def findSpace (pageSize : Nat) (page : Page) (reserving : Bool) (image : List UInt8) :
    Option (Page × Nat) :=
  let slot := freeSlot page.lines
  let alignedSize := roundup image.length
  let used := highWater page.lines.length + occupied page.lines +
    (if reserving then reserved page.bytes page.lines else 0) + (if slot = 0 then 4 else 0)
  if used + alignedSize > pageSize then none
  else
    let segments := page.lines.length + if slot = 0 then 1 else 0
    let room := if alignedSize + highWater segments > lowest pageSize page.lines then
      compress pageSize page else (page, lowest pageSize page.lines)
    let slot := if slot = 0 then page.lines.length else slot
    let space := room.2 - alignedSize
    some
      ({ lines := setLine room.1.lines slot
           { offset := space, length := image.length, stub := false }
         bytes := writeBytes room.1.bytes space image }, slot)

/-- The three cases of `fragment`, with the header bytes that its first part writes. -/
inductive Claim where
  /-- The version of another transaction stays, or the version that was stored as a delta. -/
  | keep (patch : List (Nat × UInt8))
  /-- All the space left on the page is claimed for a deleted stub. -/
  | stub (patch : List (Nat × UInt8))
  deriving DecidableEq, Repr

namespace Claim

/-- The bytes that the first part of `fragment` writes. -/
def patch : Claim → List (Nat × UInt8)
  | .keep patch => patch
  | .stub patch => patch

end Claim

/-- What `DPM_update` does. -/
inductive Updated where
  | stored (page : Page)
  /-- `fragment` has claimed the given space. -/
  | fragmented (page : Page) (given : Int)

/-- The first part of `fragment`; the line has length 0. -/
def claimSpace (pageSize : Nat) (page : Page) (line : Nat) (available : Int) (oldLength : Nat)
    (claim : Claim) : Updated :=
  let old := page.lines.getD line .unused
  match claim with
  | .keep patch =>
      .fragmented
        { lines := page.lines.set line { old with length := oldLength }
          bytes := patchBytes page.bytes old.offset patch } oldLength
  | .stub patch =>
      let room := compress pageSize page
      let space := (room.2 - available).toNat
      .fragmented
        { lines := room.1.lines.set line
            { offset := space, length := available.toNat, stub := false }
          bytes := patchBytes room.1.bytes space patch } available

/-- `DPM_update` up to the point where `fragment` releases the page. -/
def update (pageSize : Nat) (page : Page) (line : Nat) (record : Record) (claim : Claim) : Updated :=
  let image := record.padded
  let length := roundup image.length
  let top := highWater page.lines.length
  let old := page.lines.getD line .unused
  let page := { page with lines := page.lines.set line { old with length := 0 } }
  let available : Int := (pageSize : Int) - top - occupied page.lines
  if (length : Int) > available then claimSpace pageSize page line available old.length claim
  else
    let room := if length + top > lowest pageSize page.lines then compress pageSize page
      else (page, lowest pageSize page.lines)
    let space := room.2 - length
    .stored
      { lines := room.1.lines.set line { offset := space, length := image.length, stub := false }
        bytes := writeBytes room.1.bytes space image }

/-- The second part of `fragment`: the header and the head of the packed data. -/
def fillFragment (page : Page) (line : Nat) (patch : List (Nat × UInt8)) (packed : List UInt8) :
    Page :=
  let old := page.lines.getD line .unused
  { page with
    bytes := writeBytes (patchBytes page.bytes old.offset patch) (old.offset + rhdfSize) packed }

/-- The slot that `DPM_chain` takes. -/
def chainSlot (lines : List Line) : Nat := lines.findIdx fun line => line.length = 0

/-- The bytes that the used lines take as `DPM_chain` counts them. -/
def chainOccupied : List Line → Nat
  | [] => 0
  | line :: lines =>
      if line.length ≠ 0 && line.offset ≠ 0 then roundup line.length + chainOccupied lines
      else chainOccupied lines

/-- The lowest offset as `DPM_chain` computes it. -/
def chainLowest (pageSize : Nat) : List Line → Nat
  | [] => pageSize
  | line :: lines =>
      if line.length ≠ 0 && line.offset ≠ 0 then min line.offset (chainLowest pageSize lines)
      else chainLowest pageSize lines

/-- `DPM_chain`: the page with the new version at the line and the old one at the slot, or nothing.
The flag `rhd_chain` of the old version is the bit 2 of its byte 10. -/
def chain (pageSize : Nat) (page : Page) (line : Nat) (record : Record) : Option (Page × Nat) :=
  let image := record.chained
  if record.packed.length + (28 + record.header.length) > pageSize then none
  else
    let length := roundup image.length
    let slot := chainSlot page.lines
    let new := if slot = page.lines.length then 4 else 0
    let top := highWater page.lines.length + new
    if highWater page.lines.length + chainOccupied page.lines + new + length > pageSize then none
    else
      let room := if length + top > chainLowest pageSize page.lines then compress pageSize page
        else (page, chainLowest pageSize page.lines)
      let space := room.2 - length
      let old := room.1.lines.getD line .unused
      let bytes := Function.update room.1.bytes (old.offset + 10)
        (room.1.bytes (old.offset + 10) ||| 2)
      some
        ({ lines := (setLine room.1.lines slot old).set line
             { offset := space, length := image.length, stub := record.deleted }
           bytes := writeBytes bytes space image }, slot)

/-- The lines up to the last one with a length, as `DPM_backout` counts them. -/
def shrinkByLength (lines : List Line) : List Line :=
  (lines.reverse.dropWhile fun line => line.length = 0).reverse

/-- `DPM_backout`, which clears `rhd_chain` and `rhd_gc_active` of the version it restores. -/
def backout (page : Page) (line back : Nat) : Page :=
  let old := page.lines.getD back .unused
  let flags := Function.update page.bytes (old.offset + 10)
    (page.bytes (old.offset + 10) &&& 0xFD)
  { lines := shrinkByLength ((page.lines.set line old).set back .unused)
    bytes := Function.update flags (old.offset + 11) (flags (old.offset + 11) &&& 0xFE) }

/-- The lines up to the last one with an offset, as `DPM_delete` counts them. -/
def shrinkByOffset (lines : List Line) : List Line :=
  (lines.reverse.dropWhile fun line => line.offset = 0).reverse

/-- `DPM_delete`. -/
def delete (page : Page) (line : Nat) : Page :=
  { page with lines := shrinkByOffset (page.lines.set line .unused) }

end LineArea
end Firebird
