import Firebird.Jrd.Dpm.LineArea
import Firebird.Jrd.SqzPartial

/-!
# How a record is stored

The model of `DPM_store`, `store_big_record`, `DPM_update` and `fragment` from `dpm.epp`, with
`get_header`, `DPM_fetch_fragment` and the part of `VIO_data` that reads the fragments back.  The
headers `rhd`, `rhde` and `rhdf` share their first 13 bytes; what follows on a line is kept as bytes,
since the flags tell whether it is data, a transaction number or a fragment pointer.  A page number
that `DPM_allocate` gives and the place that `locate_space` finds come from outside, and so does
whatever stands in an area that is not written.
-/

namespace Firebird
namespace RecordStorage

open LineArea (roundup rhdfSize highWater occupied)

/-- `RHD_SIZE`. -/
def rhdSize : Nat := 13

/-- `RHDE_SIZE`, the header with a long transaction number. -/
def rhdeSize : Nat := 16

/-- `sizeof(data_page)`, the page header and the first entry of the line index. -/
def dataPageSize : Nat := 28

/-- `MAX_ULONG`. -/
def maxUlong : Nat := 2 ^ 32 - 1

/-- A page size between `MIN_PAGE_SIZE` and `MAX_PAGE_SIZE`. -/
structure PageSize where
  bytes : Nat
  aligned : bytes % 4 = 0
  large : 4096 ≤ bytes
  small : bytes ≤ 32768

/-- The flags of a record header. -/
structure Flags where
  /-- `rhd_deleted`. -/
  deleted : Bool
  /-- `rhd_chain`. -/
  chain : Bool
  /-- `rhd_fragment`. -/
  fragment : Bool
  /-- `rhd_incomplete`. -/
  incomplete : Bool
  /-- `rhd_delta`. -/
  delta : Bool
  /-- `rhd_large`. -/
  large : Bool
  /-- `rhd_long_tranum`. -/
  longTranum : Bool
  deriving DecidableEq, Repr

/-- No flag set. -/
def Flags.none : Flags :=
  { deleted := false, chain := false, fragment := false, incomplete := false, delta := false,
    large := false, longTranum := false }

/-- What a line of a data page holds: the fields that all record headers share, and the bytes from
offset 13 on. -/
structure Line where
  transaction : Nat
  backPage : Nat
  backLine : Nat
  flags : Flags
  format : Nat
  rest : List UInt8
  deriving DecidableEq, Repr

/-- The lines of the data pages, by page and line. -/
abbrev Store := Nat × Nat → Option Line

/-- The fields of `record_param` that describe a record to be stored. -/
structure Record where
  data : List UInt8
  transaction : Nat
  backPage : Nat
  backLine : Nat
  flags : Flags
  format : Nat
  deriving DecidableEq, Repr

/-- The bytes of a number, the lowest first. -/
def littleEndian : Nat → Nat → List UInt8
  | 0, _ => []
  | count + 1, value => UInt8.ofNat value :: littleEndian count (value / 256)

/-- The number that such bytes stand for. -/
def ofLittleEndian : List UInt8 → Nat
  | [] => 0
  | byte :: bytes => byte.toNat + 256 * ofLittleEndian bytes

/-- An area after bytes have been written at an offset. -/
def writeAt (area : List UInt8) (offset : Nat) (bytes : List UInt8) : List UInt8 :=
  area.take offset ++ (bytes ++ area.drop (offset + bytes.length))

/-- The header size for a record that is stored whole. -/
def headerSize (transaction : Nat) : Nat := if maxUlong < transaction then rhdeSize else rhdSize

/-- `Ods::writeTraNum`: the high word stands at offset 14 in both extended headers. -/
def Line.writeTraNum (line : Line) (number : Nat) : Line :=
  let high := number / 2 ^ 32
  let flags := if high ≠ 0 then { line.flags with longTranum := true } else line.flags
  { line with
    transaction := number % 2 ^ 32
    flags
    rest := if flags.longTranum then writeAt line.rest 1 (littleEndian 2 high) else line.rest }

/-- The fragment pointer of `rhdf`. -/
def Line.writeFragment (line : Line) (place : Nat × Nat) : Line :=
  { line with
    rest := writeAt (writeAt line.rest 3 (littleEndian 4 place.1)) 7 (littleEndian 2 place.2) }

/-- What `get_header` makes of a line: the data, and the fragment pointer of an incomplete record. -/
structure Fetched where
  data : List UInt8
  next : Option (Nat × Nat)
  deriving DecidableEq, Repr

/-- `get_header`. -/
def getHeader (line : Line) : Except Fault Fetched :=
  let size :=
    if line.flags.incomplete then rhdfSize
    else if line.flags.longTranum then rhdeSize else rhdSize
  if line.rest.length < size - rhdSize then .error .outOfBounds
  else
    .ok
      { data := line.rest.drop (size - rhdSize)
        next :=
          if line.flags.incomplete then
            some (ofLittleEndian ((line.rest.drop 3).take 4),
              ofLittleEndian ((line.rest.drop 7).take 2))
          else none }

/-- The loop of `VIO_data` over the fragments. -/
def fetchFragments (store : Store) : Nat → Option (Nat × Nat) → Nat → Except Fault (List UInt8)
  | _, none, _ => .ok []
  | 0, some _, _ => .error .exhausted
  | rounds + 1, some place, room =>
      match store place with
      | none => .error (.bugcheck 248)
      | some line => do
          let fetched ← getHeader line
          let front ← Compressor.unpack fetched.data room
          let back ← fetchFragments store rounds fetched.next (room - front.length)
          return front ++ back

/-- `VIO_data` on the head of a record that is no delta, with the length of its format. -/
def data (store : Store) (rounds : Nat) (head : Line) (length : Nat) :
    Except Fault (List UInt8) := do
  let fetched ← getHeader head
  let front ← Compressor.unpack fetched.data length
  let back ← fetchFragments store rounds fetched.next (length - front.length)
  if (front ++ back).length ≠ length then .error (.bugcheck 183) else return front ++ back

/-- What `DPM_allocate` and `locate_space` find, and the bytes that stand there. -/
structure Space where
  /-- The pages that `DPM_allocate` gives, in turn. -/
  tails : Nat → Nat
  /-- The page and the line that `locate_space` finds. -/
  place : Nat × Nat
  /-- The bytes at that place. -/
  stale : Nat → UInt8

/-- An area of the given size that has not been written. -/
def staleArea (stale : Nat → UInt8) (size : Nat) : List UInt8 := (List.range size).map stale

/-- A record that is stored whole, padded to the length of a fragmented record header. -/
def wholeLine (record : Record) (stale : Nat → UInt8) (packed : List UInt8) : Line :=
  let size := headerSize record.transaction
  let fill := rhdfSize - size - packed.length
  let line :=
    Line.writeTraNum
      { transaction := 0, backPage := record.backPage, backLine := record.backLine,
        flags := record.flags, format := record.format,
        rest := staleArea stale (size - rhdSize + packed.length + fill) }
      record.transaction
  { line with
    rest := writeAt line.rest (size - rhdSize) (packed ++ List.replicate fill 0) }

/-- The first part of a fragmented record. -/
def frontLine (record : Record) (flags : Flags) (stale : Nat → UInt8) (size : Nat)
    (next : Nat × Nat) (packed : List UInt8) : Line :=
  let line :=
    Line.writeFragment
      (Line.writeTraNum
        { transaction := 0, backPage := record.backPage, backLine := record.backLine,
          flags := { flags with incomplete := true }, format := record.format,
          rest := staleArea stale (size - rhdSize) }
        record.transaction) next
  { line with rest := writeAt line.rest (rhdfSize - rhdSize) packed }

/-- Where `store_big_record` is in the record: the control bytes still to be read, the last one
first, the residual count, and the bytes in front of `in`. -/
structure Tail where
  controls : List UInt8
  count : Int
  used : Nat
  deriving DecidableEq, Repr

/-- The loop of `store_big_record` that moves compressed data onto a page, from its end: what is left
of the record, the bytes left on the page, and those written. -/
def fillPage (data : List UInt8) (tail : Tail) (length : Nat) (out : List UInt8) :
    Except Fault (Tail × Nat × List UInt8) :=
  if length ≤ 1 then .ok (tail, length, out)
  else if 0 < tail.count then
    -- Residual count
    let l := min tail.count.toNat (length - 1)
    if tail.used < l then .error .outOfBounds
    else
      fillPage data { tail with count := tail.count - l, used := tail.used - l } (length - (l + 1))
        (UInt8.ofNat l :: ((data.take tail.used).drop (tail.used - l) ++ out))
  else
    match tail with
    | { controls := [], .. } => .error .outOfBounds
    | { controls := control :: controls, used, .. } =>
        let count := signedChar control
        if count < 0 then
          if used < (-count).toNat then .error .outOfBounds
          else
            fillPage data { controls, count, used := used - (-count).toNat } (length - 2)
              (control :: data.getD (used - 1) 0 :: out)
        else fillPage data { controls, count, used } length out
termination_by (tail.controls.length, length)
decreasing_by
  · simp only [Prod.lex_def, lt_self_iff_false, true_and, false_or]
    omega
  · simp [Prod.lex_def]
  · simp [Prod.lex_def]

/-- The data that fits on a page of its own behind the header of a fragment. -/
def maxData (pageSize : PageSize) : Nat := pageSize.bytes - (dataPageSize + rhdfSize)

/-- A page of `store_big_record`, on which `DPM_allocate` leaves zeros. -/
def tailLine (prior : Nat) (out : List UInt8) : Line :=
  { transaction := 0, backPage := 0, backLine := 0,
    flags := { Flags.none with fragment := true, incomplete := prior ≠ 0 }, format := 0,
    rest := writeAt
      (writeAt (List.replicate (rhdfSize - rhdSize + out.length) 0) 3 (littleEndian 4 prior))
      (rhdfSize - rhdSize) out }

/-- The loop of `store_big_record` over the pages of the tail: the store, the last page and what is
left of the record. -/
def storeTails (pageSize : PageSize) (tails : Nat → Nat) (data : List UInt8) (store : Store)
    (index prior size : Nat) (tail : Tail) : Except Fault (Store × Nat × Tail) :=
  if maxData pageSize < size then
    match fillPage data tail (maxData pageSize) [] with
    | .error fault => .error fault
    | .ok (tail, length, out) =>
        -- If there is an odd byte left, fudge it.
        let out := if length ≠ 0 then 0 :: out else out
        let more := if length ≠ 0 then 1 else if 0 < tail.count then 1 else 0
        storeTails pageSize tails data
          (Function.update store (tails index, 0) (some (tailLine prior out))) (index + 1)
          (tails index) (size - maxData pageSize + more) tail
  else .ok (store, prior, tail)
termination_by size
decreasing_by
  have big := pageSize.large
  unfold maxData dataPageSize rhdfSize at *
  split
  · omega
  · split <;> omega

/-- `store_big_record`. -/
def storeBigRecord (pageSize : PageSize) (space : Space) (store : Store) (record : Record)
    (compressor : Compressor) : Except Fault Store := do
  let (store, prior, tail) ← storeTails pageSize space.tails record.data store 0 0
    compressor.getPackedLength
    { controls := compressor.m_control.reverse, count := 0, used := record.data.length }
  -- What is left fits on a page.
  let front := record.data.take tail.used
  match Compressor.new front with
  | none => .error .outOfBounds
  | some compressor => do
      let packed ← compressor.pack front
      let line := frontLine record { record.flags with large := true } space.stale
        (rhdfSize + compressor.getPackedLength) (prior, 0) packed
      return Function.update store space.place (some line)

/-- `DPM_store`. -/
def dpmStore (pageSize : PageSize) (space : Space) (store : Store) (record : Record) :
    Except Fault Store :=
  match Compressor.new record.data with
  | none => .error .outOfBounds
  | some compressor =>
      if pageSize.bytes - (dataPageSize + headerSize record.transaction) <
          compressor.getPackedLength then
        storeBigRecord pageSize space store record compressor
      else do
        let packed ← compressor.pack record.data
        return Function.update store space.place (some (wholeLine record space.stale packed))

/-- `fragment`, which finds the space it was given on the line again after the tail is stored. -/
def fragment (pageSize : PageSize) (space : Space) (stale : Nat → UInt8) (store : Store)
    (place : Nat × Nat) (available : Int) (oldLength own : Nat) (record : Record)
    (compressor : Compressor) : Except Fault Store := do
  let available : Int :=
    if record.transaction ≠ own ∨ record.flags.delta then oldLength else available
  let preHeaderLength ← compressor.getPartialLength (available - rhdfSize)
  let tail : Record :=
    { record with
      data := record.data.drop preHeaderLength
      backPage := 0
      backLine := 0
      flags := { Flags.none with fragment := true } }
  let store ← dpmStore pageSize space store tail
  let (postHeaderLength, packed) ← compressor.packLimited record.data (available - rhdfSize)
  if preHeaderLength ≠ postHeaderLength then .error (.bugcheck 252)
  else
    return Function.update store place
      (some (frontLine record record.flags stale available.toNat space.place packed))

/-- `DPM_update` of the record at a place, with the line index of its page. -/
def dpmUpdate (pageSize : PageSize) (space : Space) (stale : Nat → UInt8) (store : Store)
    (lines : List LineArea.Line) (place : Nat × Nat) (own : Nat) (record : Record) :
    Except Fault Store :=
  match Compressor.new record.data with
  | none => .error .outOfBounds
  | some compressor =>
      let size := headerSize record.transaction
      let fill := rhdfSize - size - compressor.getPackedLength
      let length := roundup (size + compressor.getPackedLength + fill)
      let old := lines.getD place.2 .unused
      let available : Int := (pageSize.bytes : Int) - highWater lines.length -
        occupied (lines.set place.2 { old with length := 0 })
      if available < length then
        fragment pageSize space stale store place available old.length own record compressor
      else do
        let packed ← compressor.pack record.data
        return Function.update store place (some (wholeLine record stale packed))

end RecordStorage
end Firebird
