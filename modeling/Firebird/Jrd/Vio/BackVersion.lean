import Firebird.Jrd.SqzDiff

/-!
# Back versions as differences

The chain of versions of one record, as `VIO_modify`, `VIO_writelock`, `VIO_erase`,
`VIO_update_in_place`, `VerbAction::undo`, `VIO_backout`, `purge`, `expunge` and `list_staying_fast`
leave it on the data pages, and `VIO_data`, which rebuilds the data of a version.  `rpb_delta` on a
version says that the next older one is stored as differences to it; `rpb_chained` marks the back
versions.
-/

namespace Firebird
namespace BackVersions

open Compressor (maxDifferences makeDiff makeNoDiff applyDiff)

/-- `Format`. -/
structure Format where
  fmt_version : Nat
  fmt_length : Nat
  accepted : fmt_length ≤ maxRecordSize
  deriving DecidableEq, Repr

/-! ## Records in memory -/

/-- `Record`: the memory of `m_data`, of which `count` bytes count as elements.  `getLength()` is the
length of the format, whatever the count. -/
structure Record where
  m_format : Format
  area : List UInt8
  count : Nat
  count_le : count ≤ area.length
  room : m_format.fmt_length ≤ area.length
  deriving DecidableEq, Repr

namespace Record

/-- The bytes from `getData()` up to `getLength()`. -/
def data (record : Record) : List UInt8 := record.area.take record.m_format.fmt_length

/-- A new record of zeros. -/
def new (format : Format) : Record where
  m_format := format
  area := List.replicate format.fmt_length 0
  count := format.fmt_length
  count_le := by rw [List.length_replicate]
  room := by rw [List.length_replicate]

/-- The memory of an array after `resize`: what is added is zero. -/
def resized (area : List UInt8) (count newCount : Nat) : List UInt8 :=
  if count < newCount then
    area.take count ++ (List.replicate (newCount - count) 0 ++ area.drop newCount)
  else area

theorem le_length_resized {area : List UInt8} {count : Nat} (newCount : Nat)
    (inside : count ≤ area.length) : newCount ≤ (resized area count newCount).length := by
  unfold resized
  split
  · simp only [List.length_append, List.length_take, List.length_replicate, List.length_drop]
    omega
  · omega

/-- `reset`. -/
def reset (record : Record) (format : Format) : Record :=
  if record.m_format = format then record
  else
    { m_format := format
      area := resized record.area record.count format.fmt_length
      count := format.fmt_length
      count_le := le_length_resized _ record.count_le
      room := le_length_resized _ record.count_le }

/-- `copyDataFrom`, which takes the count over as well. -/
def copyDataFrom (record other : Record) : Record where
  m_format := record.m_format
  area := other.area.take other.count ++ record.area.drop other.count
  count := other.count
  count_le := by
    have inside := other.count_le
    rw [List.length_append, List.length_take]
    omega
  room := by
    have inside := other.count_le
    have room := record.room
    rw [List.length_append, List.length_take, List.length_drop]
    omega

/-- The record with bytes written from `getData()` on. -/
def write (record : Record) (bytes : List UInt8) : Record where
  m_format := record.m_format
  area := bytes ++ record.area.drop bytes.length
  count := record.count
  count_le := by
    have inside := record.count_le
    rw [List.length_append, List.length_drop]
    omega
  room := by
    have room := record.room
    rw [List.length_append, List.length_drop]
    omega

end Record

/-! ## Versions on the data pages -/

/-- A version of the record, with its data as it is before `pack`. -/
structure Stored where
  rpb_transaction_nr : Nat
  format : Format
  /-- `rpb_deleted`. -/
  deleted : Bool
  /-- `rpb_delta`. -/
  delta : Bool
  /-- `rpb_chained`. -/
  chained : Bool
  bytes : List UInt8
  deriving DecidableEq, Repr

/-- `rpb_b_page && (rpb_flags & rpb_delta)`: the record becomes the prior one of the next version. -/
def Stored.isPrior (version : Stored) (older : List Stored) : Bool :=
  version.delta && !older.isEmpty

/-- `rpb_prior`, which may be the record that is read into. -/
inductive Prior where
  | none
  | same
  | other (record : Record)
  deriving DecidableEq, Repr

/-- `VIO_data`. -/
def vioData (version : Stored) (rpb_record : Record) (rpb_prior : Prior) : Except Fault Record :=
  let record := rpb_record.reset version.format
  -- Primary record version not uses prior version
  match if version.chained then rpb_prior else .none with
  | .none =>
      if version.format.fmt_length < version.bytes.length then .error (.bugcheck 179)
      else if version.format.fmt_length ≠ version.bytes.length then .error (.bugcheck 183)
      else .ok (record.write version.bytes)
  | .same => apply version record
  | .other prior => apply version (record.copyDataFrom prior)
where
  /-- The end of the routine for a delta version. -/
  apply (version : Stored) (record : Record) : Except Fault Record :=
    if maxDifferences < version.bytes.length then .error (.bugcheck 179)
    else do
      let (bytes, length) ← applyDiff version.bytes record.data
      if version.format.fmt_length ≠ length then .error (.bugcheck 183)
      else return record.write bytes

/-- The versions of a chain read one after the other from the primary version on, into one record or
into a record for each, given the record of the version before and whether it is the prior one. -/
def readVersions (shared : Bool) :
    Option Record → Bool → List Stored → Except Fault (List (Option (List UInt8)))
  | _, _, [] => .ok []
  | last, isPrior, version :: older =>
      if version.deleted ∧ version.delta = false then do
        let rest ← readVersions shared last isPrior older
        return none :: rest
      else do
        let record :=
          if shared then last.getD (Record.new version.format) else Record.new version.format
        let prior :=
          match last with
          | some record => if isPrior then if shared then .same else .other record else .none
          | none => Prior.none
        let record ← vioData version record prior
        let rest ← readVersions shared (some record) (version.isPrior older) older
        return some record.data :: rest

/-! ## The operations -/

/-- What `makeDiff` leaves for `prepare_update` in its buffer, if it is short enough to be stored. -/
def differences (new old : List UInt8) : Except Fault (Option (List UInt8)) := do
  match ← makeDiff new old (List.replicate maxDifferences 0) with
  | none => return none
  | some out =>
      if out.output < maxDifferences ∧ out.output < old.length then
        return some (out.area.take out.output)
      else return none

/-- The data of `new_rpb` in `prepare_update`. -/
inductive NewData where
  /-- There is no `new_rpb`: the record is erased. -/
  | erased
  /-- Both descriptors share the same record. -/
  | shared
  | changed (data : List UInt8)
  deriving DecidableEq, Repr

/-- `prepare_update`: the back version that it stores, and whether it sets `rpb_delta` of
`new_rpb`.  The record is the primary version that was read, with its prior flag. -/
def prepareUpdate (rpb : Stored) (rpb_record : Record) (rpb_prior : Bool) (new_rpb : NewData) :
    Except Fault (Stored × Bool) := do
  let temp : Stored :=
    { rpb_transaction_nr := rpb.rpb_transaction_nr, format := rpb_record.m_format, deleted := false,
      delta := rpb_prior, chained := true, bytes := rpb_record.data }
  match new_rpb with
  | .erased => return (temp, false)
  | .shared => return ({ temp with bytes := makeNoDiff temp.bytes.length }, true)
  | .changed data =>
      match ← differences data temp.bytes with
      | some bytes => return ({ temp with bytes }, true)
      | none => return (temp, false)

/-- The descriptor of the new contents in `VIO_update_in_place`. -/
structure NewVersion where
  format : Format
  data : List UInt8
  deleted : Bool
  deriving DecidableEq, Repr

/-- `VIO_update_in_place`, with the record of `org_rpb` if it is the prior one. -/
def updateInPlace (org : Stored) (older : List Stored) (org_prior : Option Record)
    (new : NewVersion) : Except Fault (List Stored) :=
  let replaced : Stored :=
    { org with format := new.format, deleted := new.deleted, chained := false, bytes := new.data }
  match org_prior with
  | none => .ok (replaced :: older)
  | some prior =>
      match older with
      | [] => .error (.bugcheck 291)
      | back :: rest => do
          -- The old delta is stored again as a complete record before it is deleted.
          let record ← vioData back (Record.new back.format) (.other prior)
          let temp2 : Stored :=
            { back with
              deleted := false, delta := back.isPrior rest, chained := true, bytes := record.data }
          return { replaced with delta := false } :: temp2 :: rest

/-- The primary version as a statement has read it, with its prior record. -/
def readPrimary (org : Stored) (older : List Stored) : Except Fault (Record × Option Record) := do
  let record ← vioData org (Record.new org.format) .none
  return (record, if org.isPrior older then some record else none)

/-- `VIO_modify` by a transaction, with the data in a format.  A deleted record is not found. -/
def modify (number : Nat) (system : Bool) (format : Format) (data : List UInt8) :
    List Stored → Except Fault (List Stored)
  | [] => .ok []
  | org :: older =>
      if org.deleted then .ok (org :: older)
      else do
        let (record, prior) ← readPrimary org older
        if system ∨ (org.rpb_transaction_nr = number ∧ org.format = format) then
          updateInPlace org older prior { format, data, deleted := false }
        else
          let (temp, delta) ← prepareUpdate org record prior.isSome (.changed data)
          return { org with
            rpb_transaction_nr := number, format, delta, chained := false, bytes := data } ::
              temp :: older

/-- `VIO_writelock` by a user transaction, with the current format and the data that
`VIO_copy_record` makes of the record if it is in another one. -/
def writelock (number : Nat) (current : Format) (copied : List UInt8) :
    List Stored → Except Fault (List Stored)
  | [] => .ok []
  | org :: older =>
      if org.deleted ∨ org.rpb_transaction_nr = number then .ok (org :: older)
      else do
        let (record, prior) ← readPrimary org older
        let upgraded := current ≠ org.format
        let (temp, delta) ← prepareUpdate org record prior.isSome
          (if upgraded then .changed copied else .shared)
        -- `new_rpb` starts as a copy of `org_rpb`, flags included.
        return { org with
          rpb_transaction_nr := number
          format := current
          delta := org.delta || delta
          chained := false
          bytes := if upgraded then copied else record.data } :: temp :: older

/-- `VIO_erase`; the flag says that `DPM_chain` finds room for the stub on the page. -/
def erase (number : Nat) (fits : Bool) : List Stored → Except Fault (List Stored)
  | [] => .ok []
  | org :: older =>
      if org.deleted then .ok (org :: older)
      else do
        let (record, prior) ← readPrimary org older
        if org.rpb_transaction_nr = number then
          updateInPlace org older prior { format := org.format, data := [], deleted := true }
        else
          let stub : Stored :=
            { rpb_transaction_nr := number, format := org.format, deleted := true, delta := false,
              chained := false, bytes := [] }
          if fits ∧ (org.delta → prior.isSome) then
            return stub :: { org with chained := true } :: older
          else
            let (temp, _) ← prepareUpdate org record prior.isSome .erased
            return stub :: temp :: older

/-- `VerbAction::undo` of a record with an undo record. -/
def undo (number : Nat) (data : List UInt8) : List Stored → Except Fault (List Stored)
  | [] => .error (.bugcheck 186)
  | org :: older => do
      let prior ←
        if org.deleted then pure none
        else do
          let (_, prior) ← readPrimary org older
          pure prior
      if org.rpb_transaction_nr ≠ number then .error (.bugcheck 185)
      else updateInPlace org older prior { format := org.format, data, deleted := false }

/-- `VIO_backout`.  The flags say that the back version is on the same page, and that
`list_staying_fast` purges what is behind it. -/
def backout (together purged : Bool) : List Stored → Except Fault (List Stored)
  | [] => .ok []
  | org :: older => do
      let data ←
        if org.deleted ∧ org.delta = false then pure none
        else do
          let (_, prior) ← readPrimary org older
          pure prior
      match older with
      | [] => return []
      | back :: rest =>
          let prior := if org.delta then data else none
          let (bytes, backPrior) ←
            if back.deleted then pure (back.bytes, prior.isSome)
            else do
              let record ← vioData back (Record.new back.format)
                (match prior with
                | some record => .other record
                | none => .none)
              pure (record.data, back.isPrior rest)
          -- What is behind `back` once the versions that stay have been listed.
          let purged : Bool := purged && !org.deleted && !rest.isEmpty
          let rest := if purged then [] else rest
          if together ∧ prior.isNone then
            return { back with delta := back.delta && !purged, chained := false } :: rest
          else
            return { back with delta := backPrior, chained := false, bytes } :: rest

/-- `purge` of the versions behind the one at a position: behind the primary one in `purge`, behind an
older one in `list_staying_fast`. -/
def purge : Nat → List Stored → List Stored
  | _, [] => []
  | _, [version] => [version]
  | 0, version :: _ :: _ => [{ version with delta := false }]
  | position + 1, version :: back :: older => version :: purge position (back :: older)

/-- `expunge` of a deleted record. -/
def expunge : List Stored → List Stored
  | [] => []
  | org :: older => if org.deleted then [] else org :: older

/-- What happens to a record. -/
inductive Event where
  | modify (number : Nat) (system : Bool) (format : Format) (data : List UInt8)
  | writelock (number : Nat) (current : Format) (copied : List UInt8)
  | erase (number : Nat) (fits : Bool)
  | undo (number : Nat) (data : List UInt8)
  | backout (together purged : Bool)
  | purge (position : Nat)
  | expunge
  deriving DecidableEq, Repr

/-- The chain after an event. -/
def step (chain : List Stored) : Event → Except Fault (List Stored)
  | .modify number system format data => modify number system format data chain
  | .writelock number current copied => writelock number current copied chain
  | .erase number fits => erase number fits chain
  | .undo number data => undo number data chain
  | .backout together purged => backout together purged chain
  | .purge position => .ok (purge position chain)
  | .expunge => .ok (expunge chain)

end BackVersions
end Firebird
