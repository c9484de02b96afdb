import Mathlib.Data.UInt

/-!
# Clumplet buffers

`ClumpletReader` walks a buffer of clumplets: a tag, a length of no, one, two or four bytes, and the
data.  Sizes are computed in 32 bits.  The functions that report an error raise it.
-/

namespace Firebird
namespace Clumplet

/-- The kinds of buffers. -/
inductive Kind where
  | EndOfList
  | Tagged
  | UnTagged
  | SpbAttach
  | SpbStart
  | Tpb
  | WideTagged
  | WideUnTagged
  | SpbSendItems
  | SpbReceiveItems
  deriving DecidableEq, Repr

/-- The forms of clumplets. -/
inductive ClumpletType where
  | TraditionalDpb
  | SingleTpb
  | StringSpb
  | IntSpb
  | BigIntSpb
  | ByteSpb
  | Wide
  deriving DecidableEq, Repr

/-- The errors that a reader raises. -/
inductive ReaderError where
  | usage_mistake (what : String)
  | invalid_structure (what : String)
  deriving DecidableEq, Repr

/-- A reader.  `buffer` is `none` for the null pointer. -/
structure Reader where
  kind : Kind
  buffer : Option (List UInt8)
  cur_offset : Nat
  spbState : Nat
  /-- The length is an `FB_SIZE_T`. -/
  length_lt : (buffer.getD []).length < 2 ^ 32
  deriving DecidableEq, Repr

/-! ## The form of a clumplet -/

/-- The parameters of backup and restore. -/
def backupType : Nat → Except ReaderError ClumpletType
  | 5 | 106 | 13 | 14 | 15 | 8 => .ok .StringSpb
  | 6 | 7 | 11 | 9 | 10 | 108 | 114 => .ok .IntSpb
  | 107 => .ok .SingleTpb
  | 12 => .ok .ByteSpb
  | _ => .error (.invalid_structure "unknown parameter for backup/restore")

/-- The parameters of repair. -/
def repairType : Nat → Except ReaderError ClumpletType
  | 106 => .ok .StringSpb
  | 108 | 15 | 34 | 17 => .ok .IntSpb
  | 49 | 50 | 51 => .ok .BigIntSpb
  | _ => .error (.invalid_structure "unknown parameter for repair")

/-- The parameters of the security database operations. -/
def securityType : Nat → Except ReaderError ClumpletType
  | 106 | 60 | 7 | 8 | 9 | 10 | 11 | 12 => .ok .StringSpb
  | 5 | 6 | 13 => .ok .IntSpb
  | _ => .error (.invalid_structure "unknown parameter for security database operation")

/-- The database properties. -/
def propertiesType : Nat → Except ReaderError ClumpletType
  | 106 => .ok .StringSpb
  | 5 | 6 | 7 | 9 | 10 | 14 | 108 | 41 | 42 | 43 => .ok .IntSpb
  | 11 | 12 | 13 | 44 | 45 => .ok .ByteSpb
  | _ => .error (.invalid_structure "unknown parameter for setting database properties")

/-- The parameters of statistics. -/
def statisticsType : Nat → Except ReaderError ClumpletType
  | 106 | 105 | 64 => .ok .StringSpb
  | 108 => .ok .IntSpb
  | _ => .error (.invalid_structure "unknown parameter for getting statistics")

/-- The parameters of nbackup. -/
def nbackupType : Nat → Except ReaderError ClumpletType
  | 6 | 7 | 106 | 8 => .ok .StringSpb
  | 5 | 108 => .ok .IntSpb
  | _ => .error (.invalid_structure "unknown parameter for nbackup")

/-- The parameters of traces. -/
def traceType : Nat → Except ReaderError ClumpletType
  | 3 | 2 => .ok .StringSpb
  | 1 => .ok .IntSpb
  | _ => .error (.invalid_structure "wrong spb state")

/-- The parameters of validation. -/
def validateType : Nat → Except ReaderError ClumpletType
  | 1 | 2 | 3 | 4 | 106 => .ok .StringSpb
  | 5 => .ok .IntSpb
  | _ => .error (.invalid_structure "wrong spb state")

/-- The parameters of a service start block behind its action. -/
def serviceType (spbState tag : Nat) : Except ReaderError ClumpletType :=
  match spbState with
  | 0 => .ok .SingleTpb
  | 1 | 2 => backupType tag
  | 3 => repairType tag
  | 4 | 5 | 6 | 7 | 29 | 27 | 28 => securityType tag
  | 8 => propertiesType tag
  | 11 => statisticsType tag
  | 12 => .error (.invalid_structure "unknown parameter for getting log")
  | 20 | 21 => nbackupType tag
  | 22 | 23 | 24 | 25 => traceType tag
  | 30 => validateType tag
  | _ => .error (.invalid_structure "wrong spb state")

/-- `getClumpletType`. -/
def getClumpletType (kind : Kind) (spbState tag : Nat) : Except ReaderError ClumpletType :=
  match kind with
  | .Tagged | .UnTagged | .SpbAttach => .ok .TraditionalDpb
  | .WideTagged | .WideUnTagged => .ok .Wide
  | .Tpb =>
      match tag with
      | 11 | 10 | 21 => .ok .TraditionalDpb
      | _ => .ok .SingleTpb
  | .SpbSendItems =>
      match tag with
      | 69 => .ok .Wide
      | 1 | 2 | 3 | 4 | 126 | 127 => .ok .SingleTpb
      | _ => .ok .StringSpb
  | .SpbReceiveItems => .ok .SingleTpb
  | .SpbStart =>
      match tag with
      | 115 | 111 | 116 | 117 => .ok .Wide
      | _ => serviceType spbState tag
  | .EndOfList => .error (.invalid_structure "unknown reason")

namespace Reader

/-- The bytes of the buffer. -/
def bytes (reader : Reader) : List UInt8 := reader.buffer.getD []

/-- `getBufferLength`: a buffer that holds nothing but its tag is empty. -/
def getBufferLength (reader : Reader) : Nat :=
  if reader.bytes.length = 1 ∧ reader.kind ≠ .UnTagged ∧ reader.kind ≠ .SpbStart ∧
      reader.kind ≠ .WideUnTagged ∧ reader.kind ≠ .SpbSendItems ∧
      reader.kind ≠ .SpbReceiveItems then 0
  else reader.bytes.length

/-- `isEof`. -/
def isEof (reader : Reader) : Bool := reader.cur_offset ≥ reader.getBufferLength

/-- A byte of the current clumplet. -/
def byte (reader : Reader) (index : Nat) : Nat :=
  (reader.bytes.getD (reader.cur_offset + index) 0).toNat

/-- `getClumpTag`. -/
def getClumpTag (reader : Reader) : Except ReaderError Nat :=
  if reader.cur_offset ≥ reader.bytes.length then .error (.usage_mistake "read past EOF")
  else .ok (reader.byte 0)

/-- The size of the length of a clumplet, and the size of its data. -/
def lengthAndData (reader : Reader) (type : ClumpletType) : Except ReaderError (Nat × Nat) :=
  let left := reader.bytes.length - reader.cur_offset
  let short := ReaderError.invalid_structure
    "buffer end before end of clumplet - no length component"
  match type with
  | .Wide =>
      if left < 5 then .error short
      else .ok (4, ((reader.byte 4 * 2 ^ 8 + reader.byte 3) * 2 ^ 8 + reader.byte 2) * 2 ^ 8 +
        reader.byte 1)
  | .TraditionalDpb => if left < 2 then .error short else .ok (1, reader.byte 1)
  | .SingleTpb => .ok (0, 0)
  | .StringSpb =>
      if left < 3 then .error short else .ok (2, reader.byte 2 * 2 ^ 8 + reader.byte 1)
  | .IntSpb => .ok (0, 4)
  | .BigIntSpb => .ok (0, 8)
  | .ByteSpb => .ok (0, 1)

/-- `getClumpletSize`.  `total` and the result are of 32 bits. -/
def getClumpletSize (reader : Reader) (wTag wLength wData : Bool) : Except ReaderError Nat := do
  if reader.cur_offset ≥ reader.bytes.length then .error (.usage_mistake "read past EOF")
  else
    let type ← getClumpletType reader.kind reader.spbState (reader.byte 0)
    let (lengthSize, dataSize) ← reader.lengthAndData type
    let total := (1 + lengthSize + dataSize) % 2 ^ 32
    if reader.cur_offset + total > reader.bytes.length then
      .error (.invalid_structure "buffer end before end of clumplet - clumplet too long")
    else
      return ((if wTag then 1 else 0) + (if wLength then lengthSize else 0) +
        (if wData then dataSize else 0)) % 2 ^ 32

/-- `adjustSpbState`: the action stands at the start of a service start block. -/
def adjustSpbState (reader : Reader) : Except ReaderError Reader := do
  if reader.kind = .SpbStart ∧ reader.spbState = 0 then
    let size ← reader.getClumpletSize true true true
    if size = 1 then return { reader with spbState := ← reader.getClumpTag } else return reader
  else return reader

/-- `moveNext`. -/
def moveNext (reader : Reader) : Except ReaderError Reader := do
  if reader.isEof then return reader
  else
    let cs ← reader.getClumpletSize true true true
    let reader ← reader.adjustSpbState
    return { reader with cur_offset := (reader.cur_offset + cs) % 2 ^ 32 }

/-- `rewind`. -/
def rewind (reader : Reader) : Reader :=
  match reader.buffer with
  | none => { reader with cur_offset := 0, spbState := 0 }
  | some bytes =>
      let cur_offset :=
        match reader.kind with
        | .UnTagged | .WideUnTagged | .SpbStart | .SpbSendItems | .SpbReceiveItems => 0
        | kind =>
            if kind = .SpbAttach ∧ reader.getBufferLength > 0 ∧ bytes.head? ≠ some 1 then 2 else 1
      { reader with cur_offset, spbState := 0 }

/-- The loop over the clumplets up to one with a tag, for a number of rounds. -/
def seek (tag : Nat) : Nat → Reader → Option (Except ReaderError (Bool × Reader))
  | 0, _ => none
  | rounds + 1, reader =>
      if reader.isEof then some (.ok (false, reader))
      else
        match reader.getClumpTag with
        | .error error => some (.error error)
        | .ok found =>
            if tag = found then some (.ok (true, reader))
            else
              match reader.moveNext with
              | .error error => some (.error error)
              | .ok next => seek tag rounds next

/-- The loop over all clumplets. -/
def walk : Nat → Reader → Option (Except ReaderError Reader)
  | 0, _ => none
  | rounds + 1, reader =>
      if reader.isEof then some (.ok reader)
      else
        match reader.moveNext with
        | .error error => some (.error error)
        | .ok next => walk rounds next

/-- The offset is put back when nothing is found. -/
def restore (co : Nat) : Bool × Reader → Bool × Reader
  | (true, reader) => (true, reader)
  | (false, reader) => (false, { reader with cur_offset := co })

/-- `find`. -/
def find (tag rounds : Nat) (reader : Reader) : Option (Except ReaderError (Bool × Reader)) :=
  (seek tag rounds reader.rewind).map fun result => result.map (restore reader.cur_offset)

/-- `next`. -/
def next (tag rounds : Nat) (reader : Reader) : Option (Except ReaderError (Bool × Reader)) :=
  if reader.isEof then some (.ok (false, reader))
  else
    let first := do
      if tag = (← reader.getClumpTag) then reader.moveNext else return reader
    match first with
    | .error error => some (.error error)
    | .ok start =>
        (seek tag rounds start).map fun result => result.map (restore reader.cur_offset)

end Reader

end Clumplet
end Firebird
