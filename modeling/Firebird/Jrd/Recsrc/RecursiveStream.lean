import Mathlib.Data.List.Basic
import Mathlib.Data.List.Nodup
import Firebird.Library.Forest

/-!
# Recursive unions

`RecursiveStream` of `jrd/recsrc/RecursiveStream.cpp` reads a recursive union with one root stream
and one inner stream.  To go down a level it saves a slice of the impure area of the request, which
holds the state of both streams and its own, and the record parameters of the inner streams; it then
zeroes the slice and opens the inner stream again.

Memory that is allocated for a level belongs to the pointer that leads to it, and is modelled as
what is stored in place of the pointer.
-/

namespace Firebird
namespace RecursiveStream

/-- `record_param`. -/
structure RecordParam (Value : Type*) where
  rpb_number : Int
  valid : Bool
  rpb_record : Option (List Value)

/-- What a place of the impure area holds. -/
inductive Cell (Value : Type*) where
  | number (n : Nat)
  /-- A copy of a part of the area and of record parameters. -/
  | saved (impure : List (Cell Value)) (params : List (RecordParam Value))
  /-- A copy of the data of a record. -/
  | data (record : List Value)

/-- The parts of `jrd_req` that streams work on. -/
structure Request (Value : Type*) where
  impure : Nat → Cell Value
  req_rpb : Nat → RecordParam Value

variable {Value : Type*}

namespace Request

variable (request : Request Value)

def setImpure (place : Nat) (cell : Cell Value) : Request Value :=
  { request with impure := Function.update request.impure place cell }

def setParam (stream : Nat) (param : RecordParam Value) : Request Value :=
  { request with req_rpb := Function.update request.req_rpb stream param }

/-- The data of the record of a stream. -/
def record (stream : Nat) : List Value :=
  ((request.req_rpb stream).rpb_record).getD []

def setRecord (stream : Nat) (data : List Value) : Request Value :=
  request.setParam stream { request.req_rpb stream with rpb_record := some data }

/-- `rpb_number.setValid`. -/
def setValid (stream : Nat) (valid : Bool) : Request Value :=
  request.setParam stream { request.req_rpb stream with valid := valid }

end Request

/-- A `RecordSource`. -/
structure Source (Value : Type*) where
  openSource : Request Value → Request Value
  getRecord : Request Value → Bool × Request Value
  close : Request Value → Request Value
  invalidateRecords : Request Value → Request Value
  /-- What `findUsedStreams` finds if it expands all. -/
  usedStreams : List Nat

/-- A `MapNode`: expressions, and the fields of the map record that they go to. -/
structure MapNode (Value : Type*) where
  sourceList : List (Request Value → Value)
  targetList : List Nat

def BOF_NUMBER : Int := -1

def irsb_open : Nat := 1

def MAX_RECURSE_LEVEL : Nat := 1024

/-- `Mode`. -/
def ROOT : Nat := 0
def RECURSE : Nat := 1

/-- The number of places of `Impure`. -/
def impureSize : Nat := 5

end RecursiveStream

open RecursiveStream

/-- The members of a `RecursiveStream`. -/
structure RecursiveStream (Value : Type*) where
  m_stream : Nat
  m_mapStream : Nat
  /-- The length of a record of `m_format`, and what a new record is filled with. -/
  fmt_length : Nat
  filler : Value
  m_root : Source Value
  m_inner : Source Value
  m_rootMap : MapNode Value
  m_innerMap : MapNode Value
  m_innerStreams : List Nat
  m_impure : Nat
  m_saveOffset : Nat
  m_saveSize : Nat

namespace RecursiveStream

variable {Value : Type*}

/-- `findUsedStreams` adds a stream that is not there. -/
def addStreams (streams : List Nat) : (used : List Nat) → List Nat
  | [] => streams
  | stream :: used =>
      addStreams (if stream ∈ streams then streams else streams ++ [stream]) used

/-- The constructor; `csb_impure` is where the impure area of the request ends so far. -/
def new (csb_impure stream mapStream fmt_length : Nat) (filler : Value)
    (root inner : Source Value) (rootMap innerMap : MapNode Value) (innerStreams : List Nat)
    (saveOffset : Nat) : RecursiveStream Value where
  m_stream := stream
  m_mapStream := mapStream
  fmt_length := fmt_length
  filler := filler
  m_root := root
  m_inner := inner
  m_rootMap := rootMap
  m_innerMap := innerMap
  m_innerStreams := addStreams innerStreams inner.usedStreams
  m_impure := csb_impure
  m_saveOffset := saveOffset
  m_saveSize := csb_impure + impureSize - saveOffset

variable (union : RecursiveStream Value) (request : Request Value)

/-! ## The state of the stream -/

/-- Where the members of `Impure` are. -/
def flagsAt : Nat := union.m_impure
def levelAt : Nat := union.m_impure + 1
def modeAt : Nat := union.m_impure + 2
def stackAt : Nat := union.m_impure + 3
def dataAt : Nat := union.m_impure + 4

/-- The place is in the `Impure` of the stream. -/
def IsOwn (place : Nat) : Prop := union.m_impure ≤ place ∧ place < union.m_impure + impureSize

/-- The place is in the part of the area that is saved. -/
def IsSaved (place : Nat) : Prop :=
  union.m_saveOffset ≤ place ∧ place < union.m_saveOffset + union.m_saveSize

instance (place : Nat) : Decidable (union.IsOwn place) := inferInstanceAs (Decidable (_ ∧ _))
instance (place : Nat) : Decidable (union.IsSaved place) := inferInstanceAs (Decidable (_ ∧ _))

/-- A place read as a number; a pointer is not read so. -/
def Cell.toNat : Cell Value → Nat
  | .number n => n
  | _ => 0

def irsb_flags : Nat := (request.impure union.flagsAt).toNat
def irsb_level : Nat := (request.impure union.levelAt).toNat
def irsb_mode : Nat := (request.impure union.modeAt).toNat

/-- `record->copyDataFrom(impure->irsb_data)`. -/
def resetRecord : Request Value :=
  match request.impure union.dataAt with
  | .data record => request.setRecord union.m_stream record
  | _ => request

/-! ## Saving and restoring -/

/-- The part of the area that is saved. -/
def saveImpure : List (Cell Value) :=
  (List.range union.m_saveSize).map fun index => request.impure (union.m_saveOffset + index)

/-- The record parameters of the inner streams. -/
def innerParams : List (RecordParam Value) := union.m_innerStreams.map request.req_rpb

/-- What is to be found again at the end of a level. -/
def snapshot : List (Cell Value) × List (RecordParam Value) :=
  (union.saveImpure request, union.innerParams request)

/-- The loop that saves the record parameters, and takes the record from each. -/
def saveParams : (streams : List Nat) → Request Value → List (RecordParam Value) × Request Value
  | [], request => ([], request)
  | stream :: streams, request =>
      let rpb := request.req_rpb stream
      let saved := saveParams streams (request.setParam stream { rpb with rpb_record := none })
      (rpb :: saved.1, saved.2)

/-- The loop that restores them. -/
def restoreParams : (streams : List Nat) → List (RecordParam Value) → Request Value → Request Value
  | stream :: streams, param :: params, request =>
      restoreParams streams params (request.setParam stream param)
  | _, _, request => request

/-- `memcpy` to the part of the area that is saved. -/
def restoreImpure (cells : List (Cell Value)) : Request Value :=
  { request with
    impure := fun place =>
      if union.IsSaved place then cells.getD (place - union.m_saveOffset) (request.impure place)
      else request.impure place }

/-- `memset` of the part that is saved, but for the `Impure` of the stream. -/
def zeroImpure : Request Value :=
  { request with
    impure := fun place =>
      if union.IsSaved place ∧ ¬union.IsOwn place then .number 0 else request.impure place }

/-- `cleanupLevel`. -/
def cleanupLevel : Request Value :=
  match request.impure union.stackAt with
  | .saved cells params =>
      restoreParams union.m_innerStreams params (union.restoreImpure request cells)
  | _ => request

/-! ## Operations -/

/-- `VIO_record`. -/
def vioRecord (stream : Nat) : Request Value :=
  request.setRecord stream ((request.record stream).takeD union.fmt_length union.filler)

/-- The loop of `open` over the inner streams. -/
def resetNumbers : (streams : List Nat) → Request Value → Request Value
  | [], request => request
  | stream :: streams, request =>
      resetNumbers streams
        (request.setParam stream { request.req_rpb stream with rpb_number := BOF_NUMBER })

/-- `open`. -/
def openStream : Request Value :=
  let request := request.setImpure union.flagsAt (.number irsb_open)
  let request := union.vioRecord request union.m_stream
  let request := union.vioRecord request union.m_mapStream
  let request := request.setImpure union.modeAt (.number ROOT)
  let request := request.setImpure union.levelAt (.number 1)
  let request := request.setImpure union.stackAt (.number 0)
  let request := request.setImpure union.dataAt (.number 0)
  union.m_root.openSource (resetNumbers union.m_innerStreams request)

/-- What can go wrong: the level is beyond the limit, the mode is none, or a loop has not ended. -/
inductive Fault where
  | tooManyLevels
  | badMode
  | exhausted
  deriving DecidableEq, Repr

/-- One of the two streams. -/
inductive Member where
  | root
  | inner
  deriving DecidableEq, Repr

def source : Member → Source Value
  | .root => union.m_root
  | .inner => union.m_inner

def mapOf : Member → MapNode Value
  | .root => union.m_rootMap
  | .inner => union.m_innerMap

/-- What is seen of the levels; the code keeps no such log. -/
abbrev Log (Value : Type*) := List (Visit (List (Cell Value) × List (RecordParam Value)))

/-- Going down a level. -/
def enterLevel : Request Value :=
  let cells := union.saveImpure request
  let saved := saveParams union.m_innerStreams request
  let request := saved.2.setImpure union.stackAt (.saved cells saved.1)
  let request := request.setImpure union.dataAt (.data (request.record union.m_stream))
  let request := union.m_inner.openSource (union.zeroImpure request)
  request.setImpure union.levelAt (.number (union.irsb_level request + 1))

/-- The loop of `getRecord`: back through the levels until a stream has a record, which one is told
with the result. -/
def fetch : Nat → Member → Request Value → Except Fault (Option Member × Log Value × Request Value)
  | 0, _, _ => .error .exhausted
  | fuel + 1, member, request =>
      match (union.source member).getRecord request with
      | (true, request) => .ok (some member, [], request)
      | (false, request) =>
          if union.irsb_level request = 1 then
            .ok (none, [], request.setValid union.m_stream false)
          else
            let request := union.cleanupLevel ((union.source member).close request)
            let further :=
              if 1 < union.irsb_level request then
                fetch fuel .inner (union.resetRecord request)
              else fetch fuel .root request
            further.map fun result =>
              (result.1, .leave (union.snapshot request) :: result.2.1, result.2.2)

/-- `EXE_assignment` to a field of the map record. -/
def assignField (source : Request Value → Value) (target : Nat) : Request Value :=
  request.setRecord union.m_mapStream
    ((request.record union.m_mapStream).set target (source request))

/-- The assignments of a map. -/
def assign : List (Request Value → Value) → List Nat → Request Value → Request Value
  | source :: sources, target :: targets, request =>
      assign sources targets (union.assignField request source target)
  | _, _, request => request

/-- The record that is found is mapped, and becomes the current one. -/
def deliver (member : Member) : Request Value :=
  let request := request.setImpure union.modeAt (.number RECURSE)
  let map := union.mapOf member
  let request := union.assign map.sourceList map.targetList request
  let request := request.setRecord union.m_stream (request.record union.m_mapStream)
  request.setValid union.m_stream true

/-- A stream has been read; what it found is delivered. -/
def finish : Option Member × Log Value × Request Value → Bool × Log Value × Request Value
  | (none, log, request) => (false, log, request)
  | (some member, log, request) => (true, log, union.deliver request member)

/-- `getRecord`. -/
def getRecord : Except Fault (Bool × Log Value × Request Value) :=
  if union.irsb_flags request &&& irsb_open = 0 then
    .ok (false, [], request.setValid union.m_stream false)
  else if union.irsb_mode request = ROOT then
    (union.fetch (union.irsb_level request) .root request).map union.finish
  else if union.irsb_mode request = RECURSE then
    if MAX_RECURSE_LEVEL < union.irsb_level request then .error .tooManyLevels
    else
      let entered := union.enterLevel request
      (union.fetch (union.irsb_level entered) .inner entered).map fun result =>
        union.finish (result.1, .enter (union.snapshot request) :: result.2.1, result.2.2)
  else .error .badMode

/-- The loop of `close`. -/
def closeLevels : Nat → Request Value → Except Fault (Log Value × Request Value)
  | 0, _ => .error .exhausted
  | fuel + 1, request =>
      if 1 < union.irsb_level request then
        let request := union.cleanupLevel (union.m_inner.close request)
        (closeLevels fuel request).map fun result =>
          (.leave (union.snapshot request) :: result.1, result.2)
      else .ok ([], request)

/-- `close`. -/
def close : Except Fault (Log Value × Request Value) :=
  let request := union.m_inner.invalidateRecords (union.m_root.invalidateRecords request)
  if union.irsb_flags request &&& irsb_open = 0 then .ok ([], request)
  else
    let flags := union.irsb_flags request - (union.irsb_flags request &&& irsb_open)
    let request := request.setImpure union.flagsAt (.number flags)
    (union.closeLevels (union.irsb_level request) request).map fun result =>
      (result.1, union.m_root.close result.2)

/-- So many calls of `getRecord`, each of which finds a record. -/
def fetchRecords :
    Nat → Request Value → Except Fault (Option (List (List Value)) × Log Value × Request Value)
  | 0, request => .ok (some [], [], request)
  | count + 1, request => do
      let (found, log, request) ← union.getRecord request
      if found then
        let (rows, more, after) ← fetchRecords count request
        pure (rows.map (request.record union.m_stream :: ·), log ++ more, after)
      else pure (none, log, request)

end RecursiveStream
end Firebird
