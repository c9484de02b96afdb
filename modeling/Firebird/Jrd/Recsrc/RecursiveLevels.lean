import Firebird.Jrd.Recsrc.RecursiveStream

/-!
# The levels of a recursive union

What the streams of a recursive union are to do, and what holds of the request on each level: the
state of every level below is what was saved when the next one was entered.
-/

namespace Firebird
namespace RecursiveStream

variable {Value : Type*} (union : RecursiveStream Value)

/-! ## Streams -/

/-- The slice that is saved has the state of the stream, and each inner stream is saved once. -/
structure WellFormed : Prop where
  before : union.m_saveOffset ≤ union.m_impure
  behind : union.m_impure + impureSize ≤ union.m_saveOffset + union.m_saveSize
  nodup : union.m_innerStreams.Nodup
  used : ∀ stream ∈ union.m_inner.usedStreams, stream ∈ union.m_innerStreams
  stream_inner : union.m_stream ∉ union.m_innerStreams
  map_inner : union.m_mapStream ∉ union.m_innerStreams
  stream_root : union.m_stream ∉ union.m_root.usedStreams
  map_root : union.m_mapStream ∉ union.m_root.usedStreams
  apart : union.m_stream ≠ union.m_mapStream

theorem mem_addStreams {streams used : List Nat} {stream : Nat} :
    stream ∈ addStreams streams used ↔ stream ∈ streams ∨ stream ∈ used := by
  induction used generalizing streams with
  | nil => simp [addStreams]
  | cons head used ih =>
      rw [addStreams, ih]
      split
      · rename_i present
        rw [List.mem_cons]
        constructor
        · rintro (member | member)
          · exact Or.inl member
          · exact Or.inr (Or.inr member)
        · rintro (member | rfl | member)
          · exact Or.inl member
          · exact Or.inl present
          · exact Or.inr member
      · simp [or_assoc]

theorem nodup_addStreams {streams used : List Nat} (nodup : streams.Nodup) :
    (addStreams streams used).Nodup := by
  induction used generalizing streams with
  | nil => exact nodup
  | cons head used ih =>
      rw [addStreams]
      split
      · exact ih nodup
      · rename_i absent
        exact ih (List.nodup_append.mpr ⟨nodup, List.nodup_singleton _, by
          intro stream member other single equal
          rw [List.mem_singleton.mp single] at equal
          exact absent (equal ▸ member)⟩)

/-- The constructor builds a well formed stream from streams that are different. -/
theorem new_wellFormed {csb_impure stream mapStream fmt_length saveOffset : Nat} {filler : Value}
    {root inner : Source Value} {rootMap innerMap : MapNode Value} {innerStreams : List Nat}
    (order : saveOffset ≤ csb_impure) (nodup : innerStreams.Nodup) (apart : stream ≠ mapStream)
    (own : ∀ other ∈ [stream, mapStream],
      other ∉ innerStreams ∧ other ∉ inner.usedStreams ∧ other ∉ root.usedStreams) :
    (new csb_impure stream mapStream fmt_length filler root inner rootMap innerMap innerStreams
      saveOffset).WellFormed := by
  obtain ⟨stream_given, stream_inner, stream_root⟩ := own stream (by simp)
  obtain ⟨map_given, map_inner, map_root⟩ := own mapStream (by simp)
  refine ⟨order, ?_, nodup_addStreams nodup, ?_, ?_, ?_, stream_root, map_root, apart⟩
  · simp only [new]
    omega
  · intro other member
    exact mem_addStreams.mpr (Or.inr member)
  · intro member
    exact (mem_addStreams.mp member).elim stream_given stream_inner
  · intro member
    exact (mem_addStreams.mp member).elim map_given map_inner

/-! ## What a stream can see -/

/-- The streams see no difference: neither the state of the union nor its current record counts. -/
structure Visible (request other : Request Value) : Prop where
  impure : ∀ place, union.IsSaved place → ¬union.IsOwn place →
    other.impure place = request.impure place
  params : ∀ stream, stream ≠ union.m_stream → stream ≠ union.m_mapStream →
    other.req_rpb stream = request.req_rpb stream

/-- A step of a stream leaves the state of the union alone, and the record parameters of other
streams. -/
structure Confined (source : Source Value) (step : Request Value → Request Value) : Prop where
  own : ∀ request place, union.IsOwn place → (step request).impure place = request.impure place
  params : ∀ request stream, stream ∉ source.usedStreams →
    (step request).req_rpb stream = request.req_rpb stream

/-- All operations of a stream are confined. -/
structure Behaves (source : Source Value) : Prop where
  openSource : union.Confined source source.openSource
  getRecord : union.Confined source fun request => (source.getRecord request).2
  close : union.Confined source source.close
  invalidateRecords : union.Confined source source.invalidateRecords

/-- The map record has the length of the format. -/
def HasMapRecord (request : Request Value) : Prop :=
  (request.record union.m_mapStream).length = union.fmt_length

/-- A stream that is opened where `ready` holds delivers these rows through the map, as long as it
is read where `here` holds. -/
structure Scan (source : Source Value) (map : MapNode Value) (ready here : Request Value → Prop)
    (rows : List (List Value)) where
  /-- The rows that are left. -/
  At : Request Value → List (List Value) → Prop
  visible : ∀ {request other rest}, union.Visible request other → At request rest → At other rest
  opens : ∀ {request}, ready request → At (source.openSource request) rows
  next : ∀ {request row rest}, At request (row :: rest) → here request →
    (source.getRecord request).1 = true ∧ At (source.getRecord request).2 rest ∧
      ∀ other, union.Visible (source.getRecord request).2 other → here other →
        union.HasMapRecord other →
          (union.assign map.sourceList map.targetList other).record union.m_mapStream = row
  last : ∀ {request}, At request [] → here request → (source.getRecord request).1 = false

/-- The current record is the one told. -/
def Current (parent : List Value) (request : Request Value) : Prop :=
  request.record union.m_stream = parent

/-- The area is as a new level finds it: zero, and without records. -/
structure Fresh (parent : List Value) (request : Request Value) : Prop where
  current : union.Current parent request
  zero : ∀ place, union.IsSaved place → ¬union.IsOwn place → request.impure place = .number 0
  records : ∀ stream ∈ union.m_innerStreams, (request.req_rpb stream).rpb_record = none

/-- The root stream delivers the roots, and the inner stream the children of the current record. -/
structure Contract (roots : List (List Value)) (children : List Value → List (List Value)) where
  rootBehaves : union.Behaves union.m_root
  innerBehaves : union.Behaves union.m_inner
  rootScan : union.Scan union.m_root union.m_rootMap (fun _ => True) (fun _ => True) roots
  innerScan : ∀ parent,
    union.Scan union.m_inner union.m_innerMap (union.Fresh parent) (union.Current parent)
      (children parent)

variable {union}

theorem WellFormed.own_saved (wellFormed : union.WellFormed) {place : Nat}
    (own : union.IsOwn place) : union.IsSaved place := by
  obtain ⟨low, high⟩ := own
  have := wellFormed.before
  have := wellFormed.behind
  exact ⟨by omega, by omega⟩

theorem WellFormed.inner_stream (wellFormed : union.WellFormed) :
    union.m_stream ∉ union.m_inner.usedStreams :=
  fun member => wellFormed.stream_inner (wellFormed.used _ member)

theorem WellFormed.inner_map (wellFormed : union.WellFormed) :
    union.m_mapStream ∉ union.m_inner.usedStreams :=
  fun member => wellFormed.map_inner (wellFormed.used _ member)

/-! ## Reading what was written -/

@[simp] theorem own_flags : union.IsOwn union.flagsAt := by simp [IsOwn, flagsAt, impureSize]
@[simp] theorem own_level : union.IsOwn union.levelAt := by simp [IsOwn, levelAt, impureSize]
@[simp] theorem own_mode : union.IsOwn union.modeAt := by simp [IsOwn, modeAt, impureSize]
@[simp] theorem own_stack : union.IsOwn union.stackAt := by simp [IsOwn, stackAt, impureSize]
@[simp] theorem own_data : union.IsOwn union.dataAt := by simp [IsOwn, dataAt, impureSize]

@[simp] theorem setImpure_rpb (request : Request Value) (place : Nat) (cell : Cell Value) :
    (request.setImpure place cell).req_rpb = request.req_rpb := rfl

@[simp] theorem setImpure_same (request : Request Value) (place : Nat) (cell : Cell Value) :
    (request.setImpure place cell).impure place = cell := by
  simp [Request.setImpure]

theorem setImpure_other (request : Request Value) {place other : Nat} (cell : Cell Value)
    (different : other ≠ place) : (request.setImpure place cell).impure other =
      request.impure other := by
  simp [Request.setImpure, different]

@[simp] theorem setParam_impure (request : Request Value) (stream : Nat)
    (param : RecordParam Value) : (request.setParam stream param).impure = request.impure := rfl

@[simp] theorem setParam_same (request : Request Value) (stream : Nat)
    (param : RecordParam Value) : (request.setParam stream param).req_rpb stream = param := by
  simp [Request.setParam]

theorem setParam_other (request : Request Value) {stream other : Nat} (param : RecordParam Value)
    (different : other ≠ stream) :
    (request.setParam stream param).req_rpb other = request.req_rpb other := by
  simp [Request.setParam, different]

@[simp] theorem setRecord_impure (request : Request Value) (stream : Nat) (data : List Value) :
    (request.setRecord stream data).impure = request.impure := rfl

@[simp] theorem record_setRecord (request : Request Value) (stream : Nat) (data : List Value) :
    (request.setRecord stream data).record stream = data := by
  simp [Request.setRecord, Request.record]

theorem setRecord_other (request : Request Value) {stream other : Nat} (data : List Value)
    (different : other ≠ stream) :
    (request.setRecord stream data).req_rpb other = request.req_rpb other :=
  setParam_other request _ different

@[simp] theorem setValid_impure (request : Request Value) (stream : Nat) (valid : Bool) :
    (request.setValid stream valid).impure = request.impure := rfl

theorem record_congr {request other : Request Value} {stream : Nat}
    (same : other.req_rpb stream = request.req_rpb stream) :
    other.record stream = request.record stream := by
  rw [Request.record, Request.record, same]

@[simp] theorem record_setValid (request : Request Value) (stream other : Nat) (valid : Bool) :
    (request.setValid stream valid).record other = request.record other := by
  by_cases equal : other = stream
  · subst equal
    simp [Request.setValid, Request.record]
  · exact record_congr (setParam_other request _ equal)

/-! ## Saving and restoring -/

theorem saveParams_impure (streams : List Nat) (request : Request Value) :
    (saveParams streams request).2.impure = request.impure := by
  induction streams generalizing request with
  | nil => rfl
  | cons stream streams ih =>
      rw [saveParams]
      exact (ih _).trans (setParam_impure ..)

theorem saveParams_other {streams : List Nat} {stream : Nat} (absent : stream ∉ streams)
    (request : Request Value) :
    (saveParams streams request).2.req_rpb stream = request.req_rpb stream := by
  induction streams generalizing request with
  | nil => rfl
  | cons head streams ih =>
      rw [List.mem_cons, not_or] at absent
      rw [saveParams]
      exact (ih absent.2 _).trans (setParam_other _ _ absent.1)

theorem saveParams_record {streams : List Nat} {stream : Nat} (present : stream ∈ streams)
    (request : Request Value) :
    ((saveParams streams request).2.req_rpb stream).rpb_record = none := by
  induction streams generalizing request with
  | nil => cases present
  | cons head streams ih =>
      rw [saveParams]
      by_cases later : stream ∈ streams
      · exact ih later _
      · obtain rfl := (List.mem_cons.mp present).resolve_right later
        dsimp only
        rw [saveParams_other later]
        simp

/-- Each stream that is saved once is saved as it was. -/
theorem saveParams_fst {streams : List Nat} (nodup : streams.Nodup) (request : Request Value) :
    (saveParams streams request).1 = streams.map request.req_rpb := by
  induction streams generalizing request with
  | nil => rfl
  | cons stream streams ih =>
      obtain ⟨fresh, nodup⟩ := List.nodup_cons.mp nodup
      rw [saveParams]
      dsimp only
      rw [ih nodup, List.map_cons]
      refine congrArg _ (List.map_congr_left fun other member => ?_)
      exact setParam_other _ _ fun equal => fresh (equal ▸ member)

theorem restoreParams_impure (streams : List Nat) (params : List (RecordParam Value))
    (request : Request Value) :
    (restoreParams streams params request).impure = request.impure := by
  induction streams generalizing params request with
  | nil => cases params <;> rfl
  | cons stream streams ih =>
      cases params with
      | nil => rfl
      | cons param params =>
          rw [restoreParams]
          exact (ih _ _).trans (setParam_impure ..)

theorem restoreParams_other {streams : List Nat} {stream : Nat} (absent : stream ∉ streams)
    (params : List (RecordParam Value)) (request : Request Value) :
    (restoreParams streams params request).req_rpb stream = request.req_rpb stream := by
  induction streams generalizing params request with
  | nil => cases params <;> rfl
  | cons head streams ih =>
      rw [List.mem_cons, not_or] at absent
      cases params with
      | nil => rfl
      | cons param params =>
          rw [restoreParams]
          exact (ih absent.2 _ _).trans (setParam_other _ _ absent.1)

theorem restoreParams_same {streams : List Nat} {stream : Nat} (present : stream ∈ streams)
    (past : Nat → RecordParam Value) (request : Request Value) :
    (restoreParams streams (streams.map past) request).req_rpb stream = past stream := by
  induction streams generalizing request with
  | nil => cases present
  | cons head streams ih =>
      rw [List.map_cons, restoreParams]
      by_cases later : stream ∈ streams
      · exact ih later _
      · obtain rfl := (List.mem_cons.mp present).resolve_right later
        rw [restoreParams_other later, setParam_same]

theorem restoreImpure_saved {place : Nat} (saved : union.IsSaved place)
    (past request : Request Value) :
    (union.restoreImpure request (union.saveImpure past)).impure place = past.impure place := by
  obtain ⟨low, high⟩ := saved
  have bound : place - union.m_saveOffset < union.m_saveSize := by omega
  have back : union.m_saveOffset + (place - union.m_saveOffset) = place := by omega
  simp only [restoreImpure, IsSaved, low, high, and_self, if_true, saveImpure]
  rw [List.getD_eq_getElem?_getD, List.getElem?_map, List.getElem?_range bound]
  simp [back]

/-- Where a level ends, what was saved at its start is there again. -/
structure Restored (union : RecursiveStream Value) (past before after : Request Value) : Prop where
  impure : ∀ place, union.IsSaved place → after.impure place = past.impure place
  inner : ∀ stream ∈ union.m_innerStreams, after.req_rpb stream = past.req_rpb stream
  outer : ∀ stream, stream ∉ union.m_innerStreams →
    after.req_rpb stream = before.req_rpb stream

theorem cleanupLevel_restores {request past : Request Value}
    (stack : request.impure union.stackAt =
      .saved (union.saveImpure past) (union.innerParams past)) :
    union.Restored past request (union.cleanupLevel request) := by
  rw [cleanupLevel, stack]
  refine ⟨fun place saved => ?_, fun stream member => ?_, fun stream absent => ?_⟩
  · rw [restoreParams_impure, restoreImpure_saved saved]
  · exact restoreParams_same member past.req_rpb _
  · rw [restoreParams_other absent]
    rfl

theorem Restored.snapshot {past before after : Request Value}
    (restored : union.Restored past before after) : union.snapshot after = union.snapshot past := by
  rw [RecursiveStream.snapshot, RecursiveStream.snapshot]
  refine Prod.ext ?_ ?_
  · refine List.map_congr_left fun index member => restored.impure _ ?_
    have := List.mem_range.mp member
    exact ⟨by omega, by omega⟩
  · exact List.map_congr_left fun stream member => restored.inner stream member

end RecursiveStream
end Firebird
