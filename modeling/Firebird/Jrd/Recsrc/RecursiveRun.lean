import Mathlib.Data.List.TakeDrop
import Firebird.Jrd.Recsrc.RecursiveFetch

/-!
# Runs of a recursive union

From the opening of a recursive union to its end, `getRecord` delivers the records of the tree, each
before those below it.  Whenever a level ends, or is closed, it leaves what it found.
-/

namespace Firebird
namespace RecursiveStream

variable {Value : Type*} {union : RecursiveStream Value} {request other after : Request Value}
variable {roots : List (List Value)} {children : List Value → List (List Value)}
variable {levels below : List (Forest (List Value))} {kids forest : Forest (List Value)}
variable {row : List Value} {opened : List (Snapshot Value)} {member : Member}

/-! ## Delivering a record -/

theorem assign_impure (union : RecursiveStream Value) (sources : List (Request Value → Value))
    (targets : List Nat) (request : Request Value) :
    (union.assign sources targets request).impure = request.impure := by
  induction sources generalizing targets request with
  | nil => cases targets <;> rfl
  | cons source sources ih =>
      cases targets with
      | nil => rfl
      | cons target targets =>
          rw [assign]
          exact (ih _ _).trans (setRecord_impure ..)

theorem assign_other {stream : Nat} (different : stream ≠ union.m_mapStream)
    (sources : List (Request Value → Value)) (targets : List Nat) (request : Request Value) :
    (union.assign sources targets request).req_rpb stream = request.req_rpb stream := by
  induction sources generalizing targets request with
  | nil => cases targets <;> rfl
  | cons source sources ih =>
      cases targets with
      | nil => rfl
      | cons target targets =>
          rw [assign]
          exact (ih _ _).trans (setRecord_other _ _ different)

theorem assign_mapRecord (sources : List (Request Value → Value)) (targets : List Nat)
    (hasRecord : union.HasMapRecord request) :
    union.HasMapRecord (union.assign sources targets request) := by
  induction sources generalizing targets request with
  | nil => cases targets <;> exact hasRecord
  | cons source sources ih =>
      cases targets with
      | nil => exact hasRecord
      | cons target targets =>
          rw [assign]
          refine ih _ ?_
          rw [HasMapRecord, assignField, record_setRecord, List.length_set]
          exact hasRecord

/-- The record that is delivered is the row, and the levels stay. -/
theorem deliver_spec (wellFormed : union.WellFormed) (maps : Maps union member row request)
    (hasRecord : union.HasMapRecord request) :
    (union.deliver request member).record union.m_stream = row ∧
      union.irsb_mode (union.deliver request member) = RECURSE ∧
      union.HasMapRecord (union.deliver request member) ∧
      Alike union request (union.deliver request member) := by
  let moded := request.setImpure union.modeAt (.number RECURSE)
  let mapped := union.assign (union.mapOf member).sourceList (union.mapOf member).targetList moded
  have visible : union.Visible request moded :=
    ⟨fun place _ foreign => setImpure_other _ _ fun equal => foreign (equal ▸ own_mode),
      fun _ _ _ => rfl⟩
  have mapped_eq : mapped.record union.m_mapStream = row := maps moded visible rfl hasRecord
  have delivered : union.deliver request member =
      (mapped.setRecord union.m_stream (mapped.record union.m_mapStream)).setValid
        union.m_stream true := rfl
  rw [delivered]
  refine ⟨?_, ?_, ?_, ?_, ?_⟩
  · rw [record_setValid, record_setRecord, mapped_eq]
  · rw [irsb_mode, setValid_impure, setRecord_impure, assign_impure, setImpure_same]
    rfl
  · rw [HasMapRecord, record_setValid,
      record_congr (setRecord_other _ _ wellFormed.apart.symm)]
    exact assign_mapRecord _ _ hasRecord
  · intro place _ different
    rw [setValid_impure, setRecord_impure, assign_impure]
    exact setImpure_other _ _ different
  · intro stream not_stream not_map
    rw [Request.setValid, setParam_other _ _ not_stream, setRecord_other _ _ not_stream,
      assign_other not_map]
    rfl

/-! ## One call -/

/-- Between two calls: no level has been entered yet, or the current record is the last one that was
found, with its children to come. -/
inductive Between (contract : union.Contract roots children) :
    Request Value → List (Forest (List Value)) → List (Snapshot Value) → Prop where
  | first {request : Request Value} {forest : Forest (List Value)}
      (mode : union.irsb_mode request = ROOT) (hasRecord : union.HasMapRecord request)
      (inside : Levels contract request [forest] []) : Between contract request [forest] []
  | later {request : Request Value} {kids : Forest (List Value)}
      {below : List (Forest (List Value))} {opened : List (Snapshot Value)}
      (mode : union.irsb_mode request = RECURSE) (hasRecord : union.HasMapRecord request)
      (kids_eq : kids.roots = children (request.record union.m_stream))
      (inside : Levels contract request below opened) :
      Between contract request (kids :: below) opened

/-- A call enters a level, if there is one to enter, and reads from there. -/
theorem getRecord_fetches (wellFormed : union.WellFormed)
    {contract : union.Contract roots children} (between : Between contract request levels opened)
    (fits : Forest.Fits MAX_RECURSE_LEVEL levels) :
    ∃ entering before opened₁, Visit.Nested opened entering opened₁ ∧
      Levels contract before levels opened₁ ∧ Here union levels before ∧
      union.HasMapRecord before ∧
      union.getRecord request =
        (union.fetch levels.length (memberOf levels) before).map fun result =>
          union.finish (result.1, entering ++ result.2.1, result.2.2) := by
  cases between with
  | @first forest mode hasRecord inside =>
      refine ⟨[], request, [], .done _, inside, (fun inner => nomatch inner), hasRecord, ?_⟩
      rw [getRecord, inside.flags_eq, if_neg (by decide), if_pos mode, inside.level_eq]
      rfl
  | @later kids below opened mode hasRecord kids_eq inside =>
      obtain ⟨levels, data, params⟩ := enterLevel_levels wellFormed inside kids_eq
      have member_eq : memberOf (kids :: below) = .inner := by
        cases inside <;> rfl
      have low : ¬MAX_RECURSE_LEVEL < below.length := by
        have := fits.1
        omega
      refine ⟨[.enter (union.snapshot request)], union.enterLevel request, _,
        .enter _ (.done _), levels, fun _ => ⟨_, data, ?_⟩, ?_, ?_⟩
      · exact record_congr (params _ wellFormed.stream_inner)
      · rw [HasMapRecord, record_congr (params _ wellFormed.map_inner)]
        exact hasRecord
      · rw [getRecord, inside.flags_eq, if_neg (by decide), mode, if_neg (by decide), if_pos rfl,
          inside.level_eq, if_neg low]
        dsimp only
        rw [levels.level_eq, member_eq]
        rfl

theorem getRecord_next (wellFormed : union.WellFormed) {contract : union.Contract roots children}
    (between : Between contract request levels opened)
    (fits : Forest.Fits MAX_RECURSE_LEVEL levels)
    (found : Forest.next levels = some (row, kids, below)) (kids_eq : kids.roots = children row) :
    ∃ log after opened', union.getRecord request = .ok (true, log, after) ∧
      Visit.Nested opened log opened' ∧ after.record union.m_stream = row ∧
      Between contract after (kids :: below) opened' := by
  obtain ⟨entering, before, opened₁, entered, inside, here, hasRecord, getRecord_eq⟩ :=
    getRecord_fetches wellFormed between fits
  obtain ⟨member, log, last, opened', fetched, ends⟩ :=
    fetch_next wellFormed inside here found (Nat.le_refl _)
  have hasRecord_last : union.HasMapRecord last := by
    rw [HasMapRecord, record_congr ends.mapRecord]
    exact hasRecord
  obtain ⟨record_eq, mode, hasRecord_after, alike⟩ :=
    deliver_spec wellFormed ends.maps hasRecord_last
  refine ⟨entering ++ log, union.deliver last member, opened', ?_, entered.append ends.nested,
    record_eq, .later mode hasRecord_after ?_ (ends.levels.alike wellFormed alike)⟩
  · rw [getRecord_eq, fetched]
    rfl
  · rw [record_eq, kids_eq]

theorem getRecord_end (wellFormed : union.WellFormed) {contract : union.Contract roots children}
    (between : Between contract request levels opened)
    (fits : Forest.Fits MAX_RECURSE_LEVEL levels) (ended : Forest.next levels = none) :
    ∃ log after, union.getRecord request = .ok (false, log, after) ∧
      Visit.Nested opened log [] := by
  obtain ⟨entering, before, opened₁, entered, inside, here, -, getRecord_eq⟩ :=
    getRecord_fetches wellFormed between fits
  obtain ⟨log, last, fetched, left⟩ := fetch_end wellFormed inside here ended (Nat.le_refl _)
  refine ⟨entering ++ log, last, ?_, entered.append left⟩
  rw [getRecord_eq, fetched]
  rfl

/-! ## Opening -/

theorem resetNumbers_impure (streams : List Nat) (request : Request Value) :
    (resetNumbers streams request).impure = request.impure := by
  induction streams generalizing request with
  | nil => rfl
  | cons stream streams ih =>
      rw [resetNumbers]
      exact (ih _).trans (setParam_impure ..)

theorem resetNumbers_other {streams : List Nat} {stream : Nat} (absent : stream ∉ streams)
    (request : Request Value) :
    (resetNumbers streams request).req_rpb stream = request.req_rpb stream := by
  induction streams generalizing request with
  | nil => rfl
  | cons head streams ih =>
      rw [List.mem_cons, not_or] at absent
      rw [resetNumbers]
      exact (ih absent.2 _).trans (setParam_other _ _ absent.1)

/-- An opened union is on its first level, before the first root. -/
theorem openStream_between (wellFormed : union.WellFormed)
    (contract : union.Contract forest.roots children) (request : Request Value) :
    Between contract (union.openStream request) [forest] [] := by
  have behaves := contract.rootBehaves
  refine .first ?_ ?_ (.root ?_ ?_ (contract.rootScan.opens trivial))
  · rw [irsb_mode, openStream, openSource_own behaves own_mode, resetNumbers_impure]
    simp [setImpure_other, modeAt, levelAt, stackAt, dataAt, Cell.toNat]
  · rw [HasMapRecord, openStream,
      record_congr (behaves.openSource.params _ _ wellFormed.map_root),
      record_congr (resetNumbers_other wellFormed.map_inner _)]
    exact (congrArg List.length (record_setRecord ..)).trans (List.takeD_length ..)
  · rw [irsb_flags, openStream, openSource_own behaves own_flags, resetNumbers_impure]
    simp [setImpure_other, flagsAt, modeAt, levelAt, stackAt, dataAt, Cell.toNat, vioRecord]
  · rw [irsb_level, openStream, openSource_own behaves own_level, resetNumbers_impure]
    simp [setImpure_other, levelAt, stackAt, dataAt, Cell.toNat]

/-! ## Closing -/

/-- The levels that are open, each with what was seen when it was entered. -/
inductive Stacked (union : RecursiveStream Value) :
    Request Value → List (Snapshot Value) → Prop where
  | bottom {request : Request Value} (level : union.irsb_level request = 1) :
      Stacked union request []
  | level {request past : Request Value} {opened : List (Snapshot Value)}
      (level : union.irsb_level request = opened.length + 2)
      (stack : request.impure union.stackAt =
        .saved (union.saveImpure past) (union.innerParams past))
      (under : Stacked union past opened) :
      Stacked union request (union.snapshot past :: opened)

theorem Stacked.level_eq (stacked : Stacked union request opened) :
    union.irsb_level request = opened.length + 1 := by
  cases stacked with
  | bottom level => exact level
  | level level => exact level

theorem Stacked.congr (stacked : Stacked union request opened)
    (level : other.impure union.levelAt = request.impure union.levelAt)
    (stack : other.impure union.stackAt = request.impure union.stackAt) :
    Stacked union other opened := by
  cases stacked with
  | bottom level' =>
      refine .bottom ?_
      rwa [irsb_level, level]
  | level level' stack' under =>
      refine .level ?_ (stack.trans stack') under
      rwa [irsb_level, level]

theorem Levels.stacked {contract : union.Contract roots children}
    (inside : Levels contract request levels opened) : Stacked union request opened := by
  induction inside with
  | root _ level => exact .bottom level
  | inner parent _ level _ stack _ _ under ih =>
      refine .level ?_ stack ih
      rw [level, under.length_eq]

theorem Between.stacked {contract : union.Contract roots children}
    (between : Between contract request levels opened) : Stacked union request opened := by
  cases between with
  | first _ _ inside => exact inside.stacked
  | later _ _ _ inside => exact inside.stacked

/-- Every level that is closed leaves what was seen when it was entered. -/
theorem closeLevels_nested (wellFormed : union.WellFormed) (behaves : union.Behaves union.m_inner)
    (stacked : Stacked union request opened) (fuel : Nat) (enough : opened.length < fuel) :
    ∃ log after, union.closeLevels fuel request = .ok (log, after) ∧
      Visit.Nested opened log [] := by
  induction opened generalizing request fuel with
  | nil =>
      obtain ⟨fuel, rfl⟩ := Nat.exists_eq_succ_of_ne_zero (Nat.ne_of_gt enough)
      have level := stacked.level_eq
      refine ⟨[], request, ?_, .done _⟩
      rw [closeLevels, if_neg]
      simp [level]
  | cons seen opened ih =>
      obtain ⟨fuel, rfl⟩ := Nat.exists_eq_succ_of_ne_zero (n := fuel) (by omega)
      cases stacked with
      | @level _ past _ level stack under =>
          let closed := union.m_inner.close request
          have restored : union.Restored past closed (union.cleanupLevel closed) :=
            cleanupLevel_restores ((behaves.close.own request _ own_stack).trans stack)
          have stacked := under.congr
            (restored.impure _ (wellFormed.own_saved own_level))
            (restored.impure _ (wellFormed.own_saved own_stack))
          obtain ⟨log, after, closes, left⟩ := ih stacked fuel (Nat.lt_of_succ_lt_succ enough)
          refine ⟨.leave (union.snapshot past) :: log, after, ?_, .leave _ left⟩
          rw [closeLevels, if_pos (by omega)]
          dsimp only
          rw [closes, restored.snapshot]
          rfl

theorem close_nested (wellFormed : union.WellFormed) {contract : union.Contract roots children}
    (between : Between contract request levels opened) :
    ∃ log after, union.close request = .ok (log, after) ∧ Visit.Nested opened log [] := by
  let rootless := union.m_root.invalidateRecords request
  let invalid := union.m_inner.invalidateRecords rootless
  have own : ∀ place, union.IsOwn place → invalid.impure place = request.impure place :=
    fun place own => (contract.innerBehaves.invalidateRecords.own rootless place own).trans
      (contract.rootBehaves.invalidateRecords.own request place own)
  have flags : union.irsb_flags invalid = irsb_open := by
    rw [irsb_flags, own _ own_flags]
    cases between with
    | first _ _ inside => exact inside.flags_eq
    | later _ _ _ inside => exact inside.flags_eq
  let unflagged := invalid.setImpure union.flagsAt (.number 0)
  have stacked : Stacked union unflagged opened := by
    refine between.stacked.congr ?_ ?_
    · exact (setImpure_other _ _ (by simp [flagsAt, levelAt])).trans (own _ own_level)
    · exact (setImpure_other _ _ (by simp [flagsAt, stackAt])).trans (own _ own_stack)
  obtain ⟨log, after, closes, left⟩ := closeLevels_nested wellFormed contract.innerBehaves stacked
    (union.irsb_level unflagged) (by rw [stacked.level_eq]; omega)
  refine ⟨log, union.m_root.close after, ?_, left⟩
  rw [close, flags, if_neg (by decide)]
  dsimp only
  rw [show irsb_open - (irsb_open &&& irsb_open) = 0 from rfl]
  exact congrArg _ closes

/-! ## Runs -/

/-- So many calls deliver so many of the records that are pending. -/
theorem fetchRecords_pending (wellFormed : union.WellFormed)
    {contract : union.Contract roots children} (between : Between contract request levels opened)
    (fits : Forest.Fits MAX_RECURSE_LEVEL levels)
    (grown : ∀ forest ∈ levels, forest.Grown children) (count : Nat)
    (bound : count ≤ (Forest.pending levels).length) :
    ∃ log after levels' opened',
      union.fetchRecords count request =
        .ok (some ((Forest.pending levels).take count), log, after) ∧
      Visit.Nested opened log opened' ∧ Between contract after levels' opened' ∧
      Forest.Fits MAX_RECURSE_LEVEL levels' ∧
      Forest.pending levels' = (Forest.pending levels).drop count := by
  induction count generalizing request levels opened with
  | zero => exact ⟨[], request, levels, opened, rfl, .done _, between, fits, rfl⟩
  | succ count ih =>
      cases found : Forest.next levels with
      | none =>
          rw [Forest.pending_of_next_none found] at bound
          exact absurd bound (by simp)
      | some result =>
          obtain ⟨row, kids, below⟩ := result
          have pending_eq := Forest.pending_of_next found
          obtain ⟨kids_eq, grown_next⟩ := Forest.grown_of_next found grown
          obtain ⟨log, between_after, opened₁, fetched, nested, record_eq, between⟩ :=
            getRecord_next wellFormed between fits found kids_eq
          rw [pending_eq, List.length_cons] at bound
          obtain ⟨more, after, levels', opened', fetched_more, nested_more, between', fits',
            rest_eq⟩ := ih between (Forest.fits_of_next found fits) grown_next (by omega)
          refine ⟨log ++ more, after, levels', opened', ?_, nested.append nested_more, between',
            fits', by rw [pending_eq, List.drop_succ_cons, rest_eq]⟩
          rw [fetchRecords, fetched, pending_eq, List.take_succ_cons]
          simp only [bind, Except.bind, if_true, fetched_more, record_eq]
          rfl

/-- The records of the tree come in the order of a walk, each once, and then no more; and a level
that ends, or is closed, leaves the impure area and the record parameters of the inner streams as
they were when it was entered. -/
theorem getRecord_preorder (union : RecursiveStream Value) (wellFormed : union.WellFormed)
    (forest : Forest (List Value)) (children : List Value → List (List Value))
    (contract : union.Contract forest.roots children) (grown : forest.Grown children)
    (bounded : forest.height ≤ MAX_RECURSE_LEVEL) (request : Request Value) :
    (∀ count ≤ forest.preorder.length, ∃ log after closing closed,
      union.fetchRecords count (union.openStream request) =
        .ok (some (forest.preorder.take count), log, after) ∧
      union.close after = .ok (closing, closed) ∧ Visit.Nested [] (log ++ closing) []) ∧
    ∃ log after ending ended,
      union.fetchRecords forest.preorder.length (union.openStream request) =
        .ok (some forest.preorder, log, after) ∧
      union.getRecord after = .ok (false, ending, ended) ∧
      Visit.Nested [] (log ++ ending) [] := by
  have start := openStream_between wellFormed contract request
  have fits : Forest.Fits MAX_RECURSE_LEVEL [forest] := ⟨by simpa using bounded, trivial⟩
  have grown_start : ∀ other ∈ [forest], other.Grown children := by
    intro other member
    rwa [List.mem_singleton.mp member]
  have pending_eq : Forest.pending [forest] = forest.preorder := by
    simp [Forest.pending]
  have run := fun count bound =>
    fetchRecords_pending wellFormed start fits grown_start count bound
  rw [pending_eq] at run
  constructor
  · intro count bound
    obtain ⟨log, after, levels', opened', fetched, nested, between, -, -⟩ := run count bound
    obtain ⟨closing, closed, closes, left⟩ := close_nested wellFormed between
    exact ⟨log, after, closing, closed, fetched, closes, nested.append left⟩
  · obtain ⟨log, after, levels', opened', fetched, nested, between, fits', rest_eq⟩ :=
      run forest.preorder.length (Nat.le_refl _)
    rw [List.drop_length] at rest_eq
    rw [List.take_length] at fetched
    have ended_levels : Forest.next levels' = none := by
      cases found : Forest.next levels' with
      | none => rfl
      | some result =>
          obtain ⟨row, kids, below⟩ := result
          have more := Forest.pending_of_next found
          rw [rest_eq] at more
          cases more
    obtain ⟨ending, ended, ends, left⟩ := getRecord_end wellFormed between fits' ended_levels
    exact ⟨log, after, ending, ended, fetched, ends, nested.append left⟩

/-! ## A table of parents and children -/

/-- A stream that reads rows one after the other; its state is the number of rows it has read. -/
def tableScan (place stream : Nat) (rows : Request Nat → List (List Nat)) : Source Nat where
  openSource request := request.setImpure place (.number 0)
  getRecord request :=
    match (rows request)[(request.impure place).toNat]? with
    | none => (false, request)
    | some row =>
        (true, (request.setImpure place (.number ((request.impure place).toNat + 1))).setRecord
          stream row)
  close request := request
  invalidateRecords request := request.setValid stream false
  usedStreams := [stream]

/-- The only field of the stream goes to the only field of the map record. -/
def fieldMap (stream : Nat) : MapNode Nat where
  sourceList := [fun request => (request.record stream).headD 0]
  targetList := [0]

def childrenOf : List Nat → List (List Nat)
  | [1] => [[2], [3]]
  | [2] => [[4]]
  | _ => []

/-- The union over a table: its own records are stream 0, mapped by stream 1. -/
def hierarchy : RecursiveStream Nat :=
  new 2 0 1 1 0 (tableScan 0 3 fun _ => [[1]]) (tableScan 1 2 fun request =>
    childrenOf (request.record 0)) (fieldMap 3) (fieldMap 2) [] 0

theorem hierarchy_wellFormed : hierarchy.WellFormed :=
  new_wellFormed (by decide) (by decide) (by decide) (by decide)

theorem tableScan_behaves {union : RecursiveStream Nat} {place stream : Nat}
    (foreign : ¬union.IsOwn place) (rows : Request Nat → List (List Nat)) :
    union.Behaves (tableScan place stream rows) where
  openSource :=
    ⟨fun _ _ own => setImpure_other _ _ fun equal => foreign (equal ▸ own), fun _ _ _ => rfl⟩
  getRecord := by
    constructor
    · intro request other own
      have different : other ≠ place := fun equal => foreign (equal ▸ own)
      simp only [tableScan]
      split
      · rfl
      · exact setImpure_other _ _ different
    · intro request other unused
      have different : other ≠ stream := fun equal => unused (List.mem_singleton.mpr equal)
      simp only [tableScan]
      split
      · rfl
      · exact setRecord_other _ _ different
  close := ⟨fun _ _ _ => rfl, fun _ _ _ => rfl⟩
  invalidateRecords := ⟨fun _ _ _ => rfl, fun _ _ unused =>
    setParam_other _ _ fun equal => unused (List.mem_singleton.mpr equal)⟩

/-- The rows that are left are those that have not been read. -/
def tableScan_scan {union : RecursiveStream Nat} {place stream : Nat}
    {rows : Request Nat → List (List Nat)} {ready here : Request Nat → Prop}
    {table : List (List Nat)} (saved : union.IsSaved place) (foreign : ¬union.IsOwn place)
    (not_stream : stream ≠ union.m_stream) (not_map : stream ≠ union.m_mapStream)
    (rows_eq : ∀ request, here request → rows request = table)
    (single : ∀ row ∈ table, row.length = 1) (length : union.fmt_length = 1) :
    union.Scan (tableScan place stream rows) (fieldMap stream) ready here table where
  At request rest := rest = table.drop (request.impure place).toNat
  visible visible place_eq := by rw [visible.impure _ saved foreign, place_eq]
  opens _ := by simp [tableScan, Cell.toNat]
  last := by
    intro request rest_eq current
    have bound := List.drop_eq_nil_iff.mp rest_eq.symm
    simp [tableScan, rows_eq request current, bound]
  next := by
    intro request row rest rest_eq current
    have row_eq : table[(request.impure place).toNat]? = some row := by
      rw [← List.head?_drop, ← rest_eq, List.head?_cons]
    have read : (tableScan place stream rows).getRecord request = (true,
        (request.setImpure place (.number ((request.impure place).toNat + 1))).setRecord
          stream row) := by
      simp only [tableScan, rows_eq request current, row_eq]
    rw [read]
    refine ⟨rfl, ?_, fun other visible _ mapRecord => ?_⟩
    · rw [setRecord_impure, setImpure_same]
      change rest = table.drop ((request.impure place).toNat + 1)
      rw [← List.drop_drop, ← rest_eq]
      rfl
    · obtain ⟨value, rfl⟩ := List.length_eq_one_iff.mp (single row (List.mem_of_getElem? row_eq))
      have field : other.record stream = [value] := by
        rw [record_congr (visible.params stream not_stream not_map), record_setRecord]
      obtain ⟨old, old_eq⟩ := List.length_eq_one_iff.mp (mapRecord.trans length)
      simp [fieldMap, assign, assignField, field, old_eq]

def hierarchyContract : hierarchy.Contract [[1]] childrenOf where
  rootBehaves := tableScan_behaves (by decide) _
  innerBehaves := tableScan_behaves (by decide) _
  rootScan := tableScan_scan (by decide) (by decide) (by decide) (by decide) (fun _ _ => rfl)
    (by decide) rfl
  innerScan parent := tableScan_scan (by decide) (by decide) (by decide) (by decide)
    (fun _ current => congrArg childrenOf current) (by
      intro row member
      unfold childrenOf at member
      split at member
      · rcases List.mem_cons.mp member with rfl | member
        · rfl
        · rw [List.mem_singleton.mp member]
          rfl
      · rw [List.mem_singleton.mp member]
        rfl
      · cases member) rfl

/-- 1 with 2 and 3 below it, and 4 below 2. -/
def hierarchyForest : Forest (List Nat) :=
  .cons [1] (.cons [2] (.cons [4] .nil .nil) (.cons [3] .nil .nil)) .nil

example : hierarchyForest.preorder = [[1], [2], [4], [3]] := rfl

theorem getRecord_preorder_hierarchy :
    (∀ count ≤ 4, ∃ log after closing closed,
      hierarchy.fetchRecords count (hierarchy.openStream ⟨fun _ => .number 0, fun _ => ⟨0, false,
        none⟩⟩) = .ok (some ([[1], [2], [4], [3]].take count), log, after) ∧
      hierarchy.close after = .ok (closing, closed) ∧ Visit.Nested [] (log ++ closing) []) ∧
    ∃ log after ending ended,
      hierarchy.fetchRecords 4 (hierarchy.openStream ⟨fun _ => .number 0, fun _ => ⟨0, false,
        none⟩⟩) = .ok (some [[1], [2], [4], [3]], log, after) ∧
      hierarchy.getRecord after = .ok (false, ending, ended) ∧
      Visit.Nested [] (log ++ ending) [] :=
  getRecord_preorder hierarchy hierarchy_wellFormed hierarchyForest childrenOf hierarchyContract
    (by simp [hierarchyForest, Forest.Grown, Forest.roots, childrenOf]) (by decide) _

end RecursiveStream
end Firebird
