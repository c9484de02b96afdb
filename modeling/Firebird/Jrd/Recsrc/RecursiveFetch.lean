import Firebird.Jrd.Recsrc.RecursiveLevels

/-!
# Reading through the levels of a recursive union

`getRecord` goes down a level and then back through all the levels that have ended.  It finds the
next record of the walk, and ends a level as it was entered.
-/

namespace Firebird
namespace RecursiveStream

variable {Value : Type*} {union : RecursiveStream Value} {request other after : Request Value}
variable {roots : List (List Value)} {children : List Value → List (List Value)}
variable {levels below : List (Forest (List Value))} {kids : Forest (List Value)}
variable {row parent : List Value}

/-- What is seen of a level. -/
abbrev Snapshot (Value : Type*) := List (Cell Value) × List (RecordParam Value)

variable {opened : List (Snapshot Value)}

/-! ## Invariant -/

/-- Each level has a stream with some rows left.  Under each but the first is the request of when it
was entered, saved. -/
inductive Levels (contract : union.Contract roots children) :
    Request Value → List (Forest (List Value)) → List (Snapshot Value) → Prop where
  | root {request : Request Value} {rest : Forest (List Value)}
      (flags : union.irsb_flags request = irsb_open) (level : union.irsb_level request = 1)
      (place : contract.rootScan.At request rest.roots) : Levels contract request [rest] []
  | inner {request past : Request Value} {rest : Forest (List Value)}
      {below : List (Forest (List Value))} {opened : List (Snapshot Value)} (parent : List Value)
      (flags : union.irsb_flags request = irsb_open)
      (level : union.irsb_level request = below.length + 1)
      (data : request.impure union.dataAt = .data parent)
      (stack : request.impure union.stackAt =
        .saved (union.saveImpure past) (union.innerParams past))
      (outside : ∀ stream, stream ∉ union.m_innerStreams → stream ≠ union.m_stream →
        stream ≠ union.m_mapStream → request.req_rpb stream = past.req_rpb stream)
      (place : (contract.innerScan parent).At request rest.roots)
      (under : Levels contract past below opened) :
      Levels contract request (rest :: below) (union.snapshot past :: opened)

/-- Nothing but the mode and the two records of the union differs. -/
structure Alike (union : RecursiveStream Value) (request other : Request Value) : Prop where
  impure : ∀ place, union.IsSaved place → place ≠ union.modeAt →
    other.impure place = request.impure place
  params : ∀ stream, stream ≠ union.m_stream → stream ≠ union.m_mapStream →
    other.req_rpb stream = request.req_rpb stream

theorem Alike.visible (alike : Alike union request other) : union.Visible request other :=
  ⟨fun place saved foreign =>
    alike.impure place saved fun equal => foreign (equal ▸ own_mode), alike.params⟩

namespace Levels

variable {contract : union.Contract roots children}

theorem flags_eq (inside : Levels contract request levels opened) :
    union.irsb_flags request = irsb_open := by
  cases inside with
  | root flags => exact flags
  | inner _ flags => exact flags

theorem level_eq (inside : Levels contract request levels opened) :
    union.irsb_level request = levels.length := by
  cases inside with
  | root _ level => exact level
  | inner _ _ level => exact level

theorem length_eq (inside : Levels contract request levels opened) :
    levels.length = opened.length + 1 := by
  induction inside with
  | root => rfl
  | inner _ _ _ _ _ _ _ _ ih => rw [List.length_cons, List.length_cons, ih]

theorem alike (wellFormed : union.WellFormed) (inside : Levels contract request levels opened)
    (alike : Alike union request other) : Levels contract other levels opened := by
  have own : ∀ place, union.IsOwn place → place ≠ union.modeAt →
      other.impure place = request.impure place :=
    fun place own different => alike.impure place (wellFormed.own_saved own) different
  have flags_same := own union.flagsAt own_flags (by simp [flagsAt, modeAt])
  have level_same := own union.levelAt own_level (by simp [levelAt, modeAt])
  cases inside with
  | root flags level place =>
      refine .root ?_ ?_ (contract.rootScan.visible alike.visible place)
      · rwa [irsb_flags, flags_same]
      · rwa [irsb_level, level_same]
  | @inner _ past rest below opened parent flags level data stack outside place under =>
      refine .inner parent ?_ ?_ ?_ ?_ ?_ ((contract.innerScan parent).visible alike.visible place)
        under
      · rwa [irsb_flags, flags_same]
      · rwa [irsb_level, level_same]
      · rwa [own union.dataAt own_data (by simp [dataAt, modeAt])]
      · rwa [own union.stackAt own_stack (by simp [stackAt, modeAt])]
      · intro stream absent not_stream not_map
        rw [alike.params stream not_stream not_map, outside stream absent not_stream not_map]

end Levels

/-! ## Going down -/

theorem openSource_own {source : Source Value} (behaves : union.Behaves source) {place : Nat}
    (own : union.IsOwn place) (request : Request Value) :
    (source.openSource request).impure place = request.impure place :=
  behaves.openSource.own request place own

theorem zeroImpure_own {place : Nat} (own : union.IsOwn place) (request : Request Value) :
    (union.zeroImpure request).impure place = request.impure place := by
  simp [zeroImpure, own]

/-- The request that the inner stream is opened with. -/
theorem enterLevel_fresh (wellFormed : union.WellFormed) (request : Request Value) :
    ∃ before : Request Value,
      union.enterLevel request = (union.m_inner.openSource before).setImpure union.levelAt
        (.number (union.irsb_level (union.m_inner.openSource before) + 1)) ∧
      union.Fresh (request.record union.m_stream) before ∧
      before.impure union.flagsAt = request.impure union.flagsAt ∧
      before.impure union.levelAt = request.impure union.levelAt ∧
      before.impure union.dataAt = .data (request.record union.m_stream) ∧
      before.impure union.stackAt =
        .saved (union.saveImpure request) (union.innerParams request) ∧
      ∀ stream, stream ∉ union.m_innerStreams →
        before.req_rpb stream = request.req_rpb stream := by
  have outer : ∀ stream, stream ∉ union.m_innerStreams →
      (saveParams union.m_innerStreams request).2.req_rpb stream = request.req_rpb stream :=
    fun stream absent => saveParams_other absent request
  have current := record_congr (outer union.m_stream wellFormed.stream_inner)
  refine ⟨_, rfl, ⟨current, ?_, ?_⟩, ?_, ?_, ?_, ?_, outer⟩
  · intro place saved foreign
    simp [zeroImpure, saved, foreign]
  · intro stream member
    exact saveParams_record member request
  · rw [zeroImpure_own own_flags, setImpure_other _ _ (by simp [flagsAt, dataAt]),
      setImpure_other _ _ (by simp [flagsAt, stackAt]), saveParams_impure]
  · rw [zeroImpure_own own_level, setImpure_other _ _ (by simp [levelAt, dataAt]),
      setImpure_other _ _ (by simp [levelAt, stackAt]), saveParams_impure]
  · rw [zeroImpure_own own_data, setImpure_same]
    exact congrArg Cell.data current
  · rw [zeroImpure_own own_stack, setImpure_other _ _ (by simp [stackAt, dataAt]),
      setImpure_same, saveParams_fst wellFormed.nodup]
    rfl

/-- A level is entered with the children of the current record. -/
theorem enterLevel_levels (wellFormed : union.WellFormed)
    {contract : union.Contract roots children} (inside : Levels contract request levels opened)
    (kids_eq : kids.roots = children (request.record union.m_stream)) :
    Levels contract (union.enterLevel request) (kids :: levels)
        (union.snapshot request :: opened) ∧
      (union.enterLevel request).impure union.dataAt = .data (request.record union.m_stream) ∧
      ∀ stream, stream ∉ union.m_innerStreams →
        (union.enterLevel request).req_rpb stream = request.req_rpb stream := by
  obtain ⟨before, entered, fresh, flags, level, data, stack, outer⟩ :=
    enterLevel_fresh wellFormed request
  have behaves := contract.innerBehaves
  have rpb_eq : ∀ stream, stream ∉ union.m_innerStreams →
      (union.enterLevel request).req_rpb stream = request.req_rpb stream := by
    intro stream absent
    rw [entered, setImpure_rpb, ← outer stream absent]
    exact behaves.openSource.params before stream fun used => absent (wellFormed.used _ used)
  have own : ∀ place, union.IsOwn place → place ≠ union.levelAt →
      (union.enterLevel request).impure place = before.impure place := by
    intro place own different
    rw [entered, setImpure_other _ _ different, openSource_own behaves own]
  have data_eq := own union.dataAt own_data (by simp [dataAt, levelAt])
  refine ⟨?_, data_eq.trans data, rpb_eq⟩
  refine .inner (request.record union.m_stream) ?_ ?_ (data_eq.trans data) ?_ ?_ ?_ inside
  · rw [irsb_flags, own union.flagsAt own_flags (by simp [flagsAt, levelAt]), flags]
    exact inside.flags_eq
  · rw [irsb_level, entered, setImpure_same, Cell.toNat, irsb_level,
      openSource_own behaves own_level, level]
    exact congrArg (· + 1) inside.level_eq
  · rw [own union.stackAt own_stack (by simp [stackAt, levelAt]), stack]
  · exact fun stream absent _ _ => rpb_eq stream absent
  · rw [kids_eq]
    refine (contract.innerScan _).visible ⟨fun place _ foreign => ?_, fun _ _ _ => ?_⟩
      ((contract.innerScan _).opens fresh)
    · rw [entered, setImpure_other]
      exact fun equal => foreign (equal ▸ own_level)
    · rw [entered, setImpure_rpb]

/-! ## Going back -/

/-- The stream of the innermost level. -/
def memberOf : List (Forest (List Value)) → Member
  | [_] => .root
  | _ => .inner

/-- The current record is the one that the innermost level depends on. -/
def Here (union : RecursiveStream Value) (levels : List (Forest (List Value)))
    (request : Request Value) : Prop :=
  memberOf levels = .inner →
    ∃ parent, request.impure union.dataAt = .data parent ∧ union.Current parent request

theorem resetRecord_rpb (union : RecursiveStream Value) (request : Request Value) {stream : Nat}
    (different : stream ≠ union.m_stream) :
    (union.resetRecord request).req_rpb stream = request.req_rpb stream := by
  rw [resetRecord]
  split
  · exact setRecord_other _ _ different
  · rfl

theorem resetRecord_impure (union : RecursiveStream Value) (request : Request Value) :
    (union.resetRecord request).impure = request.impure := by
  rw [resetRecord]
  split <;> rfl

theorem resetRecord_current (data : request.impure union.dataAt = .data parent) :
    union.Current parent (union.resetRecord request) := by
  rw [resetRecord, data]
  exact record_setRecord ..

theorem alike_resetRecord (union : RecursiveStream Value) (request : Request Value) :
    Alike union request (union.resetRecord request) :=
  ⟨fun _ _ _ => by rw [resetRecord_impure],
    fun _ not_stream _ => resetRecord_rpb union request not_stream⟩

/-- The levels under one that ends are those of when it was entered. -/
theorem cleanupLevel_levels (wellFormed : union.WellFormed)
    {contract : union.Contract roots children} {past : Request Value}
    (outside : ∀ stream, stream ∉ union.m_innerStreams → stream ≠ union.m_stream →
      stream ≠ union.m_mapStream → request.req_rpb stream = past.req_rpb stream)
    (restored : union.Restored past request after)
    (under : Levels contract past below opened) : Levels contract after below opened := by
  refine under.alike wellFormed ⟨fun place saved _ => restored.impure place saved, ?_⟩
  intro stream not_stream not_map
  by_cases member : stream ∈ union.m_innerStreams
  · exact restored.inner stream member
  · rw [restored.outer stream member, outside stream member not_stream not_map]

/-- What a stream finds is mapped to the row, whatever the union does to its own state. -/
def Maps (union : RecursiveStream Value) (member : Member) (row : List Value)
    (request : Request Value) : Prop :=
  ∀ other, union.Visible request other →
    other.record union.m_stream = request.record union.m_stream → union.HasMapRecord other →
      (union.assign (union.mapOf member).sourceList (union.mapOf member).targetList other).record
        union.m_mapStream = row

/-- A stream that reads leaves the levels as they were, but for its own rows. -/
theorem getRecord_own {source : Source Value} (behaves : union.Behaves source) {place : Nat}
    (own : union.IsOwn place) (request : Request Value) :
    (source.getRecord request).2.impure place = request.impure place :=
  behaves.getRecord.own request place own

/-- A level that has ended is left, and the one under it is read. -/
theorem fetch_leave (wellFormed : union.WellFormed) {contract : union.Contract roots children}
    (inside : Levels contract request (.nil :: below) opened)
    (nested : below ≠ []) (here : Here union (.nil :: below) request) :
    ∃ seen opened' after, opened = seen :: opened' ∧ Levels contract after below opened' ∧
      Here union below after ∧
      after.req_rpb union.m_mapStream = request.req_rpb union.m_mapStream ∧
      ∀ fuel, union.fetch (fuel + 1) .inner request =
        (union.fetch fuel (memberOf below) after).map fun result =>
          (result.1, .leave seen :: result.2.1, result.2.2) := by
  cases inside with
  | root => exact absurd rfl nested
  | @inner _ past _ _ opened parent flags level data stack outside place under =>
      have behaves := contract.innerBehaves
      obtain ⟨parent', data', current⟩ := here (by
        cases below with
        | nil => exact absurd rfl nested
        | cons => rfl)
      obtain rfl : parent = parent' := by
        rw [data] at data'
        exact Cell.data.inj data'
      have ended := (contract.innerScan parent).last place current
      let tried := (union.m_inner.getRecord request).2
      let closed := union.m_inner.close tried
      have own : ∀ place, union.IsOwn place → closed.impure place = request.impure place :=
        fun place own =>
          (behaves.close.own tried place own).trans (getRecord_own behaves own request)
      have params : ∀ stream, stream ∉ union.m_innerStreams →
          closed.req_rpb stream = request.req_rpb stream := by
        intro stream absent
        have unused : stream ∉ union.m_inner.usedStreams :=
          fun used => absent (wellFormed.used _ used)
        exact (behaves.close.params tried stream unused).trans
          (behaves.getRecord.params request stream unused)
      have restored : union.Restored past closed (union.cleanupLevel closed) :=
        cleanupLevel_restores ((own _ own_stack).trans stack)
      have levels := cleanupLevel_levels wellFormed (fun stream absent not_stream not_map =>
        (params stream absent).trans (outside stream absent not_stream not_map)) restored under
      have tried_level : union.irsb_level tried = below.length + 1 := by
        rw [irsb_level, getRecord_own behaves own_level]
        exact level
      have positive : below.length ≠ 0 := fun zero => nested (List.length_eq_zero_iff.mp zero)
      have step : ∀ fuel, union.fetch (fuel + 1) .inner request =
          (if 1 < union.irsb_level (union.cleanupLevel closed) then
            union.fetch fuel .inner (union.resetRecord (union.cleanupLevel closed))
          else union.fetch fuel .root (union.cleanupLevel closed)).map fun result =>
            (result.1, .leave (union.snapshot past) :: result.2.1, result.2.2) := by
        intro fuel
        rw [fetch, source, show union.m_inner.getRecord request = (false, tried) from
          Prod.ext ended rfl, ← restored.snapshot]
        dsimp only
        rw [if_neg (by omega)]
      have map_eq : (union.cleanupLevel closed).req_rpb union.m_mapStream =
          request.req_rpb union.m_mapStream :=
        (restored.outer _ wellFormed.map_inner).trans (params _ wellFormed.map_inner)
      have level_eq := levels.level_eq
      by_cases bottom : below.length = 1
      · refine ⟨_, _, union.cleanupLevel closed, rfl, levels, ?_, map_eq, fun fuel => ?_⟩
        · obtain ⟨forest, rfl⟩ := List.length_eq_one_iff.mp bottom
          exact fun inner => nomatch inner
        · obtain ⟨forest, rfl⟩ := List.length_eq_one_iff.mp bottom
          rw [step, if_neg (by omega)]
          rfl
      · refine ⟨_, _, union.resetRecord (union.cleanupLevel closed), rfl,
          levels.alike wellFormed (alike_resetRecord union _), fun _ => ?_, ?_, fun fuel => ?_⟩
        · cases levels with
          | root => exact absurd rfl bottom
          | inner parent _ _ data =>
              exact ⟨parent, by rw [resetRecord_impure, data], resetRecord_current data⟩
        · rw [resetRecord_rpb union _ wellFormed.apart.symm, map_eq]
        · rw [step, if_pos (by omega)]
          match below, positive, bottom with
          | _ :: _ :: _, _, _ => rfl

/-- How the loop ends with a record. -/
structure Fetched (contract : union.Contract roots children) (opened : List (Snapshot Value))
    (row : List Value) (below : List (Forest (List Value))) (request : Request Value)
    (member : Member) (log : Log Value) (after : Request Value) (opened' : List (Snapshot Value)) :
    Prop where
  nested : Visit.Nested opened log opened'
  levels : Levels contract after below opened'
  maps : Maps union member row after
  mapRecord : after.req_rpb union.m_mapStream = request.req_rpb union.m_mapStream

/-- The innermost stream reads its next row. -/
theorem fetch_row (wellFormed : union.WellFormed) {contract : union.Contract roots children}
    {rest : Forest (List Value)}
    (inside : Levels contract request (.cons row kids rest :: below) opened)
    (here : Here union (.cons row kids rest :: below) request) (fuel : Nat) :
    ∃ member after, union.fetch (fuel + 1) (memberOf (.cons row kids rest :: below)) request =
        .ok (some member, [], after) ∧
      Fetched contract opened row (rest :: below) request member [] after opened := by
  cases inside with
  | root flags level place =>
      obtain ⟨found, left, mapped⟩ := contract.rootScan.next place trivial
      have behaves := contract.rootBehaves
      refine ⟨.root, (union.m_root.getRecord request).2, ?_, ⟨.done _, .root ?_ ?_ left, ?_, ?_⟩⟩
      · rw [memberOf, fetch, source, show union.m_root.getRecord request =
          (true, (union.m_root.getRecord request).2) from Prod.ext found rfl]
      · rw [irsb_flags, getRecord_own behaves own_flags]
        exact flags
      · rw [irsb_level, getRecord_own behaves own_level]
        exact level
      · exact fun other visible _ length => mapped other visible trivial length
      · exact behaves.getRecord.params request _ wellFormed.map_root
  | @inner _ past _ _ opened parent flags level data stack outside place under =>
      have member_eq : memberOf (.cons row kids rest :: below) = .inner := by
        cases under <;> rfl
      obtain ⟨parent', data', current⟩ := here member_eq
      obtain rfl : parent = parent' := by
        rw [data] at data'
        exact Cell.data.inj data'
      obtain ⟨found, left, mapped⟩ := (contract.innerScan parent).next place current
      have behaves := contract.innerBehaves
      have params : ∀ stream, stream ∉ union.m_innerStreams →
          (union.m_inner.getRecord request).2.req_rpb stream = request.req_rpb stream :=
        fun stream absent => behaves.getRecord.params request stream
          fun used => absent (wellFormed.used _ used)
      have same := record_congr (params _ wellFormed.stream_inner)
      refine ⟨.inner, (union.m_inner.getRecord request).2, ?_,
        ⟨.done _, .inner parent ?_ ?_ ?_ ?_ ?_ left under, ?_, params _ wellFormed.map_inner⟩⟩
      · rw [member_eq, fetch, source, show union.m_inner.getRecord request =
          (true, (union.m_inner.getRecord request).2) from Prod.ext found rfl]
      · rw [irsb_flags, getRecord_own behaves own_flags]
        exact flags
      · rw [irsb_level, getRecord_own behaves own_level]
        exact level
      · rw [getRecord_own behaves own_data, data]
      · rw [getRecord_own behaves own_stack, stack]
      · intro stream absent not_stream not_map
        rw [params stream absent, outside stream absent not_stream not_map]
      · intro other visible record_eq length
        exact mapped other visible ((record_eq.trans same).trans current) length

/-- The loop finds the next row of the walk. -/
theorem fetch_next (wellFormed : union.WellFormed) {contract : union.Contract roots children}
    (inside : Levels contract request levels opened) (here : Here union levels request)
    (found : Forest.next levels = some (row, kids, below)) {fuel : Nat}
    (enough : levels.length ≤ fuel) :
    ∃ member log after opened',
      union.fetch fuel (memberOf levels) request = .ok (some member, log, after) ∧
      Fetched contract opened row below request member log after opened' := by
  induction levels generalizing request opened fuel with
  | nil => cases found
  | cons forest levels ih =>
      obtain ⟨fuel, rfl⟩ := Nat.exists_eq_succ_of_ne_zero (n := fuel) (by
        rw [List.length_cons] at enough
        omega)
      cases forest with
      | cons root kids' rest =>
          cases found
          obtain ⟨member, after, fetched, ends⟩ := fetch_row wellFormed inside here fuel
          exact ⟨member, [], after, opened, fetched, ends⟩
      | nil =>
          have nested : levels ≠ [] := by
            rintro rfl
            cases found
          obtain ⟨seen, opened₁, between, rfl, levels_inside, levels_here, map_eq, step⟩ :=
            fetch_leave wellFormed inside nested here
          obtain ⟨member, log, after, opened', fetched, ends⟩ :=
            ih levels_inside levels_here found (Nat.le_of_succ_le_succ enough)
          have member_eq : memberOf (.nil :: levels) = .inner := by
            cases levels with
            | nil => exact absurd rfl nested
            | cons => rfl
          refine ⟨member, .leave seen :: log, after, opened', ?_, ?_⟩
          · rw [member_eq, step, fetched]
            rfl
          · exact ⟨.leave seen ends.nested, ends.levels, ends.maps, ends.mapRecord.trans map_eq⟩

/-- The loop ends without a record if no level has one left; all of them are left then. -/
theorem fetch_end (wellFormed : union.WellFormed) {contract : union.Contract roots children}
    (inside : Levels contract request levels opened) (here : Here union levels request)
    (ended : Forest.next levels = none) {fuel : Nat} (enough : levels.length ≤ fuel) :
    ∃ log after, union.fetch fuel (memberOf levels) request = .ok (none, log, after) ∧
      Visit.Nested opened log [] := by
  induction levels generalizing request opened fuel with
  | nil => cases inside
  | cons forest levels ih =>
      obtain ⟨fuel, rfl⟩ := Nat.exists_eq_succ_of_ne_zero (n := fuel) (by
        rw [List.length_cons] at enough
        omega)
      cases forest with
      | cons root kids rest => cases ended
      | nil =>
          by_cases nested : levels = []
          · subst nested
            cases inside with
            | inner _ _ _ _ _ _ _ under => cases under
            | root flags level place =>
                have last := contract.rootScan.last place trivial
                refine ⟨[], (union.m_root.getRecord request).2.setValid union.m_stream false, ?_,
                  .done _⟩
                rw [memberOf, fetch, source, show union.m_root.getRecord request =
                  (false, (union.m_root.getRecord request).2) from Prod.ext last rfl]
                dsimp only
                rw [if_pos]
                rw [irsb_level, getRecord_own contract.rootBehaves own_level]
                exact level
          · obtain ⟨seen, opened₁, between, rfl, levels_inside, levels_here, -, step⟩ :=
              fetch_leave wellFormed inside nested here
            obtain ⟨log, after, fetched, left⟩ :=
              ih levels_inside levels_here ended (Nat.le_of_succ_le_succ enough)
            have member_eq : memberOf (.nil :: levels) = .inner := by
              cases levels with
              | nil => exact absurd rfl nested
              | cons => rfl
            refine ⟨.leave seen :: log, after, ?_, .leave seen left⟩
            rw [member_eq, step, fetched]
            rfl

end RecursiveStream
end Firebird
