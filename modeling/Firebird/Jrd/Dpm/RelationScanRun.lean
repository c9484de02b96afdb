import Mathlib
import Firebird.Jrd.Dpm.RelationScanStep

/-!
# Repeated calls of the scan

A stream calls `DPM_next` until it returns false.  Others may change what the relation remembers
between the calls.
-/

namespace Firebird
namespace RelationScan
namespace Relation

/-- Calls with what the relation remembers at each of them, until one returns false.  Returns the
records, and whether the last call returned one. -/
def repeated (relation : Relation) : List (Nat → Nat) → Rpb → Except Failure (List Rpb × Bool)
  | [], _ => .ok ([], true)
  | dpMap :: dpMaps, rpb =>
      match relation.next dpMap false rpb with
      | .error failure => .error failure
      | .ok (false, _) => .ok ([], false)
      | .ok (true, rpb) =>
          (relation.repeated dpMaps rpb).map fun (rest, more) => (rpb :: rest, more)

/-- The record parameter block carries the primary version of its number. -/
def Holds (relation : Relation) (rpb : Rpb) : Prop :=
  ∃ number page_number entry, rpb.rpb_number = (number : Nat) ∧
    relation.version number = some (page_number, entry) ∧
    rpb.Carries page_number (number % relation.dbb_max_records) entry

/-- The calls return the primary versions from a number on, each once and in increasing order, and
then false. -/
def Enumerates (relation : Relation) (start calls : Nat) (result : Except Failure (List Rpb × Bool)) :
    Prop :=
  ∃ visited more, result = .ok (visited, more) ∧
    visited.map Rpb.rpb_number = ((relation.primaries start).take calls).map Nat.cast ∧
    (∀ rpb ∈ visited, relation.Holds rpb) ∧
    more = decide (calls ≤ (relation.primaries start).length)

/-- What the relation remembers is fresh at every call. -/
def FreshRun (relation : Relation) : List (Nat → Nat) → Nat → Prop
  | [], _ => True
  | dpMap :: dpMaps, start => relation.Fresh dpMap start ∧
      ∀ number ∈ (relation.primaries start).head?, relation.FreshRun dpMaps (number + 1)

end Relation

namespace Layout

variable {layout : Layout} {rpb : Rpb} {start number : Nat}

theorem version_eq_none_of_isSome {other : Nat}
    (absent : (layout.version other).isSome = false) : layout.version other = none :=
  Option.not_isSome_iff_eq_none.mp (Bool.eq_false_iff.mp absent)

theorem lt_bound_of_isSome (there : (layout.version number).isSome) : number < layout.bound := by
  by_contra beyond
  rw [Relation.version_of_bound_le layout.slots_pos layout.records_pos (Nat.le_of_not_lt beyond)]
    at there
  exact Bool.false_ne_true there

/-- The record after a primary version is on a sequence of the pointer pages. -/
theorem succ_inside (there : (layout.version number).isSome) :
    (number + 1) / layout.dbb_max_records < layout.pointers.length * layout.dbb_dp_per_pp := by
  have inside : number / layout.dbb_max_records < layout.pointers.length * layout.dbb_dp_per_pp :=
    Nat.div_lt_of_lt_mul (Nat.mul_comm _ layout.dbb_max_records ▸ lt_bound_of_isSome there)
  obtain ⟨⟨page_number, entry⟩, version⟩ := Option.isSome_iff_exists.mp there
  obtain ⟨⟨listed_number, page⟩, listed, found⟩ := Option.bind_eq_some_iff.mp version
  obtain ⟨line, at_line, _⟩ := Option.map_eq_some_iff.mp found
  have few := layout.lines_lt (Relation.pages_of_listed listed) (layout.related listed)
  have line_lt : number % layout.dbb_max_records < page.count :=
    (List.getElem?_eq_some_iff.mp (Option.eq_some_of_filter_eq_some at_line)).1
  have same : (number + 1) / layout.dbb_max_records = number / layout.dbb_max_records := by
    have split := Nat.div_add_mod' number layout.dbb_max_records
    refine Nat.div_eq_of_lt_le (by omega) ?_
    rw [Nat.succ_mul]
    omega
  rw [same]
  exact inside

theorem located_ended_iff :
    layout.Located start (false, rpb) ↔ layout.primaries start = [] := by
  constructor
  · rintro (_ | none)
    refine Enumeration.listFrom_eq_nil fun other after _ => ?_
    rw [none other after]
    rfl
  · intro none
    refine .ended fun other after => ?_
    by_contra there
    have present : (layout.version other).isSome := Option.isSome_iff_ne_none.mpr there
    have member : other ∈ layout.primaries start :=
      Enumeration.mem_listFrom.mpr ⟨after, lt_bound_of_isSome present, present⟩
    rw [none] at member
    exact List.not_mem_nil member

theorem located_found_iff :
    layout.Located start (true, rpb) ↔ layout.Holds rpb ∧ ∃ number : Nat, rpb.rpb_number = number ∧
      layout.primaries start = number :: layout.primaries (number + 1) := by
  constructor
  · rintro (⟨after, version, numbered, carries, first⟩ | _)
    have present := Option.isSome_of_eq_some version
    refine ⟨⟨_, _, _, numbered, version, carries⟩, _, numbered,
      Enumeration.listFrom_eq_cons after (lt_bound_of_isSome present) present ?_⟩
    intro other from_start before
    rw [first other from_start before]
    rfl
  · rintro ⟨⟨held, page_number, entry, held_eq, version, carries⟩, number, numbered, list_eq⟩
    obtain rfl : held = number := Int.ofNat.inj (held_eq.symm.trans numbered)
    obtain ⟨after, _, _, first⟩ := Enumeration.first_of_listFrom_cons list_eq
    exact .found after version numbered carries fun other from_start before =>
      version_eq_none_of_isSome (first other from_start before)

/-- A call that returns false ends the enumeration. -/
theorem enumerates_ended {calls : Nat} :
    layout.Enumerates start (calls + 1) (.ok ([], false)) ↔ layout.primaries start = [] := by
  constructor
  · rintro ⟨visited, more, result_eq, numbers, _, more_eq⟩
    cases result_eq
    cases list_eq : layout.primaries start with
    | nil => rfl
    | cons number rest =>
        rw [list_eq] at numbers
        exact nomatch numbers
  · intro none
    refine ⟨[], false, rfl, ?_, List.forall_mem_nil _, ?_⟩
    all_goals
      rw [none]
      rfl

/-- A call that returns a record goes on with the enumeration behind it. -/
theorem enumerates_found {calls : Nat} (result : Except Failure (List Rpb × Bool)) :
    layout.Enumerates start (calls + 1) (result.map fun (rest, more) => (rpb :: rest, more)) ↔
      layout.Located start (true, rpb) ∧
        ∀ number ∈ (layout.primaries start).head?, layout.Enumerates (number + 1) calls result := by
  rw [located_found_iff]
  constructor
  · rintro ⟨visited, more, result_eq, numbers, holds, more_eq⟩
    cases result with
    | error failure => exact nomatch result_eq
    | ok pair =>
        obtain ⟨rest, more⟩ := pair
        cases result_eq
        cases list_eq : layout.primaries start with
        | nil =>
            rw [list_eq] at numbers
            exact nomatch numbers
        | cons number later =>
            obtain ⟨after, inside, here, first⟩ := Enumeration.first_of_listFrom_cons list_eq
            have cons_eq := Enumeration.listFrom_eq_cons after inside here first
            have next_eq : layout.primaries (number + 1) = later :=
              (List.cons.inj (cons_eq.symm.trans list_eq)).2
            rw [list_eq, List.take_succ_cons, List.map_cons, List.map_cons] at numbers
            obtain ⟨number_eq, rest_eq⟩ := List.cons.inj numbers
            refine ⟨⟨holds rpb List.mem_cons_self, number, number_eq, by rw [next_eq]⟩, ?_⟩
            intro number' head_eq
            cases head_eq
            refine ⟨rest, more, rfl, by rw [next_eq, rest_eq],
              fun other member => holds other (List.mem_cons_of_mem _ member), ?_⟩
            rw [next_eq, more_eq, list_eq, List.length_cons, decide_eq_decide,
              Nat.add_le_add_iff_right]
  · rintro ⟨⟨holds, number, number_eq, list_eq⟩, enumerates⟩
    obtain ⟨rest, more, rfl, numbers, all, more_eq⟩ := enumerates number (by rw [list_eq]; rfl)
    refine ⟨_, _, rfl, ?_, ?_, ?_⟩
    · rw [list_eq, List.take_succ_cons, List.map_cons, List.map_cons, numbers, number_eq]
    · exact List.forall_mem_cons.mpr ⟨holds, all⟩
    · rw [more_eq, list_eq, List.length_cons, decide_eq_decide, Nat.add_le_add_iff_right]

theorem enumerates_from_iff (dpMaps : List (Nat → Nat)) (rpb : Rpb) (start : Nat)
    (inside : start / layout.dbb_max_records < layout.pointers.length * layout.dbb_dp_per_pp)
    (at_start : rpb.rpb_number + 1 = start) :
    layout.Enumerates start dpMaps.length (layout.repeated dpMaps rpb) ↔
      layout.FreshRun dpMaps start := by
  induction dpMaps generalizing rpb start with
  | nil =>
      refine iff_of_true ⟨[], true, rfl, rfl, List.forall_mem_nil _, ?_⟩ trivial
      exact (decide_eq_true (Nat.zero_le _)).symm
  | cons dpMap dpMaps ih =>
      obtain ⟨⟨found, filled⟩, next_eq, located_iff⟩ := next_iff inside dpMap at_start
      rw [Relation.repeated, next_eq, Relation.FreshRun, ← located_iff, List.length_cons]
      cases found with
      | false =>
          rw [enumerates_ended, located_ended_iff]
          refine ⟨fun none => ⟨none, fun number member => ?_⟩, And.left⟩
          rw [none] at member
          exact nomatch member
      | true =>
          rw [enumerates_found]
          refine and_congr_right fun located => forall₂_congr fun number head => ?_
          obtain ⟨_, number', number_eq, list_eq⟩ := located_found_iff.mp located
          rw [list_eq] at head
          obtain rfl : number' = number := Option.some.inj head
          have here := (Enumeration.first_of_listFrom_cons list_eq).2.2.1
          refine ih filled _ (succ_inside here) ?_
          rw [number_eq]
          rfl

theorem zero_inside (layout : Layout) :
    0 / layout.dbb_max_records < layout.pointers.length * layout.dbb_dp_per_pp := by
  rw [Nat.zero_div]
  exact Nat.mul_pos layout.pointers_pos layout.slots_pos

/-- Where no other instance of the relation has pages, whatever the relation remembers is fresh. -/
theorem freshRun_of_alone (layout : Layout)
    (alone : ∀ number page sequence, layout.pages number = some page →
      layout.pageOk sequence page → (layout.listed sequence).map Prod.fst = some number)
    (dpMaps : List (Nat → Nat)) (start : Nat) : layout.FreshRun dpMaps start := by
  induction dpMaps generalizing start with
  | nil => trivial
  | cons dpMap dpMaps ih =>
      exact ⟨fun page _ page_eq ok => .inl (alone _ page _ page_eq ok), fun number _ => ih _⟩

/-! ## A page that another instance has taken -/

/-- A page of a temporary table with its first record. -/
def taken : DataPage where
  pag_flags := 0
  dpg_sequence := 0
  dpg_relation := 128
  dpg_rpt := [{ dpg_offset := 4072, dpg_length := 22, header := ⟨0, 0, 0, 7, 1, 0, 0⟩ }]

/-- The pointer page of an instance that has released its only data page. -/
def leftEmpty : PointerPage where
  pag_flags := ppgEof
  ppg_sequence := 0
  ppg_relation := 128
  slots := []

/-- That instance, when its page 4 belongs to another instance. -/
def emptiedRelation : Relation where
  rel_id := 128
  dbb_max_records := 239
  dbb_dp_per_pp := 808
  pointers := [leftEmpty]
  pages number := if number = 4 then some taken else none

theorem pointers_emptied {sequence : Nat} {ppage : PointerPage}
    (there : emptiedRelation.pointers[sequence]? = some ppage) : sequence = 0 ∧ ppage = leftEmpty := by
  obtain ⟨inside, rfl⟩ := List.getElem?_eq_some_iff.mp there
  obtain rfl : sequence = 0 := Nat.lt_one_iff.mp inside
  exact ⟨rfl, rfl⟩

theorem slot_emptied (sequence : Nat) : emptiedRelation.slot sequence = none := by
  rw [Relation.slot]
  cases there : emptiedRelation.pointers[sequence / emptiedRelation.dbb_dp_per_pp]? with
  | none => rfl
  | some ppage =>
      rw [(pointers_emptied there).2]
      rfl

theorem listed_emptied (sequence : Nat) : emptiedRelation.listed sequence = none := by
  rw [Relation.listed, slot_emptied]
  rfl

theorem pages_emptied {number : Nat} {page : DataPage}
    (there : emptiedRelation.pages number = some page) : page = taken := by
  by_cases own : number = 4
  · exact Option.some.inj (there.symm.trans (if_pos own))
  · exact nomatch there.symm.trans (if_neg own)

/-- The instance keeps the invariants of a relation. -/
def emptied : Layout where
  toRelation := emptiedRelation
  records_pos := by decide
  records_small := by decide
  slots_pos := by decide
  slots_small := by decide
  sequences_small := by decide
  pointers_pos := by decide
  pointer there := by
    obtain ⟨rfl, rfl⟩ := pointers_emptied there
    exact ⟨rfl, rfl⟩
  slots_le there := by
    obtain ⟨rfl, rfl⟩ := pointers_emptied there
    exact Nat.zero_le _
  eof there := by
    obtain ⟨rfl, rfl⟩ := pointers_emptied there
    decide
  data there := nomatch (slot_emptied _).symm.trans there
  related there := nomatch (listed_emptied _).symm.trans there
  secondary there := nomatch (slot_emptied _).symm.trans there
  empty there := nomatch (slot_emptied _).symm.trans there
  lines_lt there _ := by
    rw [pages_emptied there]
    decide
  system _ _ is_pages := nomatch is_pages

/-- A stream before its first record. -/
def atBegin : Rpb where
  rpb_number := -1
  rpb_page := 0
  rpb_line := 0
  rpb_flags := 0
  rpb_b_page := 0
  rpb_b_line := 0
  rpb_transaction_nr := 0
  rpb_format_number := 0
  rpb_f_page := 0
  rpb_f_line := 0
  rpb_address := 0
  rpb_length := 0

end Layout
end RelationScan
end Firebird
