import Firebird.Jrd.Dpm.RelationLayout

/-!
# One call of the scan

What the loops over the lines, the slots and the pointer pages find, and what a whole call finds.
-/

namespace Firebird
namespace RelationScan

theorem Line.Primary.not_fragment {entry : Line} (primary : entry.Primary) :
    entry.header.rhdf_flags &&& rhdFragment = 0 := by
  have masked : entry.header.rhdf_flags &&& rhdFragment =
      entry.header.rhdf_flags &&& (rhdBlob ||| rhdChain ||| rhdFragment) &&& rhdFragment := by
    rw [UInt16.and_assoc]
    rfl
  rw [masked, primary.2, UInt16.zero_and]

namespace Relation

variable {relation : Relation} {rpb : Rpb} {slot pp_sequence line number : Nat} {page : DataPage}
  {entry : Line}

/-! ## Lines -/

/-- The header of a line without a record is not read. -/
theorem getHeader_unused (there : page.dpg_rpt[line]? = some entry) (unused : entry.dpg_offset = 0) :
    relation.getHeader number page line rpb = .ok (false, rpb) := by
  simp only [getHeader, there, unused, if_true]

/-- The header of a line with a record gives its flags, and the other fields of a record that is no
fragment. -/
theorem getHeader_used (number : Nat) (rpb : Rpb) (there : page.dpg_rpt[line]? = some entry) (used : entry.dpg_offset ≠ 0)
    (system : relation.rel_id = 0 → entry.header.rhdf_transaction = 0) :
    ∃ filled : Rpb, relation.getHeader number page line rpb = .ok (true, filled) ∧
      filled.rpb_flags = entry.header.rhdf_flags ∧
      (entry.header.rhdf_flags &&& rhdFragment = 0 → filled.Carries number line entry) := by
  have allowed : ¬(entry.header.rhdf_flags &&& rhdFragment = 0 ∧ relation.rel_id = 0 ∧
      entry.header.rhdf_transaction ≠ 0) := fun refused => refused.2.2 (system refused.2.1)
  simp only [getHeader, there, if_neg used, if_neg allowed]
  by_cases fragment : entry.header.rhdf_flags &&& rhdFragment = 0
  · by_cases incomplete : entry.header.rhdf_flags &&& rhdIncomplete = 0
    · simp only [fragment, incomplete, ne_eq, not_true, if_true, if_false]
      exact ⟨_, rfl, rfl, fun _ => ⟨rfl, rfl, rfl, ⟨rfl, rfl⟩, rfl, rfl,
        fun split => absurd incomplete split, rfl, rfl⟩⟩
    · simp only [fragment, incomplete, ne_eq, not_false_iff, if_true]
      exact ⟨_, rfl, rfl, fun _ => ⟨rfl, rfl, rfl, ⟨rfl, rfl⟩, rfl, rfl, fun _ => ⟨rfl, rfl⟩,
        rfl, rfl⟩⟩
  · simp only [fragment, if_false]
    refine ⟨_, rfl, ?_, fun whole => whole.elim⟩
    split <;> rfl

/-- What the loop over the lines of a page comes to. -/
inductive LinesRun (relation : Relation) (number : Nat) (page : DataPage) (slot pp_sequence : Nat)
    (line : Nat) : Bool × Nat × Rpb → Prop where
  | found {stop : Nat} {rpb : Rpb} {entry : Line} (after : line ≤ stop)
      (there : page.dpg_rpt[stop]? = some entry) (primary : entry.Primary)
      (carries : rpb.Carries number stop entry)
      (numbered : rpb.rpb_number = relation.compose stop slot pp_sequence)
      (first : ∀ other skipped, line ≤ other → other < stop → page.dpg_rpt[other]? = some skipped →
        ¬skipped.Primary) :
      LinesRun relation number page slot pp_sequence line (true, stop, rpb)
  | ended {rpb : Rpb}
      (none : ∀ other skipped, line ≤ other → page.dpg_rpt[other]? = some skipped →
        ¬skipped.Primary) :
      LinesRun relation number page slot pp_sequence line (false, max line page.count, rpb)

/-- A line without a primary version is passed by. -/
theorem LinesRun.pass {result : Bool × Nat × Rpb} (there : page.dpg_rpt[line]? = some entry)
    (passed : ¬entry.Primary)
    (run : LinesRun relation number page slot pp_sequence (line + 1) result) :
    LinesRun relation number page slot pp_sequence line result := by
  have inside : line < page.count := (List.getElem?_eq_some_iff.mp there).1
  cases run with
  | found after there' primary carries numbered first =>
      refine .found (Nat.le_of_succ_le after) there' primary carries numbered ?_
      intro other skipped from_line before there''
      rcases Nat.eq_or_lt_of_le from_line with rfl | later
      · rw [there] at there''
        cases there''
        exact passed
      · exact first other skipped later before there''
  | ended none =>
      rw [Nat.max_eq_right inside, ← Nat.max_eq_right (Nat.le_of_lt inside)]
      refine .ended fun other skipped from_line there' => ?_
      rcases Nat.eq_or_lt_of_le from_line with rfl | later
      · rw [there] at there'
        cases there'
        exact passed
      · exact none other skipped later there'

theorem LinesRun.finish (done : page.count ≤ line) :
    LinesRun relation number page slot pp_sequence line (false, line, rpb) := by
  have none : LinesRun relation number page slot pp_sequence line
      (false, max line page.count, rpb) := by
    refine .ended fun other skipped from_line there => ?_
    have inside : other < page.count := (List.getElem?_eq_some_iff.mp there).1
    omega
  rwa [Nat.max_eq_left done] at none

theorem lineLoop_spec (system : relation.rel_id = 0 →
      ∀ entry ∈ page.dpg_rpt, entry.header.rhdf_transaction = 0)
    (left line : Nat) (all : page.count = line + left) (rpb : Rpb) :
    ∃ result, relation.lineLoop number page slot pp_sequence left line rpb = .ok result ∧
      LinesRun relation number page slot pp_sequence line result := by
  induction left generalizing line rpb with
  | zero =>
      exact ⟨_, rfl, .finish (Nat.le_of_eq all)⟩
  | succ left ih =>
      have inside : line < page.dpg_rpt.length := by
        rw [DataPage.count] at all
        omega
      have there := List.getElem?_eq_getElem inside
      have next := ih (line + 1) (by omega)
      rw [lineLoop]
      by_cases used : page.dpg_rpt[line].dpg_offset = 0
      · rw [getHeader_unused there used]
        obtain ⟨result, result_eq, run⟩ := next rpb
        exact ⟨result, result_eq, run.pass there fun primary => primary.1 used⟩
      · obtain ⟨filled, filled_eq, flags, carries⟩ := getHeader_used number rpb there used
          fun catalogue => system catalogue _ (List.getElem_mem inside)
        rw [filled_eq]
        dsimp only
        by_cases plain : filled.rpb_flags &&& (rhdBlob ||| rhdChain ||| rhdFragment) = 0
        · rw [if_pos ⟨rfl, plain⟩]
          have primary : page.dpg_rpt[line].Primary := ⟨used, flags ▸ plain⟩
          exact ⟨_, rfl, .found (Nat.le_refl _) there primary
            ((carries primary.not_fragment).setNumber _) rfl
            fun other skipped after before _ => absurd before (Nat.not_lt.mpr after)⟩
        · rw [if_neg fun both => plain both.2]
          obtain ⟨result, result_eq, run⟩ := next filled
          exact ⟨result, result_eq, run.pass there fun primary => plain (flags ▸ primary.2)⟩

theorem lines_spec (system : relation.rel_id = 0 →
      ∀ entry ∈ page.dpg_rpt, entry.header.rhdf_transaction = 0) (line : Nat) (rpb : Rpb) :
    ∃ result, relation.lines number page line slot pp_sequence rpb = .ok result ∧
      LinesRun relation number page slot pp_sequence line result := by
  rw [lines]
  rcases Nat.le_total line page.count with inside | beyond
  · exact lineLoop_spec system _ line (Nat.add_sub_cancel' inside).symm rpb
  · rw [Nat.sub_eq_zero_of_le beyond]
    exact ⟨_, rfl, .finish beyond⟩

/-- A version found on the listed page of a sequence is the next one. -/
theorem LinesRun.located {stop : Nat}
    (run : LinesRun relation number page slot pp_sequence line (true, stop, rpb))
    (listed : relation.listed (pp_sequence * relation.dbb_dp_per_pp + slot) = some (number, page))
    (short : page.count < relation.dbb_max_records) :
    relation.Located ((pp_sequence * relation.dbb_dp_per_pp + slot) * relation.dbb_max_records + line)
      (true, rpb) := by
  cases run with
  | @found _ _ entry after there primary carries numbered first =>
      have inside : stop < page.count := (List.getElem?_eq_some_iff.mp there).1
      have small : stop < relation.dbb_max_records := inside.trans short
      refine @Located.found _ _ _ _ number entry (Nat.add_le_add_left after _) ?_ numbered ?_ ?_
      · rw [version_of_listed small listed, there, Option.filter_some, decide_eq_true primary]
        rfl
      · rw [Nat.mul_comm, Nat.mul_add_mod, Nat.mod_eq_of_lt small]
        exact carries
      · intro other from_line before
        obtain ⟨skipped, rfl⟩ := Nat.exists_eq_add_of_le (Nat.le_of_add_right_le from_line)
        have before_stop : skipped < stop := Nat.lt_of_add_lt_add_left before
        rw [version_of_listed (before_stop.trans small) listed, Option.map_eq_none_iff,
          Option.filter_eq_none_iff]
        intro entry there
        rw [decide_eq_true_iff]
        exact first skipped entry (Nat.le_of_add_le_add_left from_line) before_stop there

/-- A page on which nothing is found has no versions left. -/
theorem version_of_linesRun_none {stop other : Nat}
    (run : LinesRun relation number page slot pp_sequence line (false, stop, rpb))
    (listed : relation.listed (pp_sequence * relation.dbb_dp_per_pp + slot) = some (number, page))
    (after : (pp_sequence * relation.dbb_dp_per_pp + slot) * relation.dbb_max_records + line ≤ other)
    (before : other <
      (pp_sequence * relation.dbb_dp_per_pp + slot + 1) * relation.dbb_max_records) :
    relation.version other = none := by
  cases run with
  | ended none =>
      refine Relation.version_eq_none (fun page_number page' listed' => ?_) after before
      rw [listed] at listed'
      cases listed'
      exact none

/-! ## Slots and pointer pages -/

theorem listed_of_slot {sequence : Nat} {entry : Slot} (there : relation.slot sequence = some entry)
    (present : entry.number ≠ 0) (found : relation.pages entry.number = some page) :
    relation.listed sequence = some (entry.number, page) := by
  rw [listed, there, Option.filter_some, decide_eq_true present, if_pos rfl, Option.bind_some, found]
  rfl

theorem pages_of_listed {sequence : Nat}
    (listed : relation.listed sequence = some (number, page)) : relation.pages number = some page := by
  obtain ⟨entry, there, found⟩ := Option.bind_eq_some_iff.mp listed
  obtain ⟨found', found_eq, pair⟩ := Option.map_eq_some_iff.mp found
  cases pair
  exact found_eq

theorem slot_eq {ppage : PointerPage} (there : relation.pointers[pp_sequence]? = some ppage)
    (inside : slot < relation.dbb_dp_per_pp) :
    relation.slot (pp_sequence * relation.dbb_dp_per_pp + slot) = ppage.slots[slot]? := by
  rw [Relation.slot, Nat.mul_comm, Nat.mul_add_div (Nat.zero_lt_of_lt inside),
    Nat.div_eq_of_lt inside, Nat.add_zero, there, Option.bind_some, Nat.mul_add_mod,
    Nat.mod_eq_of_lt inside]

end Relation

namespace Layout

variable {layout : Layout} {rpb : Rpb} {slot pp_sequence line number : Nat} {page : DataPage}

/-- A slot that is not visited has no versions. -/
theorem version_of_not_visited {entry : Slot} {sequence other : Nat}
    (there : layout.slot sequence = some entry) (left_out : Relation.visited entry = false)
    (after : sequence * layout.dbb_max_records ≤ other)
    (before : other < (sequence + 1) * layout.dbb_max_records) :
    layout.version other = none := by
  refine @Relation.version_eq_none _ _ _ 0 ?_ (Nat.add_zero _ ▸ after) before
  intro page_number page listed line held _ at_line primary
  rw [Relation.listed, there, Option.filter_some] at listed
  by_cases present : entry.number = 0
  · simp [present] at listed
  · obtain ⟨found, found_eq⟩ := layout.data there present
    rw [decide_eq_true present, if_pos rfl, Option.bind_some, found_eq] at listed
    cases listed
    have member := List.mem_of_getElem? at_line
    by_cases secondary : entry.bits &&& ppgDpSecondary = 0
    · by_cases empty : entry.bits &&& ppgDpEmpty = 0
      · simp [Relation.visited, present, secondary, empty] at left_out
      · have none := layout.empty there found_eq empty
        rw [DataPage.count, List.length_eq_zero_iff] at none
        rw [none] at member
        exact List.not_mem_nil member
    · exact layout.secondary there found_eq secondary held member primary

/-- There are no versions past the slots of a pointer page. -/
theorem version_of_count_le {ppage : PointerPage} {other : Nat}
    (there : layout.pointers[pp_sequence]? = some ppage) (beyond : ppage.count ≤ slot)
    (after : (pp_sequence * layout.dbb_dp_per_pp + slot) * layout.dbb_max_records ≤ other)
    (before : other < (pp_sequence + 1) * layout.dbb_dp_per_pp * layout.dbb_max_records) :
    layout.version other = none := by
  have low : pp_sequence * layout.dbb_dp_per_pp + slot ≤ other / layout.dbb_max_records :=
    (Nat.le_div_iff_mul_le layout.records_pos).mpr after
  have high : other / layout.dbb_max_records < (pp_sequence + 1) * layout.dbb_dp_per_pp :=
    Nat.div_lt_of_lt_mul (Nat.mul_comm _ layout.dbb_max_records ▸ before)
  obtain ⟨above, sequence_eq⟩ := Nat.exists_eq_add_of_le (Nat.le_of_add_right_le low)
  have inside : above < layout.dbb_dp_per_pp := by
    rw [Nat.succ_mul] at high
    omega
  have past : ppage.slots.length ≤ above := beyond.trans (by omega)
  rw [Relation.version, sequence_eq, Relation.listed, Relation.slot_eq there inside,
    List.getElem?_eq_none past]
  rfl

/-- What the loop over the slots of a pointer page comes to. -/
inductive SlotsRun (layout : Layout) (pp_sequence start : Nat) : Bool × Bool × Rpb → Prop where
  | found {rpb : Rpb} (located : layout.Located start (true, rpb)) :
      SlotsRun layout pp_sequence start (true, true, rpb)
  | ended {rpb : Rpb}
      (none : ∀ other, start ≤ other →
        other < (pp_sequence + 1) * layout.dbb_dp_per_pp * layout.dbb_max_records →
        layout.version other = none) :
      SlotsRun layout pp_sequence start (false, false, rpb)

/-- The numbers up to the next slot may be left out. -/
theorem SlotsRun.skip {start next : Nat} {result : Bool × Bool × Rpb}
    (run : SlotsRun layout pp_sequence next result) (le : start ≤ next)
    (between : ∀ other, start ≤ other → other < next → layout.version other = none) :
    SlotsRun layout pp_sequence start result := by
  cases run with
  | found located => exact .found (located.skip le between)
  | ended none =>
      refine .ended fun other from_start before => ?_
      rcases Nat.lt_or_ge other next with skipped | kept
      · exact between other from_start skipped
      · exact none other kept before

theorem lines_of_listed {sequence : Nat}
    (listed : layout.listed sequence = some (number, page)) (line slot pp_sequence : Nat) (rpb : Rpb) :
    page.count < layout.dbb_max_records ∧
      ∃ result, layout.lines number page line slot pp_sequence rpb = .ok result ∧
        layout.LinesRun number page slot pp_sequence line result := by
  have related := layout.related listed
  have found := Relation.pages_of_listed listed
  exact ⟨layout.lines_lt found related, Relation.lines_spec (layout.system found related) line rpb⟩

theorem slotLoop_spec {ppage : PointerPage} (there : layout.pointers[pp_sequence]? = some ppage)
    (left slot line : Nat) (all : left = ppage.count - slot) (short : line ≤ layout.dbb_max_records)
    (rpb : Rpb) :
    ∃ result, layout.slotLoop false ppage pp_sequence left slot line rpb = .ok result ∧
      SlotsRun layout pp_sequence
        ((pp_sequence * layout.dbb_dp_per_pp + slot) * layout.dbb_max_records + line) result := by
  induction left generalizing slot line rpb with
  | zero =>
      refine ⟨_, rfl, .ended fun other after before => ?_⟩
      exact version_of_count_le there (Nat.sub_eq_zero_iff_le.mp all.symm)
        (Nat.le_of_add_right_le after) before
  | succ left ih =>
      have inside : slot < ppage.slots.length := by
        rw [PointerPage.count] at all
        omega
      have at_slot := List.getElem?_eq_getElem inside
      have in_layout := Relation.slot_eq there (inside.trans_le (layout.slots_le there))
      rw [at_slot] at in_layout
      have next := ih (slot + 1) 0 (by omega) (Nat.zero_le _)
      have le : (pp_sequence * layout.dbb_dp_per_pp + slot) * layout.dbb_max_records + line ≤
          (pp_sequence * layout.dbb_dp_per_pp + (slot + 1)) * layout.dbb_max_records + 0 := by
        rw [← Nat.add_assoc, Nat.succ_mul]
        omega
      rw [Relation.slotLoop, at_slot]
      dsimp only
      cases worth : Relation.visited ppage.slots[slot] with
      | false =>
          obtain ⟨result, result_eq, run⟩ := next rpb
          rw [if_neg Bool.false_ne_true, if_neg Bool.false_ne_true]
          exact ⟨result, result_eq, run.skip le fun other after before =>
            version_of_not_visited in_layout worth (Nat.le_of_add_right_le after) before⟩
      | true =>
          have present : ppage.slots[slot].number ≠ 0 := by
            simp only [Relation.visited, decide_eq_true_eq] at worth
            exact worth.1
          obtain ⟨page, page_eq⟩ := layout.data in_layout present
          have listed := Relation.listed_of_slot in_layout present page_eq
          obtain ⟨few, ⟨found, stop, filled⟩, lines_eq, run⟩ :=
            lines_of_listed listed line slot pp_sequence rpb
          rw [if_pos rfl, page_eq]
          dsimp only
          rw [lines_eq]
          cases found with
          | true => exact ⟨_, rfl, .found (run.located listed few)⟩
          | false =>
              obtain ⟨result, result_eq, run'⟩ := next filled
              dsimp only
              rw [if_neg Bool.false_ne_true]
              exact ⟨result, result_eq, run'.skip le fun other after before =>
                Relation.version_of_linesRun_none run listed after before⟩

theorem getPointerPage_eq {ppage : PointerPage}
    (there : layout.pointers[pp_sequence]? = some ppage) :
    layout.getPointerPage pp_sequence = .ok (some ppage) := by
  obtain ⟨relation_eq, sequence_eq⟩ := layout.pointer there
  simp only [Relation.getPointerPage, there, relation_eq, sequence_eq, ne_eq, not_true, or_self,
    if_false]

/-- The way through the pointer pages finds the next version. -/
theorem pointerLoop_spec (rounds pp_sequence slot line : Nat)
    (inside : pp_sequence < layout.pointers.length)
    (enough : layout.pointers.length ≤ pp_sequence + rounds)
    (slot_lt : slot < layout.dbb_dp_per_pp) (short : line ≤ layout.dbb_max_records) (rpb : Rpb) :
    ∃ result, layout.pointerLoop false rounds pp_sequence slot line rpb = .ok result ∧
      layout.Located
        ((pp_sequence * layout.dbb_dp_per_pp + slot) * layout.dbb_max_records + line) result := by
  induction rounds generalizing pp_sequence slot line rpb with
  | zero => exact absurd (inside.trans_le enough) (Nat.lt_irrefl _)
  | succ rounds ih =>
      have there := List.getElem?_eq_getElem inside
      obtain ⟨⟨finished, found, filled⟩, slots_eq, run⟩ :=
        slotLoop_spec there _ slot line rfl short rpb
      rw [Relation.pointerLoop, getPointerPage_eq there]
      dsimp only
      rw [slots_eq]
      cases run with
      | found located => exact ⟨_, rfl, located⟩
      | ended none =>
          dsimp only
          by_cases last : pp_sequence + 1 = layout.pointers.length
          · rw [if_pos (.inl ((layout.eof there).mpr last))]
            refine ⟨_, rfl, .ended fun other after => ?_⟩
            rcases Nat.lt_or_ge other layout.bound with before | beyond
            · exact none other after (last ▸ before)
            · exact Relation.version_of_bound_le layout.slots_pos layout.records_pos beyond
          · have next_inside : pp_sequence + 1 < layout.pointers.length := by omega
            rw [if_neg fun stop => stop.elim (fun eof => last ((layout.eof there).mp eof))
              Bool.false_ne_true]
            obtain ⟨result, result_eq, located⟩ := ih (pp_sequence + 1) 0 0 next_inside (by omega)
              layout.slots_pos (Nat.zero_le _) filled
            refine ⟨result, result_eq, located.skip ?_ none⟩
            have slots : pp_sequence * layout.dbb_dp_per_pp + slot + 1 ≤
                (pp_sequence + 1) * layout.dbb_dp_per_pp := by
              rw [Nat.succ_mul]
              omega
            have room := Nat.mul_le_mul_right layout.dbb_max_records slots
            rw [Nat.succ_mul] at room
            exact (Nat.add_le_add_left short _).trans room

/-! ## A call -/

theorem dpSequence_eq {start : Nat}
    (inside : start / layout.dbb_max_records < layout.pointers.length * layout.dbb_dp_per_pp) :
    layout.dpSequence (start : Int) = start / layout.dbb_max_records := by
  have small := inside.trans layout.sequences_small
  rw [Relation.dpSequence, ← Int.ofNat_tdiv]
  generalize start / layout.dbb_max_records = sequence at small ⊢
  omega

theorem decompose_eq {start : Nat}
    (inside : start / layout.dbb_max_records < layout.pointers.length * layout.dbb_dp_per_pp) :
    layout.decompose (start : Int) = layout.position start := by
  have line_lt := (Nat.mod_lt start layout.records_pos).trans layout.records_small
  have slot_lt := (Nat.mod_lt (start / layout.dbb_max_records) layout.slots_pos).trans
    layout.slots_small
  have line_eq : ((start : Int).tmod layout.dbb_max_records % 2 ^ 16).toNat =
      start % layout.dbb_max_records := by
    rw [← Int.ofNat_tmod]
    omega
  rw [Relation.decompose, dpSequence_eq inside, line_eq, Nat.mod_eq_of_lt slot_lt]
  rfl

/-- From a position on, the pointer pages lead to the next version. -/
theorem pointerLoop_located {sequence : Nat}
    (inside : sequence < layout.pointers.length * layout.dbb_dp_per_pp)
    (short : line ≤ layout.dbb_max_records) (rpb : Rpb) :
    ∃ result, layout.pointerLoop false (layout.pointers.length + 1)
        (sequence / layout.dbb_dp_per_pp) (sequence % layout.dbb_dp_per_pp) line rpb = .ok result ∧
      layout.Located (sequence * layout.dbb_max_records + line) result := by
  have pointer_lt : sequence / layout.dbb_dp_per_pp < layout.pointers.length :=
    Nat.div_lt_of_lt_mul (Nat.mul_comm _ layout.dbb_dp_per_pp ▸ inside)
  have found := pointerLoop_spec (layout.pointers.length + 1) _ (sequence % layout.dbb_dp_per_pp) line
    pointer_lt (Nat.le_add_left_of_le (Nat.le_succ _)) (Nat.mod_lt _ layout.slots_pos) short rpb
  rwa [Nat.div_add_mod'] at found

/-- The remembered page is passed by, or its lines are looked at. -/
theorem cached_spec (page_number sequence : Nat) (position : Position) (rpb : Rpb) :
    ∃ result, layout.cached page_number sequence position rpb = .ok result ∧
      (result = (false, position.line, rpb) ∧ (∀ page, page_number ≠ 0 →
          layout.pages page_number = some page → ¬layout.pageOk sequence page) ∨
        ∃ page, page_number ≠ 0 ∧ layout.pages page_number = some page ∧
          layout.pageOk sequence page ∧ page.count < layout.dbb_max_records ∧
          layout.LinesRun page_number page position.slot position.pp_sequence position.line result) := by
  rw [Relation.cached]
  by_cases remembered : page_number = 0
  · exact ⟨_, if_pos remembered, .inl ⟨rfl, fun _ present => absurd remembered present⟩⟩
  rw [if_neg remembered]
  cases found : layout.pages page_number with
  | none => exact ⟨_, rfl, .inl ⟨rfl, fun page _ page_eq => nomatch page_eq⟩⟩
  | some page =>
      dsimp only
      by_cases ok : layout.pageOk sequence page
      · have related : page.dpg_relation = layout.rel_id := by
          simp only [Relation.pageOk, decide_eq_true_eq] at ok
          exact ok.2.1
        obtain ⟨result, result_eq, run⟩ := Relation.lines_spec (layout.system found related)
          position.line rpb
        rw [if_pos ok]
        exact ⟨result, result_eq, .inr ⟨page, remembered, rfl, ok, layout.lines_lt found related,
          run⟩⟩
      · rw [if_neg ok]
        refine ⟨_, rfl, .inl ⟨rfl, fun page' _ page_eq => ?_⟩⟩
        cases page_eq
        exact ok

/-- Where the loop stops when it finds nothing. -/
theorem stop_eq {stop : Nat}
    (run : layout.LinesRun number page slot pp_sequence line (false, stop, rpb)) :
    stop = max line page.count := by
  cases run with
  | ended => rfl

/-- A version of a page that is not listed is not the next version. -/
theorem not_located_of_not_listed {start sequence stop : Nat}
    (run : layout.LinesRun number page (sequence % layout.dbb_dp_per_pp)
      (sequence / layout.dbb_dp_per_pp) line (true, stop, rpb))
    (few : page.count < layout.dbb_max_records)
    (other : (layout.listed sequence).map Prod.fst ≠ some number) :
    ¬layout.Located start (true, rpb) := by
  intro located
  cases run with
  | found _ there _ held numbered _ =>
      cases located with
      | @found _ found page_number entry _ version numbered' carries _ =>
          have small : stop < layout.dbb_max_records :=
            (List.getElem?_eq_some_iff.mp there).1.trans few
          have found_eq : found = sequence * layout.dbb_max_records + stop := by
            rw [numbered', Relation.compose, Nat.div_add_mod'] at numbered
            exact Int.ofNat.inj numbered
          have same : page_number = number := carries.page.symm.trans held.page
          obtain ⟨⟨listed_number, listed_page⟩, listed, in_page⟩ := Option.bind_eq_some_iff.mp version
          obtain ⟨_, _, pair⟩ := Option.map_eq_some_iff.mp in_page
          cases pair
          have quotient : found / layout.dbb_max_records = sequence := by
            rw [found_eq, Nat.mul_comm, Nat.mul_add_div layout.records_pos, Nat.div_eq_of_lt small,
              Nat.add_zero]
          rw [quotient] at listed
          exact other (by rw [listed, ← same]; rfl)

/-- From a position on, the next version is returned exactly if the remembered page is fresh. -/
theorem proceed_iff {sequence page_number : Nat}
    (inside : sequence < layout.pointers.length * layout.dbb_dp_per_pp)
    (line_lt : line < layout.dbb_max_records) (rpb : Rpb) :
    ∃ result, layout.cached page_number sequence
          ⟨line, sequence % layout.dbb_dp_per_pp, sequence / layout.dbb_dp_per_pp⟩ rpb >>=
        layout.proceed false
          ⟨line, sequence % layout.dbb_dp_per_pp, sequence / layout.dbb_dp_per_pp⟩ = .ok result ∧
      (layout.Located (sequence * layout.dbb_max_records + line) result ↔
        layout.FreshPage page_number sequence line) := by
  obtain ⟨⟨found, stop, filled⟩, cached_eq,
      ⟨passed, unfit⟩ | ⟨page, remembered, page_eq, ok, few, run⟩⟩ :=
    @cached_spec layout page_number sequence
      ⟨line, sequence % layout.dbb_dp_per_pp, sequence / layout.dbb_dp_per_pp⟩ rpb
  all_goals
    rw [cached_eq]
    change ∃ result, layout.proceed false _ (found, stop, filled) = .ok result ∧ _
  · cases passed
    obtain ⟨result, result_eq, located⟩ := pointerLoop_located inside (Nat.le_of_lt line_lt) rpb
    exact ⟨result, result_eq, fun _ page present page_eq ok =>
      absurd ok (unfit page present page_eq), fun _ => located⟩
  change layout.LinesRun page_number page (sequence % layout.dbb_dp_per_pp)
    (sequence / layout.dbb_dp_per_pp) line (found, stop, filled) at run
  have only (page' : DataPage) (page_eq' : layout.pages page_number = some page') : page' = page :=
    Option.some.inj (page_eq'.symm.trans page_eq)
  by_cases own : (layout.listed sequence).map Prod.fst = some page_number
  · have fresh : layout.FreshPage page_number sequence line := fun _ _ _ _ => .inl own
    obtain ⟨⟨_, listed_page⟩, listed, rfl⟩ := Option.map_eq_some_iff.mp own
    obtain rfl := only listed_page (Relation.pages_of_listed listed)
    rw [← Nat.div_add_mod' sequence layout.dbb_dp_per_pp] at listed
    cases found with
    | true =>
        have located := run.located listed few
        rw [Nat.div_add_mod'] at located
        exact ⟨_, rfl, fun _ => fresh, fun _ => located⟩
    | false =>
        have none (other : Nat) := @Relation.version_of_linesRun_none _ _ _ _ _ _ _ _ other run listed
        rw [Nat.div_add_mod'] at none
        have stop_eq := stop_eq run
        obtain ⟨result, result_eq, located⟩ :=
          @pointerLoop_located layout stop sequence inside (by omega) filled
        refine ⟨result, result_eq, fun _ => fresh, fun _ => located.skip (by omega) ?_⟩
        intro other after before
        exact none other after (by rw [Nat.succ_mul]; omega)
  · cases found with
    | true =>
        refine ⟨_, rfl, fun located => absurd located (not_located_of_not_listed run few own), ?_⟩
        intro fresh
        obtain listed | ⟨barren, _⟩ := fresh page remembered page_eq ok
        · exact absurd listed own
        · cases run with
          | found after there primary _ _ _ => exact absurd primary (barren _ _ after there)
    | false =>
        have stop_eq := stop_eq run
        obtain ⟨result, result_eq, located⟩ :=
          @pointerLoop_located layout stop sequence inside (by omega) filled
        refine ⟨result, result_eq, fun claimed page' _ page_eq' _ => .inr ?_, fun fresh => ?_⟩
        · obtain rfl := only page' page_eq'
          cases run with
          | ended barren =>
              refine ⟨barren, fun number after before => ?_⟩
              by_contra there
              exact located.not_skipped after (by omega) there claimed
        · obtain listed | ⟨_, none⟩ := fresh page remembered page_eq ok
          · exact absurd listed own
          · refine located.skip (by omega) fun other after before => none other after (by omega)

/-- A call returns the next version exactly if what the relation remembers is fresh. -/
theorem next_iff {start : Nat}
    (inside : start / layout.dbb_max_records < layout.pointers.length * layout.dbb_dp_per_pp)
    (dpMap : Nat → Nat) (at_start : rpb.rpb_number + 1 = start) :
    ∃ result, layout.next dpMap false rpb = .ok result ∧
      (layout.Located start result ↔ layout.Fresh dpMap start) := by
  rw [Relation.next, at_start, decompose_eq inside, dpSequence_eq inside]
  have step := @proceed_iff layout (start % layout.dbb_max_records) _
    (dpMap (start / layout.dbb_max_records)) inside (Nat.mod_lt start layout.records_pos)
    { rpb with rpb_number := start }
  rwa [Nat.div_add_mod'] at step

end Layout
end RelationScan
end Firebird
