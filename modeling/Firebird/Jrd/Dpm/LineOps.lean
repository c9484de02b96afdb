import Firebird.Jrd.Dpm.LineStep
import Mathlib.Data.List.TakeWhile

/-!
# The operations on a data page

One lemma for each operation: it leaves a layout and every other record, and the space that `fragment`
is given holds a fragmented record header unless the record is an unpadded stub.
-/

namespace Firebird
namespace LineArea

section Store

variable {pageSize : Nat} {page after : Page} {image : List UInt8}

/-- Both ways to make room give what is needed when the page has it in total. -/
theorem makeRoom_spec (needed : Nat) (page_mod : pageSize % 4 = 0)
    (placed : Placed pageSize page.lines) (needed_pos : 0 < needed)
    (fits : needed + occupied page.lines ≤ pageSize) :
    ∃ room space, (if needed > lowest pageSize page.lines then compress pageSize page
        else (page, lowest pageSize page.lines)) = (room, space) ∧
      Roomy pageSize page room space ∧ needed ≤ space := by
  split
  · obtain ⟨space_eq, roomy⟩ := Roomy.of_compress page page_mod (by omega)
    refine ⟨(compress pageSize page).1, (compress pageSize page).2, rfl, roomy, ?_⟩
    rw [space_eq]
    omega
  · rename_i enough
    exact ⟨page, lowest pageSize page.lines, rfl, Roomy.of_lowest page_mod placed, by omega⟩

theorem freeSlot_spec (lines : List Line) :
    freeSlot lines = 0 ∨ ∃ line, lines[freeSlot lines]? = some line ∧ line.offset = 0 := by
  cases lines with
  | nil => exact .inl rfl
  | cons first lines =>
      simp only [freeSlot, List.tail_cons]
      cases found : lines.findIdx? fun line => decide (line.offset = 0) with
      | none => exact .inl rfl
      | some index =>
          obtain ⟨less, zero, -⟩ := List.findIdx?_eq_some_iff_getElem.mp found
          exact .inr ⟨lines[index], by simp [less], by simpa using zero⟩

theorem findSpace_kept (page_mod : pageSize % 4 = 0) (layout : Layout pageSize page.lines)
    {reserving : Bool} {slot : Nat} (large : rhdfSize ≤ image.length)
    (found : findSpace pageSize page reserving image = some (after, slot)) :
    Kept pageSize page after [] := by
  obtain ⟨extra, extra_eq⟩ : ∃ extra,
      (if reserving = true then reserved page.bytes page.lines else 0) = extra := ⟨_, rfl⟩
  obtain ⟨entry, entry_eq⟩ : ∃ entry, (if freeSlot page.lines = 0 then 4 else 0) = entry :=
    ⟨_, rfl⟩
  obtain ⟨segments, segments_eq⟩ : ∃ segments,
      (page.lines.length + if freeSlot page.lines = 0 then 1 else 0) = segments := ⟨_, rfl⟩
  obtain ⟨place, place_eq⟩ : ∃ place,
      (if freeSlot page.lines = 0 then page.lines.length else freeSlot page.lines) = place :=
    ⟨_, rfl⟩
  simp only [findSpace, extra_eq, entry_eq, segments_eq, place_eq] at found
  split at found
  · cases found
  · rename_i enough
    have free : place ≤ page.lines.length ∧
        (∀ line, page.lines[place]? = some line → line.offset = 0) ∧
        (if place = page.lines.length then page.lines.length + 1 else page.lines.length) =
          segments := by
      rcases freeSlot_spec page.lines with zero | ⟨line, at_slot, unused⟩
      · rw [if_pos zero] at place_eq segments_eq
        subst place_eq
        exact ⟨le_rfl, by simp, by simp [segments_eq]⟩
      · have less := (List.getElem?_eq_some_iff.mp at_slot).1
        by_cases zero : freeSlot page.lines = 0
        · rw [if_pos zero] at place_eq segments_eq
          subst place_eq
          exact ⟨le_rfl, by simp, by simp [segments_eq]⟩
        · rw [if_neg zero] at place_eq segments_eq
          subst place_eq
          refine ⟨less.le, ?_, by rw [if_neg less.ne]; exact segments_eq⟩
          intro other at_slot_other
          rw [at_slot] at at_slot_other
          rw [← Option.some.inj at_slot_other]
          exact unused
    obtain ⟨place_le, place_free, count_eq⟩ := free
    have total : roundup image.length + highWater segments + occupied page.lines ≤ pageSize := by
      have index_eq : highWater segments = highWater page.lines.length + entry := by
        rw [← segments_eq, ← entry_eq]
        unfold highWater
        split <;> omega
      omega
    obtain ⟨room, space, room_eq, roomy, needed⟩ :=
      makeRoom_spec (roundup image.length + highWater segments) page_mod layout.placed
        (by unfold highWater; omega) total
    rw [room_eq] at found
    dsimp only at found
    obtain ⟨rfl, rfl⟩ := Prod.mk.inj (Option.some.inj found)
    have space_pos : 0 < space := by
      unfold highWater at needed
      omega
    have place_le_room : place ≤ room.lines.length := by
      rw [roomy.length]
      exact place_le
    have count_room : (setLine room.lines place
        { offset := space - roundup image.length, length := image.length, stub := false }).length =
          segments := by
      rw [length_setLine _ _ place_le_room, roomy.length, ← count_eq]
    refine ⟨⟨?_, ?_⟩, fun index _ => ?_⟩
    · refine roomy.gap.place roomy.space_mod roomy.space_le place_le_room rfl ?_
      rw [count_room]
      dsimp only
      omega
    · intro line mem
      obtain ⟨i, at_index⟩ := List.mem_iff_getElem?.mp mem
      by_cases same : i = place
      · subst same
        rw [setLine_self _ _ place_le_room] at at_index
        rw [← Option.some.inj at_index]
        refine ⟨fun zero => ?_, fun _ => ?_, fun _ _ => large⟩
        · have high : highWater segments ≤ space - roundup image.length := by omega
          unfold highWater at high
          simp only at zero
          omega
        · unfold rhdfSize at large
          simp only
          omega
      · rw [setLine_ne _ _ place_le_room same] at at_index
        exact roomy.sized space_pos at_index fun old at_page =>
          layout.sized old (List.mem_of_getElem? at_page)
    · by_cases same : index = place
      · subst same
        intro line at_index used
        exact absurd (place_free line at_index) used
      · refine roomy.keeps space_pos (fun line at_index _ => ?_) fun address le => ?_
        · rw [setLine_ne _ _ place_le_room same]
          exact at_index
        · have le_roundup := le_roundup image.length
          exact writeBytes_of_ge (by omega)

end Store

section Update

variable {pageSize : Nat} {page : Page} {line : Nat} {old : Line}

theorem set_of_getElem? {lines : List Line} {index : Nat} {old : Line}
    (found : lines[index]? = some old) : lines.set index old = lines := by
  obtain ⟨less, equal⟩ := List.getElem?_eq_some_iff.mp found
  rw [← equal, List.set_getElem_self]

theorem occupied_set {lines : List Line} {index : Nat} {old : Line} (new : Line)
    (found : lines[index]? = some old) (used : old.offset ≠ 0) (new_used : new.offset ≠ 0) :
    occupied (lines.set index new) + roundup old.length =
      occupied lines + roundup new.length := by
  induction lines generalizing index with
  | nil => cases found
  | cons first lines inductive_hypothesis =>
      cases index with
      | zero =>
          obtain rfl := Option.some.inj found
          simp only [List.set_cons_zero, occupied, if_pos used, if_pos new_used]
          omega
      | succ index =>
          have rest := inductive_hypothesis found
          simp only [List.set_cons_succ, occupied]
          split <;> omega

/-- A line may shrink in its place. -/
theorem Placed.shrink {lines : List Line} (placed : Placed pageSize lines)
    (found : lines[line]? = some old) {length : Nat} (le : length ≤ old.length) :
    Placed pageSize (lines.set line { old with length := length }) := by
  have less := (List.getElem?_eq_some_iff.mp found).1
  have rounded := roundup_mono le
  have cases_of : ∀ (i : Nat) (new : Line),
      (lines.set line { old with length := length })[i]? = some new →
      ∃ before, lines[i]? = some before ∧ new.offset = before.offset ∧
        roundup new.length ≤ roundup before.length := by
    intro i new at_index
    by_cases same : i = line
    · subst same
      rw [List.getElem?_set_self less] at at_index
      rw [← Option.some.inj at_index]
      exact ⟨old, found, rfl, rounded⟩
    · rw [List.getElem?_set_ne (Ne.symm same)] at at_index
      exact ⟨new, at_index, rfl, le_rfl⟩
  refine ⟨by rw [List.length_set]; exact placed.index, ?_, ?_, ?_⟩
  · intro new mem used
    obtain ⟨i, at_index⟩ := List.mem_iff_getElem?.mp mem
    obtain ⟨before, at_before, offset_eq, -⟩ := cases_of i new at_index
    rw [offset_eq] at used ⊢
    exact placed.aligned before (List.mem_of_getElem? at_before) used
  · intro new mem used
    obtain ⟨i, at_index⟩ := List.mem_iff_getElem?.mp mem
    obtain ⟨before, at_before, offset_eq, smaller⟩ := cases_of i new at_index
    rw [offset_eq] at used
    obtain ⟨low, high⟩ := placed.within before (List.mem_of_getElem? at_before) used
    simp only [Line.area] at low high
    rw [List.length_set]
    refine ⟨?_, ?_⟩
    · simp only [Line.area]
      omega
    · simp only [Line.area]
      omega
  · intro i j first second different at_first at_second first_used second_used
    obtain ⟨first_before, at_first_before, first_eq, first_smaller⟩ := cases_of i first at_first
    obtain ⟨second_before, at_second_before, second_eq, second_smaller⟩ :=
      cases_of j second at_second
    rw [first_eq] at first_used
    rw [second_eq] at second_used
    have apart := placed.apart i j _ _ different at_first_before at_second_before first_used
      second_used
    simp only [Extent.Apart, Line.area] at apart ⊢
    omega

/-- Bytes written inside the area of a record leave the other records as they are. -/
theorem Placed.keeps_others {after : Page} (placed : Placed pageSize page.lines)
    (found : page.lines[line]? = some old) (used : old.offset ≠ 0)
    (bytes : ∀ address, address < old.offset ∨ old.offset + old.length ≤ address →
      after.bytes address = page.bytes address) {index : Nat} (different : index ≠ line)
    (same : ∀ other, page.lines[index]? = some other → other.offset ≠ 0 →
      after.lines[index]? = some other) : Keeps page after index := by
  intro other at_index other_used
  refine ⟨other.offset, other_used, same other at_index other_used, fun distance less => ?_⟩
  have apart := placed.apart index line other old different at_index found other_used used
  have other_rounded := le_roundup other.length
  have old_rounded := le_roundup old.length
  simp only [Extent.Apart, Line.area] at apart
  exact bytes _ (by omega)

/-- The record with length 0 that `DPM_update` leaves for `compress`. -/
def emptied (page : Page) (line : Nat) (old : Line) : Page :=
  { page with lines := page.lines.set line { old with length := 0 } }

/-- Space claimed for a stub or a record put at the line of an emptied record. -/
theorem Roomy.replace {room after : Page} {space : Nat} (new : Line)
    (roomy : Roomy pageSize (emptied page line old) room space)
    (sized : ∀ other ∈ page.lines, other.Sized) (found : page.lines[line]? = some old)
    (new_sized : new.Sized) (offset_eq : new.offset = space - roundup new.length)
    (fits : highWater page.lines.length + roundup new.length ≤ space)
    (lines_eq : after.lines = room.lines.set line new)
    (bytes_eq : ∀ address, space ≤ address → after.bytes address = room.bytes address) :
    Kept pageSize page after [line] := by
  have less := (List.getElem?_eq_some_iff.mp found).1
  have room_length : room.lines.length = page.lines.length := by
    rw [roomy.length, emptied, List.length_set]
  have space_pos : 0 < space := by
    unfold highWater at fits
    omega
  have set_eq : room.lines.set line new = setLine (room.lines.set line .unused) line new := by
    rw [setLine, List.length_set, if_pos (by omega), List.set_set]
  refine ⟨⟨?_, ?_⟩, fun index other => ?_⟩
  · rw [lines_eq, set_eq]
    refine (roomy.gap.set_unused line).place roomy.space_mod roomy.space_le
      (by rw [List.length_set]; omega) offset_eq ?_
    rw [← set_eq, List.length_set, room_length]
    exact fits
  · intro other mem
    obtain ⟨i, at_index⟩ := List.mem_iff_getElem?.mp mem
    rw [lines_eq] at at_index
    by_cases same : i = line
    · subst same
      rw [List.getElem?_set_self (by omega)] at at_index
      rw [← Option.some.inj at_index]
      exact new_sized
    · rw [List.getElem?_set_ne (Ne.symm same)] at at_index
      refine roomy.sized space_pos at_index fun before at_page => sized before ?_
      rw [emptied, List.getElem?_set_ne (Ne.symm same)] at at_page
      exact List.mem_of_getElem? at_page
  · have different : index ≠ line := by simpa using other
    intro kept at_index used
    have at_emptied : (emptied page line old).lines[index]? = some kept := by
      rw [emptied, List.getElem?_set_ne (Ne.symm different)]
      exact at_index
    refine roomy.keeps space_pos (fun moved at_room _ => ?_) bytes_eq kept at_emptied used
    rw [lines_eq, List.getElem?_set_ne (Ne.symm different)]
    exact at_room

theorem Record.le_padded_length (record : Record) : rhdfSize ≤ record.padded.length := by
  simp only [Record.padded, List.length_append, List.length_replicate]
  omega

/-- What the first part of `fragment` leaves, and the space it is given. -/
structure Claimed (pageSize : Nat) (page after : Page) (line : Nat) (given : Int) : Prop where
  kept : Kept pageSize page after [line]
  large : (rhdfSize : Int) ≤ given
  claimed : ∃ new, after.lines[line]? = some new ∧ new.offset ≠ 0 ∧ (new.length : Int) = given

/-- The space of a record and the free space of its page hold the record. -/
theorem Layout.roundup_le_available (layout : Layout pageSize page.lines)
    (found : page.lines[line]? = some old) (used : old.offset ≠ 0) :
    highWater page.lines.length + occupied (emptied page line old).lines + roundup old.length ≤
      pageSize := by
  have bound := layout.placed.occupied_le
  have index := layout.placed.index
  have change := occupied_set { old with length := 0 } found used used
  simp only [roundup_zero, Nat.add_zero] at change
  dsimp only [emptied]
  omega

theorem claimSpace_claimed (page_mod : pageSize % 4 = 0) (layout : Layout pageSize page.lines)
    (found : page.lines[line]? = some old) (used : old.offset ≠ 0) (padded : old.stub = false)
    {claim : Claim} (inside : ∀ field ∈ claim.patch, field.1 < rhdfSize) {available : Int}
    (available_eq : available = (pageSize : Int) - highWater page.lines.length -
      occupied (emptied page line old).lines) :
    ∃ after given, claimSpace pageSize (emptied page line old) line available old.length claim =
      .fragmented after given ∧ Claimed pageSize page after line given := by
  have less := (List.getElem?_eq_some_iff.mp found).1
  have old_sized := layout.sized old (List.mem_of_getElem? found)
  have old_large := old_sized.padded used padded
  have at_emptied : (emptied page line old).lines.getD line .unused = { old with length := 0 } := by
    rw [emptied, List.getD_eq_getElem?_getD, List.getElem?_set_self less]
    rfl
  have emptied_length : (emptied page line old).lines.length = page.lines.length := by
    rw [emptied, List.length_set]
  have enough := layout.roundup_le_available found used
  have old_rounded := le_roundup old.length
  cases claim with
  | keep patch =>
      refine ⟨_, _, rfl, ?_, by omega, ?_⟩
      · have lines_eq : ((emptied page line old).lines.set line
            { (emptied page line old).lines.getD line .unused with length := old.length }) =
              page.lines := by
          rw [at_emptied, emptied, List.set_set]
          exact set_of_getElem? found
        refine ⟨?_, fun index other => ?_⟩
        · dsimp only
          rw [lines_eq]
          exact layout
        · have different : index ≠ line := by simpa using other
          refine layout.placed.keeps_others found used (fun address outside => ?_) different
            fun other at_index _ => ?_
          · dsimp only
            rw [at_emptied]
            refine patchBytes_of_outside inside ?_
            dsimp only
            omega
          · dsimp only
            rw [lines_eq]
            exact at_index
      · refine ⟨old, ?_, used, rfl⟩
        dsimp only
        rw [at_emptied, emptied, List.set_set, List.getElem?_set_self less]
  | stub patch =>
      have some_space : 0 < highWater page.lines.length := by
        unfold highWater
        omega
      obtain ⟨space_eq, roomy⟩ := Roomy.of_compress (emptied page line old) page_mod
        (by omega)
      obtain ⟨room, room_eq⟩ : ∃ room, (compress pageSize (emptied page line old)).1 = room :=
        ⟨_, rfl⟩
      obtain ⟨space, space_def⟩ : ∃ space, (compress pageSize (emptied page line old)).2 = space :=
        ⟨_, rfl⟩
      rw [room_eq, space_def] at roomy
      rw [space_def] at space_eq
      have available_mod : roundup available.toNat = available.toNat := by
        have space_mod := roomy.space_mod
        unfold roundup
        unfold highWater at available_eq
        omega
      have start_eq : ((space : Int) - available).toNat = space - roundup available.toNat := by
        rw [available_mod]
        omega
      have new_start : ((space : Int) - available).toNat = highWater page.lines.length := by
        omega
      have available_pos : (rhdfSize : Int) ≤ available := by omega
      obtain ⟨after, after_eq⟩ : ∃ after : Page, after =
          { lines := room.lines.set line
              { offset := ((space : Int) - available).toNat, length := available.toNat,
                stub := false }
            bytes := patchBytes room.bytes ((space : Int) - available).toNat patch } := ⟨_, rfl⟩
      refine ⟨after, available, ?_, ?_, available_pos, ?_⟩
      · simp only [claimSpace, room_eq, space_def, after_eq]
      · rw [after_eq]
        refine roomy.replace
          { offset := ((space : Int) - available).toNat, length := available.toNat,
            stub := false }
          layout.sized found ?_ start_eq ?_ rfl fun address le => ?_
        · refine ⟨fun zero => ?_, fun _ => ?_, fun _ _ => ?_⟩
          · dsimp only at zero
            omega
          · unfold rhdfSize at available_pos
            dsimp only
            omega
          · dsimp only
            omega
        · dsimp only
          omega
        · refine patchBytes_of_outside inside (.inr ?_)
          omega
      · rw [after_eq]
        refine ⟨_, List.getElem?_set_self (by rw [roomy.length, emptied_length]; exact less), ?_, ?_⟩
        · dsimp only
          omega
        · dsimp only
          omega

/-- `DPM_update` replaces the record in a layout, or fragments it with enough space for a header when
the record it replaces is padded. -/
theorem update_kept (page_mod : pageSize % 4 = 0) (layout : Layout pageSize page.lines)
    (found : page.lines[line]? = some old) (used : old.offset ≠ 0) {record : Record} {claim : Claim}
    (inside : ∀ field ∈ claim.patch, field.1 < rhdfSize)
    (careful : old.stub = true → highWater page.lines.length +
      occupied (emptied page line old).lines + roundup record.padded.length ≤ pageSize) :
    (∃ after, update pageSize page line record claim = .stored after ∧
      Kept pageSize page after [line]) ∨
    ∃ after given, update pageSize page line record claim = .fragmented after given ∧
      Claimed pageSize page after line given := by
  have less := (List.getElem?_eq_some_iff.mp found).1
  have at_line : page.lines.getD line .unused = old := by
    rw [List.getD_eq_getElem?_getD, found]
    rfl
  have emptied_length : (emptied page line old).lines.length = page.lines.length := by
    rw [emptied, List.length_set]
  have update_eq : update pageSize page line record claim =
      if (roundup record.padded.length : Int) > (pageSize : Int) - highWater page.lines.length -
          occupied (emptied page line old).lines then
        claimSpace pageSize (emptied page line old) line ((pageSize : Int) -
          highWater page.lines.length - occupied (emptied page line old).lines) old.length claim
      else
        let room := if roundup record.padded.length + highWater page.lines.length >
            lowest pageSize (emptied page line old).lines then
          compress pageSize (emptied page line old)
        else (emptied page line old, lowest pageSize (emptied page line old).lines)
        let space := room.2 - roundup record.padded.length
        .stored
          { lines := room.1.lines.set line
              { offset := space, length := record.padded.length, stub := false }
            bytes := writeBytes room.1.bytes space record.padded } := by
    unfold update
    rw [at_line]
    rfl
  rw [update_eq]
  split
  · rename_i overfull
    refine .inr (claimSpace_claimed page_mod layout found used ?_ inside rfl)
    by_contra is_stub
    have fits := careful (by simpa using is_stub)
    omega
  · rename_i fits
    left
    have placed : Placed pageSize (emptied page line old).lines :=
      layout.placed.shrink found (Nat.zero_le _)
    obtain ⟨room, space, room_eq, roomy, needed⟩ :=
      makeRoom_spec (roundup record.padded.length + highWater page.lines.length) page_mod
        placed (by unfold highWater; omega) (by omega)
    rw [room_eq]
    refine ⟨_, rfl, ?_⟩
    have large := record.le_padded_length
    refine roomy.replace
      { offset := space - roundup record.padded.length, length := record.padded.length,
        stub := false }
      layout.sized found ?_ rfl ?_ rfl fun address le => ?_
    · refine ⟨fun zero => ?_, fun _ => ?_, fun _ _ => large⟩
      · unfold highWater at needed
        dsimp only at zero
        omega
      · unfold rhdfSize at large
        dsimp only
        omega
    · dsimp only
      omega
    · have rounded := le_roundup record.padded.length
      exact writeBytes_of_ge (by dsimp only; omega)

end Update

section Chain

variable {pageSize space : Nat} {page : Page} {line slot : Nat} {old : Line}

theorem chainOccupied_eq {lines : List Line} (sized : ∀ line ∈ lines, line.Sized) :
    chainOccupied lines = occupied lines := by
  induction lines with
  | nil => rfl
  | cons line lines inductive_hypothesis =>
      have rest := inductive_hypothesis fun other mem => sized other (List.mem_cons_of_mem _ mem)
      have line_sized := sized line List.mem_cons_self
      by_cases used : line.offset = 0
      · simp [chainOccupied, occupied, used, rest]
      · have header := line_sized.header used
        have filled : line.length ≠ 0 := by omega
        simp [chainOccupied, occupied, used, filled, rest]

theorem chainLowest_eq {lines : List Line} (sized : ∀ line ∈ lines, line.Sized) :
    chainLowest pageSize lines = lowest pageSize lines := by
  induction lines with
  | nil => rfl
  | cons line lines inductive_hypothesis =>
      have rest := inductive_hypothesis fun other mem => sized other (List.mem_cons_of_mem _ mem)
      have line_sized := sized line List.mem_cons_self
      by_cases used : line.offset = 0
      · simp [chainLowest, lowest, used, rest]
      · have header := line_sized.header used
        have filled : line.length ≠ 0 := by omega
        simp [chainLowest, lowest, used, filled, rest]

/-- The slot of a chained record is the next new one or has no record. -/
theorem chainSlot_spec {lines : List Line} (sized : ∀ line ∈ lines, line.Sized) :
    chainSlot lines ≤ lines.length ∧
      ∀ other, lines[chainSlot lines]? = some other → other.offset = 0 := by
  refine ⟨List.findIdx_le_length, fun other found => ?_⟩
  obtain ⟨less, equal⟩ := List.getElem?_eq_some_iff.mp found
  have empty : decide (lines[chainSlot lines].length = 0) = true :=
    @List.findIdx_getElem Line (fun line : Line => decide (line.length = 0)) lines less
  rw [decide_eq_true_iff] at empty
  by_contra used
  have header := (sized other (List.mem_of_getElem? found)).header used
  rw [equal] at empty
  omega

/-- A record moved to a line without one leaves the areas as they are. -/
theorem Gap.move {lines : List Line} (gap : Gap pageSize space lines)
    (found : lines[line]? = some old) (le : slot ≤ lines.length) (different : slot ≠ line) :
    Gap pageSize space ((setLine lines slot old).set line .unused) := by
  have cases_of : ∀ (i : Nat) (other : Line),
      ((setLine lines slot old).set line Line.unused)[i]? = some other → other.offset ≠ 0 →
      ∃ from_index, lines[from_index]? = some other ∧
        (i = slot ∧ from_index = line ∨ i ≠ slot ∧ from_index ≠ line ∧ from_index = i) := by
    intro i other at_index used
    by_cases at_line : i = line
    · subst at_line
      have unused : other = .unused := by
        rw [List.getElem?_set] at at_index
        simp only [if_true] at at_index
        split at at_index
        · exact (Option.some.inj at_index).symm
        · cases at_index
      rw [unused] at used
      exact absurd rfl used
    · rw [List.getElem?_set_ne (Ne.symm at_line)] at at_index
      by_cases at_slot : i = slot
      · subst at_slot
        rw [setLine_self lines old le] at at_index
        rw [← Option.some.inj at_index]
        exact ⟨line, found, .inl ⟨rfl, rfl⟩⟩
      · rw [setLine_ne lines old le at_slot] at at_index
        exact ⟨i, at_index, .inr ⟨at_slot, at_line, rfl⟩⟩
  refine ⟨fun i other at_index used => ?_,
    fun i j first second distinct at_first at_second first_used second_used => ?_⟩
  · obtain ⟨from_index, at_from, -⟩ := cases_of i other at_index used
    exact gap.above from_index other at_from used
  · obtain ⟨first_from, at_first_from, first_case⟩ := cases_of i first at_first first_used
    obtain ⟨second_from, at_second_from, second_case⟩ := cases_of j second at_second second_used
    have from_ne : first_from ≠ second_from := by omega
    exact gap.apart first_from second_from first second from_ne at_first_from at_second_from
      first_used second_used

theorem Record.chained_sized {record : Record} (header : 13 ≤ record.header.length) {offset : Nat}
    (offset_ne : offset ≠ 0) :
    Line.Sized
      { offset := offset, length := record.chained.length, stub := record.deleted } := by
  refine ⟨fun zero => absurd zero offset_ne, fun _ => ?_, fun _ padded => ?_⟩
  · unfold Record.chained
    split
    · dsimp only
      rw [List.length_append]
      omega
    · have large := record.le_padded_length
      unfold rhdfSize at large
      dsimp only
      omega
  · dsimp only at padded
    rw [Record.chained, if_neg (by simp [padded])]
    exact record.le_padded_length

/-- `DPM_chain` moves the old version to a slot without a record and puts the new one in its line. -/
theorem chain_kept (page_mod : pageSize % 4 = 0) (layout : Layout pageSize page.lines)
    (found : page.lines[line]? = some old) (used : old.offset ≠ 0) {record : Record}
    (header : 13 ≤ record.header.length) {after : Page} {taken : Nat}
    (chained : chain pageSize page line record = some (after, taken)) :
    Kept pageSize page after [line] := by
  obtain ⟨slot, slot_eq⟩ : ∃ slot, chainSlot page.lines = slot := ⟨_, rfl⟩
  obtain ⟨slot_le, slot_free⟩ := chainSlot_spec layout.sized
  obtain ⟨entry, entry_eq⟩ : ∃ entry, (if slot = page.lines.length then 4 else 0) = entry :=
    ⟨_, rfl⟩
  rw [slot_eq] at slot_le slot_free
  simp only [chain, slot_eq, entry_eq, chainOccupied_eq layout.sized,
    chainLowest_eq layout.sized] at chained
  split at chained
  · cases chained
  · split at chained
    · cases chained
    · rename_i fits
      have less := (List.getElem?_eq_some_iff.mp found).1
      have slot_ne : slot ≠ line := by
        rintro rfl
        exact used (slot_free old found)
      obtain ⟨room, space, room_eq, roomy, needed⟩ :=
        makeRoom_spec (roundup record.chained.length +
          (highWater page.lines.length + entry)) page_mod layout.placed
          (by unfold highWater; omega) (by omega)
      obtain ⟨offset, at_room, low, -, -, same_old⟩ := roomy.moved line old found used
      have at_line : room.lines.getD line .unused = { old with offset := offset } := by
        rw [List.getD_eq_getElem?_getD, at_room]
        rfl
      rw [room_eq, at_line] at chained
      dsimp only at chained
      obtain ⟨rfl, -⟩ := Prod.mk.inj (Option.some.inj chained)
      have space_pos : 0 < space := by
        unfold highWater at needed
        omega
      have slot_le_room : slot ≤ room.lines.length := by
        rw [roomy.length]
        exact slot_le
      have rounded := le_roundup record.chained.length
      have old_header := (layout.sized old (List.mem_of_getElem? found)).header used
      have old_rounded := le_roundup old.length
      have lines_eq : ∀ new : Line, (setLine room.lines slot { old with offset := offset }).set line
          new = setLine ((setLine room.lines slot { old with offset := offset }).set line .unused)
            line new := by
        intro new
        have room_length := length_setLine room.lines { old with offset := offset } slot_le_room
        have less_length : line <
            ((setLine room.lines slot { old with offset := offset }).set line .unused).length := by
          rw [List.length_set, room_length, roomy.length]
          split <;> omega
        unfold setLine at less_length ⊢
        rw [if_pos less_length, List.set_set]
      have count_eq : (setLine room.lines slot { old with offset := offset }).length =
          page.lines.length + entry / 4 := by
        rw [length_setLine _ _ slot_le_room, roomy.length, ← entry_eq]
        split <;> simp
      refine ⟨⟨?_, ?_⟩, fun index other => ?_⟩
      · dsimp only
        rw [lines_eq]
        refine (roomy.gap.move at_room slot_le_room slot_ne).place roomy.space_mod roomy.space_le ?_
          rfl ?_
        · rw [List.length_set, count_eq]
          omega
        · rw [← lines_eq, List.length_set, count_eq]
          dsimp only
          unfold highWater at needed ⊢
          rw [← entry_eq] at needed ⊢
          split at needed <;> split <;> omega
      · intro other mem
        obtain ⟨i, at_index⟩ := List.mem_iff_getElem?.mp mem
        by_cases same : i = line
        · subst same
          rw [List.getElem?_set_self (by rw [count_eq]; omega)] at at_index
          rw [← Option.some.inj at_index]
          refine Record.chained_sized header ?_
          unfold highWater at needed
          omega
        · rw [List.getElem?_set_ne (Ne.symm same)] at at_index
          by_cases at_slot : i = slot
          · subst at_slot
            rw [setLine_self _ _ slot_le_room] at at_index
            rw [← Option.some.inj at_index]
            have old_sized := layout.sized old (List.mem_of_getElem? found)
            exact ⟨fun zero => absurd zero (by dsimp only; omega), fun _ => old_sized.header used,
              fun _ => old_sized.padded used⟩
          · rw [setLine_ne _ _ slot_le_room at_slot] at at_index
            exact roomy.sized space_pos at_index fun before at_page =>
              layout.sized before (List.mem_of_getElem? at_page)
      · have different : index ≠ line := by simpa using other
        intro kept at_index kept_used
        have index_ne : index ≠ slot := by
          rintro rfl
          exact kept_used (slot_free kept at_index)
        obtain ⟨moved, at_moved, moved_low, -, -, same⟩ := roomy.moved index kept at_index kept_used
        have apart := roomy.apart index line _ _ different at_moved at_room
          (by dsimp only; omega) (by dsimp only; omega)
        simp only [Extent.Apart, Line.area] at apart
        have kept_rounded := le_roundup kept.length
        refine ⟨moved, by omega, ?_, fun distance less => ?_⟩
        · dsimp only
          rw [List.getElem?_set_ne (Ne.symm different), setLine_ne _ _ slot_le_room index_ne]
          exact at_moved
        · dsimp only
          rw [writeBytes_of_ge (by omega), Function.update_of_ne (by omega)]
          exact same distance (by omega)

end Chain

section Shrink

variable {pageSize : Nat} {page : Page} {line back : Nat} {old : Line}

/-- Lines that come from different lines of a layout form a layout. -/
theorem Placed.transfer {lines fewer : List Line} (placed : Placed pageSize lines)
    (le : fewer.length ≤ lines.length) (source : Nat → Nat)
    (found : ∀ (i : Nat) (line : Line), fewer[i]? = some line → line.offset ≠ 0 →
      lines[source i]? = some line)
    (different : ∀ (i j : Nat) (first second : Line), i ≠ j → fewer[i]? = some first →
      fewer[j]? = some second → first.offset ≠ 0 → second.offset ≠ 0 → source i ≠ source j) :
    Placed pageSize fewer := by
  have index : highWater fewer.length ≤ highWater lines.length := by
    unfold highWater
    omega
  refine ⟨index.trans placed.index, ?_, ?_, ?_⟩
  · intro line mem used
    obtain ⟨i, at_index⟩ := List.mem_iff_getElem?.mp mem
    exact placed.aligned line (List.mem_of_getElem? (found i line at_index used)) used
  · intro line mem used
    obtain ⟨i, at_index⟩ := List.mem_iff_getElem?.mp mem
    obtain ⟨low, high⟩ :=
      placed.within line (List.mem_of_getElem? (found i line at_index used)) used
    exact ⟨index.trans low, high⟩
  · intro i j first second distinct at_first at_second first_used second_used
    exact placed.apart _ _ first second
      (different i j first second distinct at_first at_second first_used second_used)
      (found i first at_first first_used) (found j second at_second second_used) first_used
      second_used

/-- Only lines that pass the test are dropped at the end. -/
theorem shrink_spec (test : Line → Bool) (lines : List Line) :
    ∃ dropped, lines = (lines.reverse.dropWhile test).reverse ++ dropped ∧
      ∀ line ∈ dropped, test line = true := by
  refine ⟨(lines.reverse.takeWhile test).reverse, ?_, fun line mem => ?_⟩
  · rw [← List.reverse_append, List.takeWhile_append_dropWhile, List.reverse_reverse]
  · exact List.mem_takeWhile_imp (List.mem_reverse.mp mem)

theorem shrink_getElem? (test : Line → Bool) {lines : List Line} {i : Nat} {found : Line}
    (at_index : (lines.reverse.dropWhile test).reverse[i]? = some found) :
    lines[i]? = some found := by
  obtain ⟨dropped, split, -⟩ := shrink_spec test lines
  rw [split, List.getElem?_append_left (List.getElem?_eq_some_iff.mp at_index).1]
  exact at_index

theorem shrink_keeps (test : Line → Bool) {lines : List Line} {i : Nat} {found : Line}
    (at_index : lines[i]? = some found) (fails : test found = false) :
    (lines.reverse.dropWhile test).reverse[i]? = some found := by
  obtain ⟨dropped, split, passed⟩ := shrink_spec test lines
  rw [split] at at_index
  by_cases less : i < (lines.reverse.dropWhile test).reverse.length
  · rwa [List.getElem?_append_left less] at at_index
  · rw [List.getElem?_append_right (by omega)] at at_index
    have holds := passed found (List.mem_of_getElem? at_index)
    rw [fails] at holds
    cases holds

theorem length_shrink_le (test : Line → Bool) (lines : List Line) :
    (lines.reverse.dropWhile test).reverse.length ≤ lines.length := by
  obtain ⟨dropped, split, -⟩ := shrink_spec test lines
  have length_eq := congrArg List.length split
  rw [List.length_append] at length_eq
  omega

/-- The second part of `fragment` writes inside the area that the first part was given. -/
theorem fillFragment_kept (layout : Layout pageSize page.lines)
    (found : page.lines[line]? = some old) (used : old.offset ≠ 0) (large : rhdfSize ≤ old.length)
    {patch : List (Nat × UInt8)} (inside : ∀ field ∈ patch, field.1 < rhdfSize)
    {packed : List UInt8} (fits : packed.length ≤ old.length - rhdfSize) :
    Kept pageSize page (fillFragment page line patch packed) [line] := by
  have at_line : page.lines.getD line .unused = old := by
    rw [List.getD_eq_getElem?_getD, found]
    rfl
  refine ⟨layout, fun index other => ?_⟩
  have different : index ≠ line := by simpa using other
  refine layout.placed.keeps_others found used (fun address outside => ?_) different
    fun _ at_index _ => at_index
  simp only [fillFragment, at_line]
  rcases outside with below | above
  · rw [writeBytes_of_lt (by omega), patchBytes_of_outside inside (.inl below)]
  · rw [writeBytes_of_ge (by omega), patchBytes_of_outside inside (.inr (by omega))]

/-- `DPM_backout` puts the back version into the line of the record. -/
theorem backout_kept (layout : Layout pageSize page.lines) {current : Line}
    (found : page.lines[line]? = some current) (at_back : page.lines[back]? = some old)
    (used : old.offset ≠ 0) (different : line ≠ back) :
    Kept pageSize page (backout page line back) [line, back] := by
  have line_less := (List.getElem?_eq_some_iff.mp found).1
  have back_eq : page.lines.getD back .unused = old := by
    rw [List.getD_eq_getElem?_getD, at_back]
    rfl
  have old_sized := layout.sized old (List.mem_of_getElem? at_back)
  have lines_eq : (backout page line back).lines =
      shrinkByLength ((page.lines.set line old).set back .unused) := by
    simp only [backout, back_eq]
  have swapped : ∀ (i : Nat) (other : Line), (backout page line back).lines[i]? = some other →
      other = .unused ∨ i = line ∧ other = old ∨
        i ≠ line ∧ i ≠ back ∧ page.lines[i]? = some other := by
    intro i other at_after
    rw [lines_eq] at at_after
    have at_index := shrink_getElem? _ at_after
    by_cases is_back : i = back
    · subst is_back
      rw [List.getElem?_set] at at_index
      simp only [if_true] at at_index
      split at at_index
      · exact .inl (Option.some.inj at_index).symm
      · cases at_index
    · rw [List.getElem?_set_ne (Ne.symm is_back)] at at_index
      by_cases is_line : i = line
      · subst is_line
        rw [List.getElem?_set_self line_less] at at_index
        exact .inr (.inl ⟨rfl, (Option.some.inj at_index).symm⟩)
      · rw [List.getElem?_set_ne (Ne.symm is_line)] at at_index
        exact .inr (.inr ⟨is_line, is_back, at_index⟩)
  refine ⟨⟨?_, ?_⟩, fun index other => ?_⟩
  · refine layout.placed.transfer ?_ (fun i => if i = line then back else i) ?_ ?_
    · rw [lines_eq]
      refine (length_shrink_le _ _).trans ?_
      rw [List.length_set, List.length_set]
    · intro i other at_index other_used
      rcases swapped i other at_index with rfl | ⟨rfl, rfl⟩ | ⟨is_line, -, at_page⟩
      · exact absurd rfl other_used
      · simp only [if_true]
        exact at_back
      · simp only [is_line, if_false]
        exact at_page
    · intro i j first second distinct at_first at_second first_used second_used
      rcases swapped i first at_first with rfl | ⟨rfl, -⟩ | ⟨i_line, i_back, -⟩
      · exact absurd rfl first_used
      · rcases swapped j second at_second with
          rfl | ⟨rfl, -⟩ | ⟨j_line, j_back, -⟩
        · exact absurd rfl second_used
        · exact absurd rfl distinct
        · simp only [if_true, j_line, if_false]
          exact Ne.symm j_back
      · rcases swapped j second at_second with rfl | ⟨rfl, -⟩ | ⟨j_line, -, -⟩
        · exact absurd rfl second_used
        · simp only [if_true, i_line, if_false]
          exact i_back
        · simp only [i_line, j_line, if_false]
          exact distinct
  · intro other mem
    obtain ⟨i, at_index⟩ := List.mem_iff_getElem?.mp mem
    rcases swapped i other at_index with rfl | ⟨-, rfl⟩ | ⟨-, -, at_page⟩
    · exact ⟨fun _ => rfl, fun used => absurd rfl used, fun used => absurd rfl used⟩
    · exact old_sized
    · exact layout.sized other (List.mem_of_getElem? at_page)
  · have apart : index ≠ line ∧ index ≠ back := by simpa using other
    have header := old_sized.header used
    refine layout.placed.keeps_others at_back used (fun address outside => ?_) apart.2
      fun kept at_index kept_used => ?_
    · simp only [backout, back_eq]
      rw [Function.update_of_ne (by omega), Function.update_of_ne (by omega)]
    · have kept_header := (layout.sized kept (List.mem_of_getElem? at_index)).header kept_used
      rw [lines_eq]
      refine shrink_keeps _ ?_ (by simp; omega)
      rw [List.getElem?_set_ne (Ne.symm apart.2), List.getElem?_set_ne (Ne.symm apart.1)]
      exact at_index

/-- `DPM_delete` empties one line. -/
theorem delete_kept (layout : Layout pageSize page.lines) :
    Kept pageSize page (delete page line) [line] := by
  have emptied_cases : ∀ (i : Nat) (other : Line),
      (page.lines.set line Line.unused)[i]? = some other →
      other = .unused ∨ page.lines[i]? = some other := by
    intro i other at_index
    by_cases is_line : i = line
    · subst is_line
      rw [List.getElem?_set] at at_index
      simp only [if_true] at at_index
      split at at_index
      · exact .inl (Option.some.inj at_index).symm
      · cases at_index
    · rw [List.getElem?_set_ne (Ne.symm is_line)] at at_index
      exact .inr at_index
  refine ⟨⟨?_, ?_⟩, fun index other => ?_⟩
  · refine layout.placed.transfer ?_ id ?_ fun _ _ _ _ distinct _ _ _ _ => distinct
    · refine (length_shrink_le _ _).trans ?_
      rw [List.length_set]
    · intro i other at_index other_used
      rcases emptied_cases i other (shrink_getElem? _ at_index) with rfl | at_page
      · exact absurd rfl other_used
      · exact at_page
  · intro other mem
    obtain ⟨i, at_index⟩ := List.mem_iff_getElem?.mp mem
    rcases emptied_cases i other (shrink_getElem? _ at_index) with rfl | at_page
    · exact ⟨fun _ => rfl, fun used => absurd rfl used, fun used => absurd rfl used⟩
    · exact layout.sized other (List.mem_of_getElem? at_page)
  · have different : index ≠ line := by simpa using other
    intro kept at_index used
    refine ⟨kept.offset, used, shrink_keeps _ ?_ (by simp [used]), fun _ _ => rfl⟩
    rw [List.getElem?_set_ne (Ne.symm different)]
    exact at_index

end Shrink

end LineArea
end Firebird
