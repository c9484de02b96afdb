import Firebird.Jrd.Dpm.LineArea

/-!
# Layouts of a data page

In a layout the areas of the used lines are aligned, apart from each other, above the line index and
inside the page.  Both ways to make room, the gap below the lowest area and `compress`, give a page
with the same records above a free gap.
-/

namespace Firebird
namespace LineArea

/-- The areas of the used lines. -/
structure Placed (pageSize : Nat) (lines : List Line) : Prop where
  index : highWater lines.length ≤ pageSize
  aligned : ∀ line ∈ lines, line.offset ≠ 0 → line.offset % 4 = 0
  within : ∀ line ∈ lines, line.offset ≠ 0 →
    line.area.Within (highWater lines.length) pageSize
  apart : ∀ (i j : Nat) (first second : Line), i ≠ j → lines[i]? = some first →
    lines[j]? = some second → first.offset ≠ 0 → second.offset ≠ 0 →
      first.area.Apart second.area

/-- The length of a record: only deleted stubs are shorter than a fragmented header. -/
structure Line.Sized (line : Line) : Prop where
  unused : line.offset = 0 → line.length = 0
  header : line.offset ≠ 0 → 13 ≤ line.length
  padded : line.offset ≠ 0 → line.stub = false → rhdfSize ≤ line.length

@[simp] theorem roundup_zero : roundup 0 = 0 := rfl

theorem le_roundup (n : Nat) : n ≤ roundup n := by
  unfold roundup
  omega

theorem roundup_mod (n : Nat) : roundup n % 4 = 0 := by
  unfold roundup
  omega

theorem roundup_mono {first second : Nat} (le : first ≤ second) :
    roundup first ≤ roundup second := by
  unfold roundup
  omega

theorem occupied_eq_sum (lines : List Line) :
    occupied lines = (((lines.filter fun line => line.offset ≠ 0).map Line.area).map
      Extent.size).sum := by
  induction lines with
  | nil => rfl
  | cons line lines inductive_hypothesis =>
      by_cases used : line.offset = 0
      · simp [occupied, used, inductive_hypothesis]
      · simp [occupied, used, inductive_hypothesis, Line.area]

section Placed

variable {pageSize : Nat} {lines : List Line}

/-- The used lines do not take more than the page has above the line index. -/
theorem Placed.occupied_le (placed : Placed pageSize lines) :
    occupied lines ≤ pageSize - highWater lines.length := by
  rw [occupied_eq_sum]
  refine Extent.sum_size_le ?_ ?_
  · intro area mem
    obtain ⟨line, line_mem, rfl⟩ := List.mem_map.mp mem
    obtain ⟨in_lines, used⟩ := List.mem_filter.mp line_mem
    exact placed.within line in_lines (by simpa using used)
  · have pairwise : lines.Pairwise fun first second =>
        first.offset ≠ 0 → second.offset ≠ 0 → first.area.Apart second.area := by
      rw [List.pairwise_iff_getElem]
      intro i j i_lt j_lt less first_used second_used
      exact placed.apart i j _ _ (Nat.ne_of_lt less) (List.getElem?_eq_getElem i_lt)
        (List.getElem?_eq_getElem j_lt) first_used second_used
    rw [List.pairwise_map, List.pairwise_filter]
    refine pairwise.imp ?_
    intro first second apart first_used second_used
    exact apart (by simpa using first_used) (by simpa using second_used)

theorem lowest_le (pageSize : Nat) {line : Line} (mem : line ∈ lines) (used : line.offset ≠ 0) :
    lowest pageSize lines ≤ line.offset := by
  induction lines with
  | nil => cases mem
  | cons first lines inductive_hypothesis =>
      unfold lowest
      rcases List.mem_cons.mp mem with rfl | mem
      · rw [if_pos used]
        exact min_le_left _ _
      · have le := inductive_hypothesis mem
        split
        · exact (min_le_right _ _).trans le
        · exact le

theorem lowest_le_pageSize (pageSize : Nat) (lines : List Line) :
    lowest pageSize lines ≤ pageSize := by
  induction lines with
  | nil => exact le_rfl
  | cons line lines inductive_hypothesis =>
      unfold lowest
      split
      · exact (min_le_right _ _).trans inductive_hypothesis
      · exact inductive_hypothesis

theorem lowest_mod (page_mod : pageSize % 4 = 0)
    (aligned : ∀ line ∈ lines, line.offset ≠ 0 → line.offset % 4 = 0) :
    lowest pageSize lines % 4 = 0 := by
  induction lines with
  | nil => exact page_mod
  | cons line lines inductive_hypothesis =>
      have rest := inductive_hypothesis fun other mem => aligned other (List.mem_cons_of_mem _ mem)
      unfold lowest
      split
      · rename_i used
        have first := aligned line List.mem_cons_self used
        rcases min_choice line.offset (lowest pageSize lines) with equal | equal <;> rw [equal]
        · exact first
        · exact rest
      · exact rest

end Placed

/-- A page with the same records above a free gap that ends at `space`. -/
structure Roomy (pageSize : Nat) (page room : Page) (space : Nat) : Prop where
  length : room.lines.length = page.lines.length
  space_mod : space % 4 = 0
  space_le : space ≤ pageSize
  unused : ∀ (i : Nat) (line : Line), page.lines[i]? = some line → line.offset = 0 →
    room.lines[i]? = some line
  moved : ∀ (i : Nat) (line : Line), page.lines[i]? = some line → line.offset ≠ 0 →
    ∃ offset, room.lines[i]? = some { line with offset := offset } ∧ space ≤ offset ∧
      offset % 4 = 0 ∧ offset + roundup line.length ≤ pageSize ∧
      ∀ index, index < roundup line.length →
        room.bytes (offset + index) = page.bytes (line.offset + index)
  apart : ∀ (i j : Nat) (first second : Line), i ≠ j → room.lines[i]? = some first →
    room.lines[j]? = some second → first.offset ≠ 0 → second.offset ≠ 0 →
      first.area.Apart second.area

/-- The gap below the lowest area. -/
theorem Roomy.of_lowest {pageSize : Nat} {page : Page} (page_mod : pageSize % 4 = 0)
    (placed : Placed pageSize page.lines) :
    Roomy pageSize page page (lowest pageSize page.lines) where
  length := rfl
  space_mod := lowest_mod page_mod placed.aligned
  space_le := lowest_le_pageSize pageSize page.lines
  unused _ _ found _ := found
  moved i line found used := by
    have mem := List.mem_of_getElem? found
    exact ⟨line.offset, found, lowest_le pageSize mem used, placed.aligned line mem used,
      (placed.within line mem used).2, fun index less => rfl⟩
  apart := placed.apart

section Compress

variable {bytes : Nat → UInt8}

/-- What `compressLoop` makes of the lines: they are moved below `start` one after the other. -/
theorem compressLoop_spec (bytes : Nat → UInt8) (lines : List Line) (start : Nat) (temp : Nat → UInt8)
    (fits : occupied lines < start) (start_mod : start % 4 = 0) :
    ∃ moved final, compressLoop bytes lines start temp = (moved, start - occupied lines, final) ∧
      moved.length = lines.length ∧
      (∀ address, start ≤ address → final address = temp address) ∧
      (∀ (i : Nat) (line : Line), lines[i]? = some line → line.offset = 0 →
        moved[i]? = some line) ∧
      (∀ (i : Nat) (line : Line), lines[i]? = some line → line.offset ≠ 0 →
        ∃ offset, moved[i]? = some { line with offset := offset } ∧
          start - occupied lines ≤ offset ∧ offset % 4 = 0 ∧
          offset + roundup line.length ≤ start ∧
          ∀ index, index < roundup line.length →
            final (offset + index) = bytes (line.offset + index)) ∧
      (∀ (i j : Nat) (first second : Line), i < j → moved[i]? = some first →
        moved[j]? = some second → first.offset ≠ 0 → second.offset ≠ 0 →
          second.offset + roundup second.length ≤ first.offset) := by
  induction lines generalizing start temp with
  | nil => exact ⟨[], temp, rfl, rfl, fun _ _ => rfl, by simp, by simp, by simp⟩
  | cons line lines inductive_hypothesis =>
      by_cases used : line.offset = 0
      · have occupied_eq : occupied (line :: lines) = occupied lines := by simp [occupied, used]
        rw [occupied_eq] at fits ⊢
        obtain ⟨moved, final, result, length, above, unused, placed, order⟩ :=
          inductive_hypothesis start temp fits start_mod
        refine ⟨line :: moved, final, ?_, by simp [length], above, ?_, ?_, ?_⟩
        · simp [compressLoop, used, result]
        · intro i other found zero
          cases i with
          | zero => exact found
          | succ i => exact unused i other found zero
        · intro i other found other_used
          cases i with
          | zero =>
              obtain rfl := Option.some.inj found
              exact absurd used other_used
          | succ i => exact placed i other found other_used
        · intro i j first second less found_first found_second first_used second_used
          cases j with
          | zero => omega
          | succ j =>
              cases i with
              | zero =>
                  obtain rfl := Option.some.inj found_first
                  exact absurd used first_used
              | succ i =>
                  exact order i j first second (by omega) found_first found_second first_used
                    second_used
      · have occupied_eq : occupied (line :: lines) = roundup line.length + occupied lines := by
          simp [occupied, used]
        rw [occupied_eq] at fits ⊢
        have line_mod := roundup_mod line.length
        obtain ⟨copied, copied_eq⟩ : ∃ copied : Nat → UInt8, copied = fun address =>
            if start - roundup line.length ≤ address ∧
                address < start - roundup line.length + roundup line.length then
              bytes (line.offset + (address - (start - roundup line.length)))
            else temp address := ⟨_, rfl⟩
        obtain ⟨moved, final, result, length, above, unused, placed, order⟩ :=
          inductive_hypothesis (start - roundup line.length) copied (by omega) (by omega)
        refine ⟨{ line with offset := start - roundup line.length } :: moved, final, ?_,
          by simp [length], ?_, ?_, ?_, ?_⟩
        · rw [copied_eq] at result
          simp only [compressLoop, ne_eq, used, not_false_eq_true, if_true, result, Nat.sub_sub]
        · intro address le
          rw [above address (by omega), copied_eq]
          exact if_neg (by omega)
        · intro i other found zero
          cases i with
          | zero =>
              obtain rfl := Option.some.inj found
              exact absurd zero used
          | succ i => exact unused i other found zero
        · intro i other found other_used
          cases i with
          | zero =>
              obtain rfl := Option.some.inj found
              refine ⟨start - roundup line.length, rfl, by omega, by omega, by omega, ?_⟩
              intro index less
              rw [above _ (by omega), copied_eq]
              have inside : start - roundup line.length ≤ start - roundup line.length + index ∧
                  start - roundup line.length + index <
                    start - roundup line.length + roundup line.length := by omega
              simp only [inside, and_self, if_true, Nat.add_sub_cancel_left]
          | succ i =>
              obtain ⟨offset, found_moved, low, aligned, high, same⟩ :=
                placed i other found other_used
              exact ⟨offset, found_moved, by omega, aligned, by omega, same⟩
        · intro i j first second less found_first found_second first_used second_used
          cases j with
          | zero => omega
          | succ j =>
              cases i with
              | zero =>
                  obtain rfl := Option.some.inj found_first
                  have found_second : moved[j]? = some second := found_second
                  have in_rest : j < lines.length := by
                    rw [← length]
                    exact (List.getElem?_eq_some_iff.mp found_second).1
                  have found_line := List.getElem?_eq_getElem in_rest
                  by_cases other_used : lines[j].offset = 0
                  · have same := unused j lines[j] found_line other_used
                    have equal := Option.some.inj (same.symm.trans found_second)
                    rw [← equal] at second_used
                    exact absurd other_used second_used
                  · obtain ⟨offset, found_moved, -, -, high, -⟩ :=
                      placed j lines[j] found_line other_used
                    have equal := Option.some.inj (found_moved.symm.trans found_second)
                    rw [← equal]
                    exact high
              | succ i =>
                  exact order i j first second (by omega) found_first found_second first_used
                    second_used

/-- The page and the gap that `compress` leaves. -/
theorem Roomy.of_compress {pageSize : Nat} (page : Page) (page_mod : pageSize % 4 = 0)
    (fits : occupied page.lines < pageSize) :
    (compress pageSize page).2 = pageSize - occupied page.lines ∧
      Roomy pageSize page (compress pageSize page).1 (compress pageSize page).2 := by
  obtain ⟨moved, final, result, length, -, unused, placed, order⟩ :=
    compressLoop_spec page.bytes page.lines pageSize page.bytes fits page_mod
  have space_eq : (compress pageSize page).2 = pageSize - occupied page.lines := by
    simp [compress, result]
  have lines_eq : (compress pageSize page).1.lines = moved := by
    simp [compress, result]
  refine ⟨space_eq, ?_⟩
  rw [space_eq]
  refine ⟨by rw [lines_eq, length], ?_, Nat.sub_le _ _, ?_, ?_, ?_⟩
  · have occupied_mod : occupied page.lines % 4 = 0 := by
      generalize page.lines = lines
      induction lines with
      | nil => rfl
      | cons line lines inductive_hypothesis =>
          have line_mod := roundup_mod line.length
          unfold occupied
          split <;> omega
    omega
  · intro i line found zero
    rw [lines_eq]
    exact unused i line found zero
  · intro i line found used
    obtain ⟨offset, found_moved, low, aligned, high, same⟩ := placed i line found used
    refine ⟨offset, by rw [lines_eq, found_moved], low, aligned, high, fun index less => ?_⟩
    have inside : pageSize - occupied page.lines ≤ offset + index ∧ offset + index < pageSize := by
      omega
    simp only [compress, result, inside, and_self, if_true]
    exact same index less
  · intro i j first second different found_first found_second first_used second_used
    rw [lines_eq] at found_first found_second
    rcases Nat.lt_or_gt_of_ne different with less | less
    · exact .inr (order i j first second less found_first found_second first_used second_used)
    · exact .inl (order j i second first less found_second found_first second_used first_used)

end Compress

end LineArea
end Firebird
