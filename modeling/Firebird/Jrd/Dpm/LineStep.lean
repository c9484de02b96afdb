import Firebird.Jrd.Dpm.LineLayout

/-!
# What one operation does to a layout

Every operation that stores a record puts it at the end of a free gap; the others write inside the
area of their own record.  So the layout stays one, and the bytes of every other record stay.
-/

namespace Firebird
namespace LineArea

/-- The areas of a page, with their lengths. -/
structure Layout (pageSize : Nat) (lines : List Line) : Prop where
  placed : Placed pageSize lines
  sized : ∀ line ∈ lines, line.Sized

/-- The record at a line has the same bytes, at the same place or moved as a whole. -/
def Keeps (page after : Page) (index : Nat) : Prop :=
  ∀ line, page.lines[index]? = some line → line.offset ≠ 0 →
    ∃ offset, offset ≠ 0 ∧ after.lines[index]? = some { line with offset := offset } ∧
      ∀ distance, distance < line.length →
        after.bytes (offset + distance) = page.bytes (line.offset + distance)

/-- What an operation leaves: a layout, and the records of the lines it is not about. -/
structure Kept (pageSize : Nat) (page after : Page) (targets : List Nat) : Prop where
  layout : Layout pageSize after.lines
  others : ∀ index, index ∉ targets → Keeps page after index

/-- Areas above a free gap. -/
structure Gap (pageSize space : Nat) (lines : List Line) : Prop where
  above : ∀ (i : Nat) (line : Line), lines[i]? = some line → line.offset ≠ 0 →
    space ≤ line.offset ∧ line.offset % 4 = 0 ∧ line.offset + roundup line.length ≤ pageSize
  apart : ∀ (i j : Nat) (first second : Line), i ≠ j → lines[i]? = some first →
    lines[j]? = some second → first.offset ≠ 0 → second.offset ≠ 0 →
      first.area.Apart second.area

section Bytes

variable {bytes : Nat → UInt8} {start address : Nat} {image : List UInt8}

theorem writeBytes_of_lt (less : address < start) :
    writeBytes bytes start image address = bytes address := by
  rw [writeBytes, if_neg (by omega)]

theorem writeBytes_of_ge (le : start + image.length ≤ address) :
    writeBytes bytes start image address = bytes address := by
  rw [writeBytes, if_pos (by omega), List.getD_eq_getElem?_getD, List.getElem?_eq_none (by omega)]
  rfl

theorem patchBytes_of_outside {patch : List (Nat × UInt8)} {limit : Nat}
    (inside : ∀ field ∈ patch, field.1 < limit)
    (outside : address < start ∨ start + limit ≤ address) :
    patchBytes bytes start patch address = bytes address := by
  induction patch generalizing bytes with
  | nil => rfl
  | cons field patch inductive_hypothesis =>
      have field_inside := inside field List.mem_cons_self
      have rest := @inductive_hypothesis (Function.update bytes (start + field.1) field.2)
        fun other mem => inside other (List.mem_cons_of_mem _ mem)
      rw [patchBytes, List.foldl_cons]
      rw [patchBytes] at rest
      rw [rest, Function.update_of_ne (by omega)]

end Bytes

section Lines

variable {pageSize space slot : Nat} {page room : Page} {lines : List Line} {new : Line}

theorem length_setLine (lines : List Line) (new : Line) (le : slot ≤ lines.length) :
    (setLine lines slot new).length = if slot = lines.length then lines.length + 1
      else lines.length := by
  unfold setLine
  split
  · rw [if_neg (by omega), List.length_set]
  · rw [if_pos (by omega), List.length_append, List.length_singleton]

theorem setLine_self (lines : List Line) (new : Line) (le : slot ≤ lines.length) :
    (setLine lines slot new)[slot]? = some new := by
  unfold setLine
  split
  · rename_i less
    exact List.getElem?_set_self less
  · have equal : slot = lines.length := by omega
    rw [equal]
    simp

theorem setLine_ne (lines : List Line) (new : Line) (le : slot ≤ lines.length) {index : Nat}
    (different : index ≠ slot) : (setLine lines slot new)[index]? = lines[index]? := by
  unfold setLine
  split
  · exact List.getElem?_set_ne (Ne.symm different)
  · have equal : slot = lines.length := by omega
    rcases Nat.lt_or_ge index lines.length with less | ge
    · rw [List.getElem?_append_left less]
    · rw [List.getElem?_append_right ge, List.getElem?_eq_none ge]
      exact List.getElem?_eq_none (by simp; omega)

theorem Roomy.gap (roomy : Roomy pageSize page room space) : Gap pageSize space room.lines := by
  refine ⟨fun i line found used => ?_, roomy.apart⟩
  have in_page : i < page.lines.length := by
    rw [← roomy.length]
    exact (List.getElem?_eq_some_iff.mp found).1
  have found_page := List.getElem?_eq_getElem in_page
  by_cases zero : page.lines[i].offset = 0
  · have same := roomy.unused i _ found_page zero
    have equal := Option.some.inj (same.symm.trans found)
    rw [← equal] at used
    exact absurd zero used
  · obtain ⟨offset, moved, low, aligned, high, -⟩ := roomy.moved i _ found_page zero
    have equal := Option.some.inj (moved.symm.trans found)
    rw [← equal]
    exact ⟨low, aligned, high⟩

/-- Making room keeps the length of every record. -/
theorem Roomy.sized (roomy : Roomy pageSize page room space) (space_pos : 0 < space) {i : Nat}
    {line : Line} (found : room.lines[i]? = some line)
    (sized : ∀ old, page.lines[i]? = some old → old.Sized) : line.Sized := by
  have in_page : i < page.lines.length := by
    rw [← roomy.length]
    exact (List.getElem?_eq_some_iff.mp found).1
  have found_page := List.getElem?_eq_getElem in_page
  have old_sized := sized _ found_page
  by_cases zero : page.lines[i].offset = 0
  · have same := roomy.unused i _ found_page zero
    rw [← Option.some.inj (same.symm.trans found)]
    exact old_sized
  · obtain ⟨offset, moved, low, -, -, -⟩ := roomy.moved i _ found_page zero
    rw [← Option.some.inj (moved.symm.trans found)]
    have offset_ne : offset ≠ 0 := by omega
    exact ⟨fun zero => absurd zero offset_ne, fun _ => old_sized.header zero,
      fun _ => old_sized.padded zero⟩

/-- A line without a record takes part in no layout. -/
theorem Gap.set_unused (gap : Gap pageSize space lines) (index : Nat) :
    Gap pageSize space (lines.set index .unused) := by
  have back : ∀ (i : Nat) (line : Line), (lines.set index Line.unused)[i]? = some line →
      line.offset ≠ 0 → lines[i]? = some line := by
    intro i line found used
    by_cases same : i = index
    · subst same
      rw [List.getElem?_set] at found
      simp only [if_true] at found
      split at found
      · rw [← Option.some.inj found] at used
        exact absurd rfl used
      · cases found
    · rwa [List.getElem?_set_ne (Ne.symm same)] at found
  exact ⟨fun i line found used => gap.above i line (back i line found used) used,
    fun i j first second different found_first found_second first_used second_used =>
      gap.apart i j first second different (back i first found_first first_used)
        (back j second found_second second_used) first_used second_used⟩

/-- A record that takes the end of the gap joins the layout. -/
theorem Gap.place (gap : Gap pageSize space lines) (space_mod : space % 4 = 0)
    (space_le : space ≤ pageSize) (le : slot ≤ lines.length)
    (offset_eq : new.offset = space - roundup new.length)
    (fits : highWater (setLine lines slot new).length + roundup new.length ≤ space) :
    Placed pageSize (setLine lines slot new) := by
  have length_mod := roundup_mod new.length
  have below : new.offset + roundup new.length = space := by omega
  have cases_of : ∀ (i : Nat) (line : Line), (setLine lines slot new)[i]? = some line →
      i = slot ∧ line = new ∨ i ≠ slot ∧ lines[i]? = some line := by
    intro i line found
    by_cases same : i = slot
    · subst same
      rw [setLine_self lines new le] at found
      exact .inl ⟨rfl, (Option.some.inj found).symm⟩
    · rw [setLine_ne lines new le same] at found
      exact .inr ⟨same, found⟩
  refine ⟨by omega, ?_, ?_, ?_⟩
  · intro line mem used
    obtain ⟨i, found⟩ := List.mem_iff_getElem?.mp mem
    rcases cases_of i line found with ⟨-, rfl⟩ | ⟨-, found⟩
    · omega
    · exact (gap.above i line found used).2.1
  · intro line mem used
    obtain ⟨i, found⟩ := List.mem_iff_getElem?.mp mem
    rcases cases_of i line found with ⟨-, rfl⟩ | ⟨-, found⟩
    · refine ⟨?_, ?_⟩
      · change highWater _ ≤ line.offset
        omega
      · change line.offset + roundup line.length ≤ pageSize
        omega
    · obtain ⟨low, -, high⟩ := gap.above i line found used
      refine ⟨?_, high⟩
      change highWater _ ≤ line.offset
      omega
  · intro i j first second different found_first found_second first_used second_used
    rcases cases_of i first found_first with ⟨rfl, rfl⟩ | ⟨-, old_first⟩
    · rcases cases_of j second found_second with ⟨rfl, -⟩ | ⟨-, old_second⟩
      · exact absurd rfl different
      · have low := (gap.above j second old_second second_used).1
        refine .inl ?_
        change first.offset + roundup first.length ≤ second.offset
        omega
    · rcases cases_of j second found_second with ⟨rfl, rfl⟩ | ⟨-, old_second⟩
      · have low := (gap.above i first old_first first_used).1
        refine .inr ?_
        change second.offset + roundup second.length ≤ first.offset
        omega
      · exact gap.apart i j first second different old_first old_second first_used second_used

/-- Bytes written below the gap's end leave every moved record as it was. -/
theorem Roomy.keeps (roomy : Roomy pageSize page room space) (space_pos : 0 < space) {after : Page}
    {index : Nat} (same_line : ∀ line, room.lines[index]? = some line → line.offset ≠ 0 →
      after.lines[index]? = some line)
    (same_bytes : ∀ address, space ≤ address → after.bytes address = room.bytes address) :
    Keeps page after index := by
  intro line found used
  obtain ⟨offset, moved, low, -, -, same⟩ := roomy.moved index line found used
  refine ⟨offset, by omega, same_line _ moved (by simp only [ne_eq]; omega),
    fun distance less => ?_⟩
  rw [same_bytes _ (by omega)]
  exact same distance (lt_of_lt_of_le less (le_roundup _))

end Lines

end LineArea
end Firebird
