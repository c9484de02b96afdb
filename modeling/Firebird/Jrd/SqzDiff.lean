import Mathlib
import Firebird.Jrd.Sqz
import Firebird.Library.Overwrite

/-!
# Record differences

The model of `Compressor::makeDiff`, `makeNoDiff` and `applyDiff` from `jrd/sqz.cpp`.  A differences
string is a sequence of control bytes: a positive one is followed by as many bytes that replace
those of the record, a negative one leaves as many bytes of the record as they are.
-/

namespace Firebird
namespace Compressor

open Overwrite (Edit Produces)

/-- `MAX_DIFFERENCES`, the longest differences string the engine stores. -/
def maxDifferences : Nat := 1024

/-! ## Applying a differences string -/

/-- The loop of `applyDiff` and the check behind it, from the position `p` of the output. -/
def applyLoop (differences : List UInt8) (p : Nat) (output : List UInt8) :
    Except Fault (List UInt8 × Nat) :=
  match differences with
  | [] => if output.length < p then .error (.bugcheck 177) else .ok (output, p)
  | control :: differences =>
      if p < output.length then
        let l := signedChar control
        if 0 < l then
          if output.length < p + l.toNat then
            .error (.bugcheck 177)
          else if differences.length < l.toNat then
            .error (.bugcheck 176)
          else
            applyLoop (differences.drop l.toNat) (p + l.toNat)
              (output.take p ++ differences.take l.toNat ++ output.drop (p + l.toNat))
        else
          applyLoop differences (p + (-l).toNat) output
      else
        .error (.bugcheck 177)
termination_by differences.length

/-- `applyDiff`: the record area after the differences, and the length of the new record. -/
def applyDiff (differences output : List UInt8) : Except Fault (List UInt8 × Nat) :=
  if maxDifferences < differences.length then
    .error (.bugcheck 176)
  else
    applyLoop differences 0 output

/-! ## Computing a differences string -/

/-- The output area of `makeDiff` with the position that is written next. -/
structure OutputArea where
  /-- The bytes of the area. -/
  area : List UInt8
  /-- `output`, counted from the start of the area. -/
  output : Nat
  deriving DecidableEq, Repr

namespace OutputArea

/-- `STUFF(val)`; no result stands for `return MAX_ULONG`. -/
def stuff (out : OutputArea) (val : UInt8) : Option OutputArea :=
  if out.output < out.area.length then
    some ⟨out.area.set out.output val, out.output + 1⟩
  else
    none

/-- `output++` without a write, which reserves the place of a control byte. -/
def advance (out : OutputArea) : OutputArea := ⟨out.area, out.output + 1⟩

/-- `*p = val` at a reserved place. -/
def store (out : OutputArea) (p : Nat) (val : UInt8) : Except Fault OutputArea :=
  if p < out.area.length then .ok ⟨out.area.set p val, out.output⟩ else .error .outOfBounds

end OutputArea

/-- The loop that copies bytes of `rec2` while they, or the bytes behind them, differ; `left` bytes
remain up to `yellow`. -/
def stuffDifferent (left : Nat) (rec1 rec2 : List UInt8) (out : OutputArea) :
    Option (OutputArea × List UInt8 × List UInt8) :=
  match left, rec1, rec2 with
  | left + 1, byte1 :: rec1, byte2 :: rec2 =>
      if byte1 ≠ byte2 ∨ (0 < left ∧ rec1.head? ≠ rec2.head?) then
        match out.stuff byte2 with
        | none => none
        | some out => stuffDifferent left rec1 rec2 out
      else
        some (out, byte1 :: rec1, byte2 :: rec2)
  | _, rec1, rec2 => some (out, rec1, rec2)

/-- The number of bytes in front that are equal in both records. -/
def equalRun : List UInt8 → List UInt8 → Nat
  | byte1 :: rec1, byte2 :: rec2 => if byte1 = byte2 then equalRun rec1 rec2 + 1 else 0
  | _, _ => 0

/-- The control bytes for `count` equal bytes, at most 127 each. -/
def stuffEqual (count : Nat) (out : OutputArea) : Option OutputArea :=
  if 127 < count then
    match out.stuff (UInt8.ofNat (256 - 127)) with
    | none => none
    | some out => stuffEqual (count - 127) out
  else if count = 0 then
    some out
  else
    out.stuff (UInt8.ofNat (256 - count))
termination_by count
decreasing_by omega

/-- The loop that copies all `bytes`. -/
def stuffAll : List UInt8 → OutputArea → Option OutputArea
  | [], out => some out
  | byte :: bytes, out =>
      match out.stuff byte with
      | none => none
      | some out => stuffAll bytes out

theorem stuffDifferent_shorter {left : Nat} {rec1 rec2 rest1 rest2 : List UInt8}
    {out copied : OutputArea}
    (result : stuffDifferent left rec1 rec2 out = some (copied, rest1, rest2)) :
    rest1.length ≤ rec1.length := by
  induction left, rec1, rec2, out using stuffDifferent.induct with
  | case1 out left byte1 rec1 byte2 rec2 differ full => simp [stuffDifferent, differ, full] at result
  | case2 out left byte1 rec1 byte2 rec2 differ next stuffed ih =>
      rw [stuffDifferent, if_pos differ, stuffed] at result
      exact Nat.le_trans (ih result) (Nat.le_succ _)
  | case3 out left byte1 rec1 byte2 rec2 equal =>
      rw [stuffDifferent, if_neg equal] at result
      simp only [Option.some.injEq, Prod.mk.injEq] at result
      obtain ⟨-, rfl, -⟩ := result
      exact Nat.le_refl _
  | case4 out left rec1 rec2 stop =>
      rw [stuffDifferent] at result
      · simp only [Option.some.injEq, Prod.mk.injEq] at result
        obtain ⟨-, rfl, -⟩ := result
        exact Nat.le_refl _
      · exact stop

/-- In front of a difference at least one byte is copied. -/
theorem stuffDifferent_lt {rec1 rec2 rest1 rest2 : List UInt8} {out copied : OutputArea}
    (long : 2 < rec1.length) (differ : rec1[0]? ≠ rec2[0]? ∨ rec1[1]? ≠ rec2[1]?)
    (result : stuffDifferent (min rec1.length 127) rec1 rec2 out = some (copied, rest1, rest2))
    (within : rec1.length ≤ rec2.length) : rest1.length < rec1.length := by
  obtain ⟨left, left_eq⟩ : ∃ left, min rec1.length 127 = left + 2 :=
    Nat.exists_eq_add_of_le' (by omega)
  rw [left_eq] at result
  cases rec1 with
  | nil => simp at long
  | cons byte1 rec1 =>
      cases rec2 with
      | nil => simp at within
      | cons byte2 rec2 =>
          have found : byte1 ≠ byte2 ∨ (0 < left + 1 ∧ rec1.head? ≠ rec2.head?) := by
            simpa [List.head?_eq_getElem?] using differ
          rw [stuffDifferent, if_pos found] at result
          cases stuffed : out.stuff byte2 with
          | none => simp [stuffed] at result
          | some next =>
              rw [stuffed] at result
              exact Nat.lt_succ_of_le (stuffDifferent_shorter result)

theorem equalRun_pos {rec1 rec2 : List UInt8} (nonempty : 0 < rec1.length)
    (equal : rec1[0]? = rec2[0]?) : 0 < equalRun rec1 rec2 := by
  cases rec1 with
  | nil => simp at nonempty
  | cons byte1 rec1 =>
      cases rec2 with
      | nil => simp at equal
      | cons byte2 rec2 =>
          have heads : byte1 = byte2 := by simpa using equal
          rw [equalRun, if_pos heads]
          exact Nat.succ_pos _

/-- The main loop of `makeDiff`: `rec1` is what remains of the part the records have in common, and
the bytes of `rec2` it leaves are returned. -/
def diffLoop (rec1 rec2 : List UInt8) (out : OutputArea) :
    Except Fault (Option (OutputArea × List UInt8)) :=
  if 2 < rec1.length then
    if rec1.length ≤ rec2.length then
      if rec1[0]? ≠ rec2[0]? ∨ rec1[1]? ≠ rec2[1]? then
        match _ : stuffDifferent (min rec1.length 127) rec1 rec2 out.advance with
        | none => .ok none
        | some (next, rest1, rest2) =>
            match next.store out.output (UInt8.ofNat (next.output - out.output - 1)) with
            | .error fault => .error fault
            | .ok next => diffLoop rest1 rest2 next
      else
        let l := equalRun rec1 rec2
        match stuffEqual l out with
        | none => .ok none
        | some out => diffLoop (rec1.drop l) (rec2.drop l) out
    else
      .error .outOfBounds
  else
    .ok (some (out, rec2))
termination_by rec1.length
decreasing_by
  · exact stuffDifferent_lt ‹2 < rec1.length› ‹_ ∨ _› ‹_ = some _› ‹rec1.length ≤ rec2.length›
  · have positive := @equalRun_pos rec1 rec2 (by omega) (by tauto)
    rw [List.length_drop]
    omega

/-- The last loop of `makeDiff`, which copies the bytes that remain of `rec2`. -/
def tailLoop (rec2 : List UInt8) (out : OutputArea) : Except Fault (Option OutputArea) :=
  match rec2 with
  | [] => .ok (some out)
  | byte :: rest =>
      match stuffAll ((byte :: rest).take 127) out.advance with
      | none => .ok none
      | some next =>
          match next.store out.output (UInt8.ofNat (next.output - out.output - 1)) with
          | .error fault => .error fault
          | .ok next => tailLoop (rest.drop 126) next
termination_by rec2.length
decreasing_by
  simp only [List.length_drop, List.length_cons]
  omega

/-- `makeDiff`: the output area and the length of the differences string in it; there is no result
when the string does not fit. -/
def makeDiff (rec1 rec2 area : List UInt8) : Except Fault (Option OutputArea) :=
  match diffLoop (rec1.take rec2.length) rec2 ⟨area, 0⟩ with
  | .error fault => .error fault
  | .ok none => .ok none
  | .ok (some (out, rest)) => tailLoop rest out

/-- `makeNoDiff`: the differences string that marks `outLength` equal bytes. -/
def makeNoDiff (outLength : Nat) : List UInt8 :=
  if 127 < outLength then
    UInt8.ofNat (256 - 127) :: makeNoDiff (outLength - 127)
  else if outLength = 0 then
    []
  else
    [UInt8.ofNat (256 - outLength)]
termination_by outLength
decreasing_by omega

/-! ## Differences strings as edit scripts -/

/-- The part of a differences string that stands for one edit. -/
def difference : Edit UInt8 → List UInt8
  | .keep count => [UInt8.ofNat (256 - count)]
  | .put elements => UInt8.ofNat elements.length :: elements

/-- The differences string of a script. -/
def differences (script : List (Edit UInt8)) : List UInt8 := script.flatMap difference

@[simp] theorem differences_nil : differences [] = [] := rfl

@[simp] theorem differences_cons (edit : Edit UInt8) (script : List (Edit UInt8)) :
    differences (edit :: script) = difference edit ++ differences script := rfl

@[simp] theorem differences_append (left right : List (Edit UInt8)) :
    differences (left ++ right) = differences left ++ differences right := by
  simp [differences]

/-- Control bytes name runs of one to 127 bytes. -/
def Short (script : List (Edit UInt8)) : Prop :=
  ∀ edit ∈ script, 0 < edit.span ∧ edit.span ≤ 127

theorem Short.cons {edit : Edit UInt8} {script : List (Edit UInt8)} (positive : 0 < edit.span)
    (small : edit.span ≤ 127) (later : Short script) : Short (edit :: script) := by
  intro member found
  rcases List.mem_cons.mp found with rfl | found
  · exact ⟨positive, small⟩
  · exact later member found

theorem Short.append {left right : List (Edit UInt8)} (front : Short left) (later : Short right) :
    Short (left ++ right) := by
  intro edit member
  rcases List.mem_append.mp member with member | member
  · exact front edit member
  · exact later edit member

/-- `applyDiff` of the differences string of a script that fits carries the script out. -/
theorem applyLoop_differences {script : List (Edit UInt8)} (short : Short script) (p : Nat)
    (output : List UInt8) (room : p + Overwrite.span script ≤ output.length) :
    applyLoop (differences script) p output =
      .ok (output.take p ++ Overwrite.apply script (output.drop p),
        p + Overwrite.span script) := by
  induction script generalizing p output with
  | nil =>
      rw [Overwrite.span_nil, Nat.add_zero] at room
      rw [differences_nil, applyLoop, if_neg (Nat.not_lt.mpr room), Overwrite.apply,
        List.take_append_drop]
      rfl
  | cons edit script ih =>
      obtain ⟨positive, small⟩ := short edit List.mem_cons_self
      have later : Short script := fun member found => short member (List.mem_cons_of_mem _ found)
      rw [Overwrite.span_cons] at room ⊢
      rw [differences_cons, Overwrite.apply]
      cases edit with
      | keep count =>
          simp only [Edit.span] at positive small room ⊢
          have value : signedChar (UInt8.ofNat (256 - count)) = -(count : Int) :=
            signedChar_neg positive (by omega)
          rw [difference, List.singleton_append, applyLoop]
          simp only [value]
          rw [if_pos (by omega), if_neg (by omega), Int.neg_neg, Int.toNat_natCast,
            ih later (p + count) output (by omega), List.take_add, List.drop_drop, Edit.image,
            List.append_assoc, Nat.add_assoc]
      | put elements =>
          simp only [Edit.span] at positive small room ⊢
          have value : signedChar (UInt8.ofNat elements.length) = elements.length :=
            signedChar_ofNat (by omega)
          rw [difference, List.cons_append, applyLoop]
          simp only [value, Int.toNat_natCast]
          rw [if_pos (by omega), if_pos (by omega), if_neg (by omega),
            if_neg (by rw [List.length_append]; omega), List.take_left, List.drop_left]
          have front : (output.take p ++ elements).length = p + elements.length := by
            rw [List.length_append, List.length_take, Nat.min_eq_left (by omega)]
          have size : (output.take p ++ elements ++ output.drop (p + elements.length)).length =
              output.length := by
            rw [List.length_append, front, List.length_drop]
            omega
          rw [ih later _ _ (by rw [size]; omega), ← front, List.take_left, List.drop_left, front,
            List.drop_drop, Edit.image, List.append_assoc, Nat.add_assoc]

/-! ## What the loops write -/

/-- The area `after` is `before` with `bytes` written at its position. -/
structure Stuffed (before : OutputArea) (bytes : List UInt8) (after : OutputArea) : Prop where
  size : after.area.length = before.area.length
  position : after.output = before.output + bytes.length
  room : bytes ≠ [] → after.output ≤ before.area.length
  written : after.area.take after.output = before.area.take before.output ++ bytes

namespace Stuffed

theorem refl (out : OutputArea) : Stuffed out [] out :=
  ⟨rfl, rfl, fun nonempty => absurd rfl nonempty, (List.append_nil _).symm⟩

theorem trans {before middle after : OutputArea} {front back : List UInt8}
    (first : Stuffed before front middle) (second : Stuffed middle back after) :
    Stuffed before (front ++ back) after := by
  refine ⟨second.size.trans first.size, ?_, ?_, ?_⟩
  · rw [second.position, first.position, List.length_append, Nat.add_assoc]
  · intro nonempty
    cases back with
    | nil =>
        rw [List.append_nil] at nonempty
        rw [second.position]
        exact first.room nonempty
    | cons byte back =>
        rw [← first.size]
        exact second.room (List.cons_ne_nil _ _)
  · rw [second.written, first.written, List.append_assoc]

theorem output_le {area bytes : List UInt8} {after : OutputArea}
    (stuffed : Stuffed ⟨area, 0⟩ bytes after) : after.output ≤ area.length := by
  by_cases empty : bytes = []
  · rw [stuffed.position, empty]
    exact Nat.zero_le _
  · exact stuffed.room empty

theorem of_stuff {out after : OutputArea} {val : UInt8} (stuffed : out.stuff val = some after) :
    Stuffed out [val] after := by
  rw [OutputArea.stuff] at stuffed
  split at stuffed
  case isTrue room =>
      obtain rfl := Option.some.inj stuffed
      refine ⟨List.length_set, rfl, fun _ => room, ?_⟩
      rw [List.take_add_one, List.take_set_of_le (Nat.le_refl _), List.getElem?_set_self room]
      rfl
  case isFalse full => exact absurd stuffed (Option.some_ne_none after).symm

/-- Filling in the control byte in front of the bytes that were copied behind it. -/
theorem store {out copied : OutputArea} {bytes : List UInt8}
    (stuffed : Stuffed out.advance bytes copied) (nonempty : bytes ≠ []) :
    ∃ after, copied.store out.output (UInt8.ofNat (copied.output - out.output - 1)) = .ok after ∧
      Stuffed out (difference (.put bytes)) after := by
  have position : copied.output = out.output + 1 + bytes.length := stuffed.position
  have room : copied.output ≤ out.area.length := stuffed.room nonempty
  have size : copied.area.length = out.area.length := stuffed.size
  have written := stuffed.written
  rw [OutputArea.store, if_pos (by omega)]
  refine ⟨_, rfl, List.length_set.trans size, ?_, fun _ => room, ?_⟩
  · rw [difference, List.length_cons]
    change copied.output = _
    omega
  · have reserved : out.output < out.area.length := by omega
    have front : (out.area.take out.output).length = out.output := by
      rw [List.length_take, Nat.min_eq_left (Nat.le_of_lt reserved)]
    change (copied.area.set out.output _).take copied.output = _
    rw [List.take_set, written]
    change ((out.area.take (out.output + 1)) ++ bytes).set out.output _ = _
    rw [List.take_add_one, List.getElem?_eq_getElem reserved, Option.toList_some,
      List.append_assoc, List.set_append_right _ _ (by omega), front, Nat.sub_self, difference,
      show copied.output - out.output - 1 = bytes.length by omega]
    rfl

end Stuffed

theorem stuffed_of_stuffAll {bytes : List UInt8} {out after : OutputArea}
    (stuffed : stuffAll bytes out = some after) : Stuffed out bytes after := by
  induction bytes generalizing out with
  | nil =>
      obtain rfl := Option.some.inj stuffed
      exact Stuffed.refl out
  | cons byte bytes ih =>
      rw [stuffAll] at stuffed
      cases first : out.stuff byte with
      | none => simp [first] at stuffed
      | some next =>
          rw [first] at stuffed
          exact (Stuffed.of_stuff first).trans (ih stuffed)

/-- The copying loop takes as many bytes of both records and copies those of `rec2`. -/
theorem stuffed_of_stuffDifferent {left : Nat} {rec1 rec2 rest1 rest2 : List UInt8}
    {out after : OutputArea}
    (stuffed : stuffDifferent left rec1 rec2 out = some (after, rest1, rest2)) :
    ∃ copied, rec2 = copied ++ rest2 ∧ rest1 = rec1.drop copied.length ∧ copied.length ≤ left ∧
      copied.length ≤ rec1.length ∧ Stuffed out copied after := by
  induction left, rec1, rec2, out using stuffDifferent.induct with
  | case1 out left byte1 rec1 byte2 rec2 differ full =>
      simp [stuffDifferent, differ, full] at stuffed
  | case2 out left byte1 rec1 byte2 rec2 differ next first ih =>
      rw [stuffDifferent, if_pos differ, first] at stuffed
      obtain ⟨copied, rfl, rest_eq, short, within, later⟩ := ih stuffed
      refine ⟨byte2 :: copied, rfl, by simpa using rest_eq, ?_, ?_, ?_⟩
      · exact Nat.succ_le_succ short
      · exact Nat.succ_le_succ within
      · exact (Stuffed.of_stuff first).trans later
  | case3 out left byte1 rec1 byte2 rec2 equal =>
      rw [stuffDifferent, if_neg equal] at stuffed
      simp only [Option.some.injEq, Prod.mk.injEq] at stuffed
      obtain ⟨rfl, rfl, rfl⟩ := stuffed
      exact ⟨[], rfl, rfl, Nat.zero_le _, Nat.zero_le _, Stuffed.refl _⟩
  | case4 out left rec1 rec2 stop =>
      rw [stuffDifferent] at stuffed
      · simp only [Option.some.injEq, Prod.mk.injEq] at stuffed
        obtain ⟨rfl, rfl, rfl⟩ := stuffed
        exact ⟨[], rfl, rfl, Nat.zero_le _, Nat.zero_le _, Stuffed.refl _⟩
      · exact stop

/-- The edits that keep `count` elements, at most 127 at a time. -/
def keeps (count : Nat) : List (Edit UInt8) :=
  if 127 < count then
    .keep 127 :: keeps (count - 127)
  else if count = 0 then
    []
  else
    [.keep count]
termination_by count
decreasing_by omega

theorem short_keeps (count : Nat) : Short (keeps count) := by
  induction count using keeps.induct with
  | case1 count long ih =>
      rw [keeps, if_pos long]
      exact Short.cons (by simp [Edit.span]) (by simp [Edit.span]) ih
  | case2 long =>
      rw [keeps, if_neg long, if_pos rfl]
      exact fun edit member => absurd member (List.not_mem_nil)
  | case3 count long positive =>
      rw [keeps, if_neg long, if_neg positive]
      refine Short.cons ?_ ?_ fun edit member => absurd member (List.not_mem_nil)
      · exact Nat.pos_of_ne_zero positive
      · exact Nat.le_of_not_lt long

theorem produces_keeps {script : List (Edit UInt8)} {base result : List UInt8}
    (later : Produces script base result) (common : List UInt8) :
    Produces (keeps common.length ++ script) (common ++ base) (common ++ result) := by
  induction size : common.length using keeps.induct generalizing common with
  | case1 count long ih =>
      subst size
      have front : (common.take 127).length = 127 := by
        rw [List.length_take]
        omega
      have whole := @Produces.keep _ _ (common.take 127) _ _
        (ih (common.drop 127) List.length_drop)
      rw [front, ← List.append_assoc, ← List.append_assoc, List.take_append_drop] at whole
      rw [keeps, if_pos long]
      exact whole
  | case2 long =>
      rw [List.eq_nil_of_length_eq_zero size, keeps, if_neg long, if_pos rfl]
      exact later
  | case3 count long positive =>
      subst size
      rw [keeps, if_neg long, if_neg positive]
      exact later.keep

theorem stuffed_of_stuffEqual {count : Nat} {out after : OutputArea}
    (stuffed : stuffEqual count out = some after) :
    Stuffed out (differences (keeps count)) after := by
  induction count, out using stuffEqual.induct with
  | case1 count out long full =>
      rw [stuffEqual, if_pos long, full] at stuffed
      exact absurd stuffed (Option.some_ne_none after).symm
  | case2 count out long next first ih =>
      rw [stuffEqual, if_pos long, first] at stuffed
      rw [keeps, if_pos long, differences_cons]
      exact (Stuffed.of_stuff first).trans (ih stuffed)
  | case3 out long =>
      rw [stuffEqual, if_neg long, if_pos rfl] at stuffed
      obtain rfl := Option.some.inj stuffed
      rw [keeps, if_neg long, if_pos rfl]
      exact Stuffed.refl out
  | case4 count out long positive =>
      rw [stuffEqual, if_neg long, if_neg positive] at stuffed
      rw [keeps, if_neg long, if_neg positive]
      exact Stuffed.of_stuff stuffed

theorem makeNoDiff_eq (outLength : Nat) : makeNoDiff outLength = differences (keeps outLength) := by
  induction outLength using keeps.induct with
  | case1 count long ih =>
      rw [makeNoDiff, keeps, if_pos long, if_pos long, ih]
      rfl
  | case2 long => rw [makeNoDiff, keeps, if_neg long, if_neg long, if_pos rfl, if_pos rfl]; rfl
  | case3 count long positive =>
      rw [makeNoDiff, keeps, if_neg long, if_neg long, if_neg positive, if_neg positive]
      rfl

theorem length_makeNoDiff (outLength : Nat) :
    (makeNoDiff outLength).length = (outLength + 126) / 127 := by
  induction outLength using makeNoDiff.induct with
  | case1 count long ih =>
      rw [makeNoDiff, if_pos long, List.length_cons, ih]
      omega
  | case2 long => rw [makeNoDiff, if_neg long, if_pos rfl]; rfl
  | case3 count long positive =>
      rw [makeNoDiff, if_neg long, if_neg positive, List.length_singleton]
      omega

/-- The equal bytes in front that the loop of `makeDiff` skips. -/
theorem take_equalRun (rec1 rec2 : List UInt8) :
    rec1.take (equalRun rec1 rec2) = rec2.take (equalRun rec1 rec2) ∧
      (rec2.take (equalRun rec1 rec2)).length = equalRun rec1 rec2 := by
  induction rec1, rec2 using equalRun.induct with
  | case1 rec1 byte rec2 ih => simpa [equalRun] using ih
  | case2 byte1 rec1 byte2 rec2 differ => simp [equalRun, differ]
  | case3 rec1 rec2 stop =>
      rw [equalRun]
      · exact ⟨rfl, rfl⟩
      · exact stop

/-! ## The two loops of `makeDiff` -/

/-- Outcome of the main loop: the area is full, or a script was written that turns the common part
into what was passed of `rec2`, whatever the bytes behind it come to. -/
theorem diffLoop_spec (rec1 rec2 : List UInt8) (out : OutputArea)
    (within : rec1.length ≤ rec2.length) :
    diffLoop rec1 rec2 out = .ok none ∨
      ∃ after rest script, diffLoop rec1 rec2 out = .ok (some (after, rest)) ∧
        Stuffed out (differences script) after ∧ Short script ∧
        ∀ later, (∀ base, Produces later base rest) → Produces (script ++ later) rec1 rec2 := by
  induction size : rec1.length using Nat.strongRecOn generalizing rec1 rec2 out with
  | ind length ih =>
  subst size
  rw [diffLoop]
  by_cases long : 2 < rec1.length
  case neg =>
      rw [if_neg long]
      refine .inr ⟨out, rec2, [], rfl, Stuffed.refl out, ?_, fun later produces => produces rec1⟩
      exact fun edit member => absurd member List.not_mem_nil
  rw [if_pos long, if_pos within]
  by_cases differ : rec1[0]? ≠ rec2[0]? ∨ rec1[1]? ≠ rec2[1]?
  case pos =>
      rw [if_pos differ]
      split
      case h_1 full => exact .inl rfl
      case h_2 next rest1 rest2 stuffed =>
      have shorter := stuffDifferent_lt long differ stuffed within
      obtain ⟨copied, rfl, rfl, small, inside, copy⟩ := stuffed_of_stuffDifferent stuffed
      rw [List.length_drop] at shorter
      have nonempty : copied ≠ [] := by
        rintro rfl
        simp at shorter
      obtain ⟨marked, store_eq, run⟩ := copy.store nonempty
      rw [store_eq]
      rw [List.length_append] at within
      have remaining : (rec1.drop copied.length).length ≤ rest2.length := by
        rw [List.length_drop]
        omega
      rcases ih _ (by rw [List.length_drop]; omega) (rec1.drop copied.length) rest2 marked
        remaining rfl with full | ⟨after, rest, script, result, written, short, complete⟩
      · exact .inl full
      · refine .inr ⟨after, rest, .put copied :: script, result, run.trans written, ?_, ?_⟩
        · exact short.cons (List.length_pos_of_ne_nil nonempty)
            (Nat.le_trans small (Nat.min_le_right _ _))
        · exact fun later produces => (complete later produces).put copied
  case neg =>
      rw [if_neg differ]
      have positive := @equalRun_pos rec1 rec2 (by omega) (by tauto)
      obtain ⟨common, run_length⟩ := take_equalRun rec1 rec2
      dsimp only
      cases stuffed : stuffEqual (equalRun rec1 rec2) out with
      | none => exact .inl rfl
      | some next =>
          have run := stuffed_of_stuffEqual stuffed
          rcases ih _ (by rw [List.length_drop]; omega) (rec1.drop (equalRun rec1 rec2))
            (rec2.drop (equalRun rec1 rec2)) next
            (by rw [List.length_drop, List.length_drop]; omega) rfl
            with full | ⟨after, rest, script, result, written, short, complete⟩
          · exact .inl full
          · refine .inr ⟨after, rest, keeps (equalRun rec1 rec2) ++ script, result, ?_, ?_, ?_⟩
            · rw [differences_append]
              exact run.trans written
            · exact (short_keeps _).append short
            · intro later produces
              have whole := produces_keeps (complete later produces)
                (rec2.take (equalRun rec1 rec2))
              rw [run_length, List.take_append_drop, ← common, List.take_append_drop] at whole
              rw [List.append_assoc]
              exact whole

/-- Outcome of the last loop: the area is full, or the remaining bytes were written as they are. -/
theorem tailLoop_spec (rec2 : List UInt8) (out : OutputArea) :
    tailLoop rec2 out = .ok none ∨
      ∃ after script, tailLoop rec2 out = .ok (some after) ∧
        Stuffed out (differences script) after ∧ Short script ∧
        (∀ base, Produces script base rec2) ∧ rec2.length ≤ (differences script).length := by
  induction rec2, out using tailLoop.induct with
  | case1 out =>
      refine .inr ⟨out, [], by rw [tailLoop], Stuffed.refl out, ?_, Produces.nil, Nat.le_refl _⟩
      exact fun edit member => absurd member List.not_mem_nil
  | case2 out byte rest full =>
      rw [tailLoop, full]
      exact .inl rfl
  | case3 out byte rest next copied fault failed =>
      obtain ⟨marked, store_eq, _⟩ := (stuffed_of_stuffAll copied).store (by simp)
      exact absurd (failed.symm.trans store_eq) (by simp)
  | case4 out byte rest next copied marked store_eq ih =>
      obtain ⟨_, store_eq', run⟩ := (stuffed_of_stuffAll copied).store (by simp)
      obtain rfl := Except.ok.inj (store_eq.symm.trans store_eq')
      rw [tailLoop, copied]
      dsimp only
      rw [store_eq]
      rcases ih with full | ⟨after, script, result, written, short, complete, long⟩
      · exact .inl full
      · have split : (byte :: rest).take 127 ++ rest.drop 126 = byte :: rest :=
          List.take_append_drop 127 (byte :: rest)
        refine .inr ⟨after, .put ((byte :: rest).take 127) :: script, result, run.trans written,
          ?_, ?_, ?_⟩
        · exact short.cons (Nat.succ_pos _) (List.length_take_le 127 (byte :: rest))
        · intro base
          have whole := (complete (base.drop _)).put ((byte :: rest).take 127)
          rwa [split] at whole
        · have lengths := congrArg List.length split
          rw [List.length_append] at lengths
          have literal : (difference (.put ((byte :: rest).take 127))).length =
              ((byte :: rest).take 127).length + 1 := List.length_cons
          rw [differences_cons, List.length_append]
          omega

/-! ## Round trip -/

/-- `makeDiff` writes inside its area only; if it does not give up, the string it leaves there is the
differences string of a script that turns the common part of the records into `rec2`. -/
theorem makeDiff_spec (rec1 rec2 area : List UInt8) :
    makeDiff rec1 rec2 area = .ok none ∨
      ∃ after script, makeDiff rec1 rec2 area = .ok (some after) ∧
        Stuffed ⟨area, 0⟩ (differences script) after ∧ Short script ∧
        Produces script (rec1.take rec2.length) rec2 := by
  rw [makeDiff]
  rcases diffLoop_spec (rec1.take rec2.length) rec2 ⟨area, 0⟩ (List.length_take_le _ _)
    with full | ⟨middle, rest, front, front_eq, front_run, front_short, complete⟩
  · rw [full]
    exact .inl rfl
  rw [front_eq]
  rcases tailLoop_spec rest middle
    with full | ⟨after, back, back_eq, back_run, back_short, produces, _⟩
  · exact .inl full
  · have run := front_run.trans back_run
    rw [← differences_append] at run
    exact .inr ⟨after, front ++ back, back_eq, run, front_short.append back_short,
      complete back produces⟩

/-- Records and their differences.  `makeDiff` stays inside the output area; when it returns a
differences string, `applyDiff` turns every area that starts with the first record, and has room for
the second one, into the second record with its length, unless the string is longer than
`MAX_DIFFERENCES`.  The string of `makeNoDiff` leaves a record of its length as it is. -/
theorem applyDiff_makeDiff :
    (∀ rec1 rec2 area : List UInt8, ∃ result, makeDiff rec1 rec2 area = .ok result ∧
      ∀ after, result = some after →
        after.output ≤ area.length ∧ after.area.length = area.length ∧
        ∀ record, rec1.take rec2.length <+: record → rec2.length ≤ record.length →
          applyDiff (after.area.take after.output) record =
            if maxDifferences < after.output then .error (.bugcheck 176)
            else .ok (rec2 ++ record.drop rec2.length, rec2.length)) ∧
    ∀ record : List UInt8, applyDiff (makeNoDiff record.length) record =
      if maxDifferences * 127 < record.length then .error (.bugcheck 176)
      else .ok (record, record.length) := by
  constructor
  · intro rec1 rec2 area
    rcases makeDiff_spec rec1 rec2 area with full | ⟨after, script, made, run, short, produces⟩
    · exact ⟨none, full, fun after found => absurd found (Option.some_ne_none after).symm⟩
    refine ⟨some after, made, ?_⟩
    rintro _ ⟨rfl⟩
    have position : after.output = (differences script).length := by simpa using run.position
    have written : after.area.take after.output = differences script := run.written
    refine ⟨run.output_le, run.size, fun record start room => ?_⟩
    rw [applyDiff, written, ← position]
    split
    case isTrue long => rfl
    case isFalse fits =>
        rw [applyLoop_differences short 0 record (by rw [produces.1]; omega), List.drop_zero,
          produces.2 record start room, produces.1, Nat.zero_add]
        rfl
  · intro record
    have complete := produces_keeps (Produces.nil []) record
    rw [List.append_nil, List.append_nil] at complete
    have size := length_makeNoDiff record.length
    rw [applyDiff]
    by_cases long : maxDifferences * 127 < record.length
    · rw [if_pos long, if_pos (by unfold maxDifferences at long ⊢; omega)]
    · rw [if_neg long, if_neg (by unfold maxDifferences at long ⊢; omega), makeNoDiff_eq,
        applyLoop_differences (short_keeps _) 0 record (by rw [complete.1]; omega),
        List.drop_zero, complete.2 record (List.prefix_refl _) (Nat.le_refl _), complete.1,
        List.drop_length, List.append_nil, Nat.zero_add]
      rfl

theorem applyDiff_makeDiff_update :
    applyDiff [253, 1, 9, 3, 5, 6, 7] [1, 2, 3, 4, 5, 6, 0, 0] =
      .ok ([1, 2, 3, 9, 5, 6, 7, 0], 7) := by
  obtain ⟨result, made, complete⟩ :=
    applyDiff_makeDiff.1 [1, 2, 3, 4, 5, 6] [1, 2, 3, 9, 5, 6, 7] [0, 0, 0, 0, 0, 0, 0]
  have string : makeDiff [1, 2, 3, 4, 5, 6] [1, 2, 3, 9, 5, 6, 7] [0, 0, 0, 0, 0, 0, 0] =
      .ok (some ⟨[253, 1, 9, 3, 5, 6, 7], 7⟩) := by decide +kernel
  obtain rfl := Except.ok.inj (made.symm.trans string)
  exact (complete _ rfl).2.2 [1, 2, 3, 4, 5, 6, 0, 0] (by decide) (by decide)

theorem stuffAll_of_room {bytes : List UInt8} {out : OutputArea}
    (room : out.output + bytes.length ≤ out.area.length) :
    ∃ after, stuffAll bytes out = some after := by
  induction bytes generalizing out with
  | nil => exact ⟨out, rfl⟩
  | cons byte bytes ih =>
      rw [List.length_cons] at room
      have here : out.output < out.area.length := by omega
      rw [stuffAll, OutputArea.stuff, if_pos here]
      apply ih
      simp only [List.length_set]
      omega

theorem tailLoop_of_room (rec2 : List UInt8) (out : OutputArea)
    (room : out.output + 2 * rec2.length ≤ out.area.length) :
    ∃ after, tailLoop rec2 out = .ok (some after) := by
  induction rec2, out using tailLoop.induct with
  | case1 out => exact ⟨out, by rw [tailLoop]⟩
  | case2 out byte rest full =>
      have shorter := List.length_take_le' 127 (byte :: rest)
      obtain ⟨after, copied⟩ := @stuffAll_of_room ((byte :: rest).take 127) out.advance (by
        change out.output + 1 + _ ≤ out.area.length
        rw [List.length_cons] at room shorter
        omega)
      exact absurd (full.symm.trans copied) (Option.some_ne_none after).symm
  | case3 out byte rest next copied fault failed =>
      obtain ⟨marked, store_eq, _⟩ := (stuffed_of_stuffAll copied).store (by simp)
      exact absurd (failed.symm.trans store_eq) (by simp)
  | case4 out byte rest next copied marked store_eq ih =>
      obtain ⟨_, marked_eq, run⟩ := (stuffed_of_stuffAll copied).store (by simp)
      obtain rfl := Except.ok.inj (store_eq.symm.trans marked_eq)
      rw [tailLoop, copied]
      dsimp only
      rw [store_eq]
      apply ih
      rw [run.size, run.position, difference, List.length_cons, List.length_take,
        List.length_drop]
      rw [List.length_cons] at room ⊢
      omega

/-- A differences string of two records without common bytes can be longer than `applyDiff`
accepts. -/
theorem applyDiff_longDifference :
    ∃ after, makeDiff [] (List.replicate 1100 0) (List.replicate 2200 0) = .ok (some after) ∧
      applyDiff (after.area.take after.output) (List.replicate 1100 0) =
        .error (.bugcheck 176) := by
  have start : makeDiff [] (List.replicate 1100 0) (List.replicate 2200 0) =
      tailLoop (List.replicate 1100 0) ⟨List.replicate 2200 0, 0⟩ := by
    rw [makeDiff, List.take_nil, diffLoop, if_neg (by simp)]
  obtain ⟨found, found_eq⟩ := tailLoop_of_room (List.replicate 1100 0)
    ⟨List.replicate 2200 0, 0⟩ (by rw [List.length_replicate, List.length_replicate])
  rcases tailLoop_spec (List.replicate 1100 0) ⟨List.replicate 2200 0, 0⟩
    with full | ⟨after, script, made, run, _, _, long⟩
  · exact absurd (full.symm.trans found_eq) (by simp)
  · refine ⟨after, start.trans made, ?_⟩
    rw [List.length_replicate] at long
    rw [applyDiff, run.written, if_pos]
    change 1024 < (differences script).length
    omega

end Compressor
end Firebird
