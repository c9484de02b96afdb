import Firebird.Common.ClumpletReader
import Mathlib.Logic.Relation
import Mathlib.Tactic.Linarith

/-!
# Walking a clumplet buffer

A walk over any buffer moves on and ends, unless it comes to a wide clumplet whose length makes the
size wrap around in 32 bits.
-/

namespace Firebird
namespace Clumplet

/-- The error that reports a malformed buffer. -/
def ReaderError.Malformed (error : ReaderError) : Prop := ∃ what, error = .invalid_structure what

/-- The routine came to its end, or reported a malformed buffer. -/
def Proper {α : Type} (result : Except ReaderError α) : Prop :=
  ∀ error, result = .error error → error.Malformed

@[simp]
theorem proper_ok {α : Type} (value : α) : Proper (.ok value : Except ReaderError α) := nofun

@[simp]
theorem proper_invalid {α : Type} (what : String) :
    Proper (.error (.invalid_structure what) : Except ReaderError α) := by
  intro error failed
  exact ⟨what, (Except.error.inj failed).symm⟩

namespace Reader

/-- The length of a wide clumplet. -/
def wideLength (reader : Reader) : Nat :=
  ((reader.byte 4 * 2 ^ 8 + reader.byte 3) * 2 ^ 8 + reader.byte 2) * 2 ^ 8 + reader.byte 1

/-- The current clumplet is wide, and its size does not fit 32 bits. -/
def Overlong (reader : Reader) : Prop :=
  getClumpletType reader.kind reader.spbState (reader.byte 0) = .ok .Wide ∧
    reader.cur_offset + 5 ≤ reader.bytes.length ∧ 2 ^ 32 ≤ 1 + 4 + reader.wideLength

/-- One round of a walk. -/
def Step (reader next : Reader) : Prop := reader.isEof = false ∧ reader.moveNext = .ok next

/-- The states that a walk comes through. -/
def Visited : Reader → Reader → Prop := Relation.ReflTransGen Step

/-- What a walk over a buffer is to be like. -/
structure Walks (reader : Reader) : Prop where
  advances : ∀ place, Visited reader.rewind place → place.isEof = false →
    (∃ error, place.moveNext = .error error ∧ error.Malformed) ∨
      ∃ next, place.moveNext = .ok next ∧ place.cur_offset < next.cur_offset
  inside : ∀ place, Visited reader.rewind place → place.isEof = false → ∀ header data,
    place.getClumpletSize true true false = .ok header →
      place.getClumpletSize false false true = .ok data →
        place.cur_offset + header + data ≤ place.bytes.length
  ends : ∃ rounds result, walk rounds reader.rewind = some result ∧ Proper result
  finds : ∀ tag, ∃ rounds result, reader.find tag rounds = some result ∧ Proper result
  nexts : ∀ place, Visited reader.rewind place → ∀ tag,
    ∃ rounds result, place.next tag rounds = some result ∧ Proper result

end Reader

/-! ## One clumplet -/

theorem serviceType_proper (spbState tag : Nat) : Proper (serviceType spbState tag) := by
  unfold serviceType
  split <;>
    first
    | exact proper_ok _
    | exact proper_invalid _
    | (simp only [backupType, repairType, securityType, propertiesType, statisticsType, nbackupType,
        traceType, validateType]
       split <;> simp only [proper_ok, proper_invalid])

theorem getClumpletType_proper (kind : Kind) (spbState tag : Nat) :
    Proper (getClumpletType kind spbState tag) := by
  unfold getClumpletType
  cases kind with
  | Tpb => simp only; split <;> simp only [proper_ok]
  | SpbSendItems => simp only; split <;> simp only [proper_ok]
  | SpbStart => simp only; split <;> simp only [proper_ok, serviceType_proper]
  | _ => simp only [proper_ok, proper_invalid]

namespace Reader

variable {reader : Reader}

theorem byte_lt (reader : Reader) (index : Nat) : reader.byte index < 2 ^ 8 := UInt8.toNat_lt _

theorem lengthAndData_proper (reader : Reader) (type : ClumpletType) :
    Proper (reader.lengthAndData type) := by
  unfold lengthAndData
  cases type with
  | Wide => simp only; split <;> simp
  | TraditionalDpb => simp only; split <;> simp
  | StringSpb => simp only; split <;> simp
  | _ => simp

/-- The size fits 32 bits unless a wide clumplet is too long. -/
theorem lengthAndData_lt {type : ClumpletType} {lengthSize dataSize : Nat}
    (read : reader.lengthAndData type = .ok (lengthSize, dataSize)) :
    1 + lengthSize + dataSize < 2 ^ 32 ∨
      type = .Wide ∧ reader.cur_offset + 5 ≤ reader.bytes.length ∧ lengthSize = 4 ∧
        dataSize = reader.wideLength ∧ 2 ^ 32 ≤ 1 + 4 + reader.wideLength := by
  have first := reader.byte_lt 1
  have second := reader.byte_lt 2
  unfold lengthAndData at read
  cases type with
  | Wide =>
      simp only at read
      split at read
      · exact absurd read nofun
      · obtain ⟨rfl, rfl⟩ := Prod.mk.inj (Except.ok.inj read)
        rw [← wideLength]
        rcases Nat.lt_or_ge (1 + 4 + reader.wideLength) (2 ^ 32) with fits | long
        · exact Or.inl fits
        · exact Or.inr ⟨rfl, by omega, rfl, rfl, long⟩
  | TraditionalDpb =>
      simp only at read
      split at read
      · exact absurd read nofun
      · obtain ⟨rfl, rfl⟩ := Prod.mk.inj (Except.ok.inj read)
        exact Or.inl (by omega)
  | StringSpb =>
      simp only at read
      split at read
      · exact absurd read nofun
      · obtain ⟨rfl, rfl⟩ := Prod.mk.inj (Except.ok.inj read)
        exact Or.inl (by omega)
  | SingleTpb | IntSpb | BigIntSpb | ByteSpb =>
      obtain ⟨rfl, rfl⟩ := Prod.mk.inj (Except.ok.inj read)
      exact Or.inl (by decide)

/-- The sizes of a clumplet that ends inside the buffer. -/
def Sized (reader : Reader) (lengthSize dataSize : Nat) : Prop :=
  reader.cur_offset + (1 + lengthSize + dataSize) ≤ reader.bytes.length ∧
    ∀ wTag wLength wData, reader.getClumpletSize wTag wLength wData =
      .ok ((if wTag then 1 else 0) + (if wLength then lengthSize else 0) +
        (if wData then dataSize else 0))

/-- A clumplet that is not too long is malformed, or ends inside the buffer. -/
theorem sized_of_not_overlong (inside : reader.cur_offset < reader.bytes.length)
    (clear : ¬reader.Overlong) :
    (∃ error : ReaderError, error.Malformed ∧ ∀ wTag wLength wData,
      reader.getClumpletSize wTag wLength wData = .error error) ∨
    ∃ lengthSize dataSize, reader.Sized lengthSize dataSize := by
  simp only [Sized, getClumpletSize, if_neg (not_le.mpr inside)]
  rcases type_eq : getClumpletType reader.kind reader.spbState (reader.byte 0) with error | type
  · exact Or.inl ⟨error, getClumpletType_proper _ _ _ error type_eq, fun _ _ _ => rfl⟩
  · rcases read : reader.lengthAndData type with error | ⟨lengthSize, dataSize⟩
    · refine Or.inl ⟨error, lengthAndData_proper _ _ error read, fun _ _ _ => ?_⟩
      simp only [bind, Except.bind, read]
    · have small : 1 + lengthSize + dataSize < 2 ^ 32 := by
        rcases lengthAndData_lt read with small | ⟨rfl, fits, -, -, long⟩
        · exact small
        · exact absurd ⟨type_eq, fits, long⟩ clear
      simp only [bind, Except.bind, read, Nat.mod_eq_of_lt small]
      by_cases beyond : reader.cur_offset + (1 + lengthSize + dataSize) > reader.bytes.length
      · exact Or.inl ⟨_, ⟨_, rfl⟩, fun _ _ _ => if_pos beyond⟩
      · refine Or.inr ⟨lengthSize, dataSize, not_lt.mp beyond, fun wTag wLength wData => ?_⟩
        have part_small : (if wTag then 1 else 0) + (if wLength then lengthSize else 0) +
            (if wData then dataSize else 0) < 2 ^ 32 := by
          split_ifs <;> omega
        rw [if_neg beyond, Nat.mod_eq_of_lt part_small]
        rfl

/-! ## One step -/

theorem inside_of_not_eof (not_eof : reader.isEof = false) :
    reader.cur_offset < reader.bytes.length := by
  rw [isEof, decide_eq_false_iff_not, not_le] at not_eof
  refine not_eof.trans_le ?_
  rw [getBufferLength]
  split
  · exact Nat.zero_le _
  · exact Nat.le_refl _

theorem getClumpTag_eq (not_eof : reader.isEof = false) :
    reader.getClumpTag = .ok (reader.byte 0) := by
  rw [getClumpTag, if_neg (not_le.mpr (inside_of_not_eof not_eof))]

theorem Sized.adjustSpbState {lengthSize dataSize : Nat} (sized : reader.Sized lengthSize dataSize)
    (not_eof : reader.isEof = false) :
    ∃ spbState, reader.adjustSpbState = .ok { reader with spbState } := by
  rw [Reader.adjustSpbState]
  split
  · rw [sized.2, getClumpTag_eq not_eof]
    simp only [bind, Except.bind, if_true]
    split
    · exact ⟨_, rfl⟩
    · exact ⟨_, rfl⟩
  · exact ⟨_, rfl⟩

/-- A step fails on a malformed clumplet, or moves on inside the buffer. -/
theorem moveNext_cases (not_eof : reader.isEof = false) (clear : ¬reader.Overlong) :
    (∃ error, reader.moveNext = .error error ∧ error.Malformed) ∨
      ∃ next, reader.moveNext = .ok next ∧ reader.cur_offset < next.cur_offset ∧
        next.cur_offset ≤ next.bytes.length ∧ next.bytes = reader.bytes := by
  have inside := inside_of_not_eof not_eof
  have length_lt : reader.bytes.length < 2 ^ 32 := reader.length_lt
  rw [moveNext, not_eof]
  rcases sized_of_not_overlong inside clear with
    ⟨error, malformed, failed⟩ | ⟨lengthSize, dataSize, sized⟩
  · rw [failed]
    exact Or.inl ⟨error, rfl, malformed⟩
  · obtain ⟨spbState, adjusted⟩ := sized.adjustSpbState not_eof
    have fits := sized.1
    rw [sized.2, adjusted]
    refine Or.inr ⟨_, rfl, ?_, ?_, rfl⟩
    · change reader.cur_offset < (reader.cur_offset + (1 + lengthSize + dataSize)) % 2 ^ 32
      rw [Nat.mod_eq_of_lt (by omega)]
      omega
    · change (reader.cur_offset + (1 + lengthSize + dataSize)) % 2 ^ 32 ≤ reader.bytes.length
      rw [Nat.mod_eq_of_lt (by omega)]
      exact fits

/-! ## The whole walk -/

/-- No clumplet that the walk comes to is too long. -/
def Clear (reader : Reader) : Prop :=
  ∀ place, Visited reader place → place.isEof = false → ¬place.Overlong

theorem Clear.visited {place : Reader} (clear : reader.Clear) (visited : Visited reader place) :
    place.Clear := fun later reached => clear later (visited.trans reached)

/-- Induction along a walk: it ends at the end of the buffer or at a malformed clumplet. -/
theorem Clear.walk_induction {motive : Reader → Prop} (eof : ∀ place, place.isEof = true → motive place)
    (fails : ∀ place error, place.isEof = false → place.moveNext = .error error →
      error.Malformed → motive place)
    (moves : ∀ place next, place.isEof = false → place.moveNext = .ok next → motive next →
      motive place)
    (clear : reader.Clear) : motive reader := by
  induction left_eq : reader.bytes.length - reader.cur_offset using Nat.strong_induction_on
    generalizing reader with
  | _ left ih =>
      rcases eof_eq : reader.isEof with _ | _
      · rcases moveNext_cases eof_eq (clear reader .refl eof_eq) with
          ⟨error, failed, malformed⟩ | ⟨next, moved, further, inside, bytes_eq⟩
        · exact fails reader error eof_eq failed malformed
        · have before := inside_of_not_eof eof_eq
          refine moves reader next eof_eq moved
            (ih (next.bytes.length - next.cur_offset) ?_ (clear.visited (.single ⟨eof_eq, moved⟩)) rfl)
          rw [bytes_eq] at inside ⊢
          omega
      · exact eof reader eof_eq

theorem Clear.walk_ends (clear : reader.Clear) :
    ∃ rounds result, walk rounds reader = some result ∧ Proper result := by
  refine Clear.walk_induction (motive := fun place =>
    ∃ rounds result, walk rounds place = some result ∧ Proper result) ?_ ?_ ?_ clear
  · intro place eof
    exact ⟨1, .ok place, by rw [walk, eof]; rfl, proper_ok _⟩
  · rintro place error not_eof failed ⟨what, rfl⟩
    exact ⟨1, .error _, by rw [walk, not_eof, failed]; rfl, proper_invalid what⟩
  · rintro place next not_eof moved ⟨rounds, result, walked, proper⟩
    exact ⟨rounds + 1, result, by rw [walk, not_eof, moved]; exact walked, proper⟩

theorem Clear.seek_ends (clear : reader.Clear) (tag : Nat) :
    ∃ rounds result, seek tag rounds reader = some result ∧ Proper result := by
  refine Clear.walk_induction (motive := fun place =>
    ∃ rounds result, seek tag rounds place = some result ∧ Proper result) ?_ ?_ ?_ clear
  · intro place eof
    exact ⟨1, .ok (false, place), by rw [seek, eof]; rfl, proper_ok _⟩
  · rintro place error not_eof failed ⟨what, rfl⟩
    by_cases found : tag = place.byte 0
    · refine ⟨1, .ok (true, place), ?_, proper_ok _⟩
      rw [seek, not_eof, getClumpTag_eq not_eof]
      exact if_pos found
    · refine ⟨1, .error _, ?_, proper_invalid what⟩
      rw [seek, not_eof, getClumpTag_eq not_eof]
      simp only [Bool.false_eq_true, if_false, if_neg found, failed]
  · rintro place next not_eof moved ⟨rounds, result, sought, proper⟩
    by_cases found : tag = place.byte 0
    · refine ⟨1, .ok (true, place), ?_, proper_ok _⟩
      rw [seek, not_eof, getClumpTag_eq not_eof]
      exact if_pos found
    · refine ⟨rounds + 1, result, ?_, proper⟩
      rw [seek, not_eof, getClumpTag_eq not_eof]
      simp only [Bool.false_eq_true, if_false, if_neg found, moved, sought]

theorem proper_restore {co : Nat} {result : Except ReaderError (Bool × Reader)}
    (proper : Proper result) : Proper (result.map (restore co)) := by
  cases result with
  | ok value => exact proper_ok _
  | error error =>
      obtain ⟨what, rfl⟩ := proper error rfl
      exact proper_invalid what

/-- A clumplet that is too long has its data outside the buffer. -/
theorem Overlong.outside (overlong : reader.Overlong) (not_eof : reader.isEof = false) :
    reader.getClumpletSize true true false = .ok 5 ∧
      reader.getClumpletSize false false true = .ok reader.wideLength := by
  obtain ⟨type_eq, fits, long⟩ := overlong
  have inside := inside_of_not_eof not_eof
  have first := reader.byte_lt 1
  have second := reader.byte_lt 2
  have third := reader.byte_lt 3
  have fourth := reader.byte_lt 4
  have length_lt : reader.wideLength < 2 ^ 32 := by
    rw [wideLength]
    omega
  have read : reader.lengthAndData .Wide = .ok (4, reader.wideLength) := if_neg (by omega)
  have small : (1 + 4 + reader.wideLength) % 2 ^ 32 ≤ 5 := by omega
  simp only [getClumpletSize, if_neg (not_le.mpr inside), type_eq, read, bind, Except.bind]
  rw [if_neg (by omega)]
  refine ⟨rfl, ?_⟩
  rw [if_neg (by omega)]
  refine congrArg Except.ok ?_
  rw [if_neg Bool.false_ne_true, if_neg Bool.false_ne_true, if_pos trivial, Nat.zero_add,
    Nat.mod_eq_of_lt length_lt]

/-- A walk over a buffer moves on inside the buffer and comes to an end or reports a malformed buffer
if and only if it comes to no wide clumplet whose size does not fit 32 bits. -/
theorem walks_iff (reader : Reader) :
    reader.Walks ↔
      ∀ place, Visited reader.rewind place → place.isEof = false → ¬place.Overlong := by
  constructor
  · intro walks place visited not_eof overlong
    obtain ⟨header_eq, data_eq⟩ := overlong.outside not_eof
    have inside := walks.inside place visited not_eof 5 place.wideLength header_eq data_eq
    have length_lt : place.bytes.length < 2 ^ 32 := place.length_lt
    have long := overlong.2.2
    omega
  · intro clear
    have clear : reader.rewind.Clear := clear
    refine ⟨?_, ?_, clear.walk_ends, ?_, ?_⟩
    · intro place visited not_eof
      rcases moveNext_cases not_eof (clear place visited not_eof) with
        failed | ⟨next, moved, further, -⟩
      · exact Or.inl failed
      · exact Or.inr ⟨next, moved, further⟩
    · intro place visited not_eof header data header_eq data_eq
      rcases sized_of_not_overlong (inside_of_not_eof not_eof) (clear place visited not_eof) with
        ⟨error, -, failed⟩ | ⟨lengthSize, dataSize, fits, sized⟩
      · exact absurd (header_eq.symm.trans (failed ..)) nofun
      · have header_eq := Except.ok.inj (header_eq.symm.trans (sized ..))
        have data_eq := Except.ok.inj (data_eq.symm.trans (sized ..))
        simp only [if_true, Bool.false_eq_true, if_false] at header_eq data_eq
        omega
    · intro tag
      obtain ⟨rounds, result, sought, proper⟩ := clear.seek_ends tag
      exact ⟨rounds, _, congrArg (Option.map _) sought, proper_restore proper⟩
    · intro place visited tag
      have later := clear.visited visited
      rcases eof_eq : place.isEof with _ | _
      · by_cases found : tag = place.byte 0
        · rcases moveNext_cases eof_eq (later place .refl eof_eq) with
            ⟨error, failed, what, rfl⟩ | ⟨start, moved, -⟩
          · refine ⟨0, .error _, ?_, proper_invalid what⟩
            rw [next, eof_eq, getClumpTag_eq eof_eq]
            simp only [bind, Except.bind, Bool.false_eq_true, if_false, if_pos found, failed]
          · obtain ⟨rounds, result, sought, proper⟩ :=
              (later.visited (.single ⟨eof_eq, moved⟩)).seek_ends tag
            refine ⟨rounds, _, ?_, @proper_restore place.cur_offset _ proper⟩
            rw [next, eof_eq, getClumpTag_eq eof_eq]
            simp only [bind, Except.bind, Bool.false_eq_true, if_false, if_pos found, moved, sought]
            rfl
        · obtain ⟨rounds, result, sought, proper⟩ := later.seek_ends tag
          refine ⟨rounds, _, ?_, @proper_restore place.cur_offset _ proper⟩
          rw [next, eof_eq, getClumpTag_eq eof_eq]
          simp only [bind, Except.bind, Bool.false_eq_true, if_false, if_neg found, pure,
            Except.pure, sought]
          rfl
      · exact ⟨0, .ok (false, place), by rw [next, eof_eq]; rfl, proper_ok _⟩

/-- A length of 2³² - 5 makes a walk stay where it is for ever. -/
theorem not_walks_stuck :
    let reader : Reader :=
      ⟨.WideTagged, some [2, 1, 0xFB, 0xFF, 0xFF, 0xFF], 0, 0, by decide⟩
    ¬reader.Walks ∧ ∀ rounds, walk rounds reader.rewind = none := by
  intro reader
  have not_eof : reader.rewind.isEof = false := by decide
  have stays : reader.rewind.moveNext = .ok reader.rewind := by decide
  constructor
  · intro walks
    rcases walks.advances reader.rewind .refl not_eof with ⟨error, failed, -⟩ | ⟨next, moved, further⟩
    · exact absurd (stays.symm.trans failed) nofun
    · obtain rfl := Except.ok.inj (stays.symm.trans moved)
      exact absurd further (lt_irrefl _)
  · intro rounds
    induction rounds with
    | zero => rfl
    | succ rounds ih =>
        rw [walk, not_eof, stays]
        exact ih

end Reader

end Clumplet
end Firebird
