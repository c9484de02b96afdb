import Firebird.Jrd.SqzDiff
import Firebird.Library.ByteMemory

/-!
# Memory bounds of decompression

`unpack` and `applyDiff` with every read of the input and every write to the output, for input that may
be damaged.
-/

namespace Firebird
namespace Compressor

open RunLength (Run)
open ByteMemory (load)

/-- A read of the input or a write to the output: its place and the number of bytes. -/
inductive Access
  | read (place count : Nat)
  | write (place count : Nat)
  deriving DecidableEq, Repr

/-- The access stays before the end of the input or of the output. -/
def Access.Within (input_end output_end : Nat) : Access → Prop
  | .read place count => place + count ≤ input_end
  | .write place count => place + count ≤ output_end

/-- All accesses stay before the end of the input or of the output. -/
def Inside (input_end output_end : Nat) (accesses : List Access) : Prop :=
  ∀ access ∈ accesses, access.Within input_end output_end

/-- The loop of `unpack` and the check behind it, with the input in the memory. -/
def unpackLoop (memory : Nat → UInt8) (input_end output_end input output : Nat) :
    List Access × Except Fault Nat :=
  if input < input_end then
    let len := signedChar (memory input)
    if len < 0 then
      if input_end ≤ input + 1 ∨ output_end < output + (-len).toNat then
        ([.read input 1], .error (.bugcheck 179))
      else
        let (accesses, result) :=
          unpackLoop memory input_end output_end (input + 2) (output + (-len).toNat)
        (.read input 1 :: .read (input + 1) 1 :: .write output (-len).toNat :: accesses, result)
    else if output_end < output + len.toNat then ([.read input 1], .error (.bugcheck 179))
    else
      let (accesses, result) :=
        unpackLoop memory input_end output_end (input + 1 + len.toNat) (output + len.toNat)
      (.read input 1 :: .read (input + 1) len.toNat :: .write output len.toNat :: accesses, result)
  else if output_end < output then ([], .error (.bugcheck 179))
  else ([], .ok output)
termination_by input_end - input

/-- The accesses of `unpack`, and its result. -/
def unpackAccesses (memory : Nat → UInt8) (inLength outLength : Nat) :
    List Access × Except Fault Nat :=
  unpackLoop memory inLength outLength 0 0

/-- The loop of `applyDiff` and the check behind it, with the differences in the memory. -/
def applyDiffLoop (memory : Nat → UInt8) (diff_end p_end differences p : Nat) :
    List Access × Except Fault Nat :=
  if differences < diff_end ∧ p < p_end then
    let l := signedChar (memory differences)
    if 0 < l then
      if p_end < p + l.toNat then ([.read differences 1], .error (.bugcheck 177))
      else if diff_end < differences + 1 + l.toNat then
        ([.read differences 1], .error (.bugcheck 176))
      else
        let (accesses, result) :=
          applyDiffLoop memory diff_end p_end (differences + 1 + l.toNat) (p + l.toNat)
        (.read differences 1 :: .read (differences + 1) l.toNat :: .write p l.toNat :: accesses, result)
    else
      let (accesses, result) :=
        applyDiffLoop memory diff_end p_end (differences + 1) (p + (-l).toNat)
      (.read differences 1 :: accesses, result)
  else if p_end < p ∨ differences < diff_end then ([], .error (.bugcheck 177))
  else ([], .ok p)
termination_by diff_end - differences

/-- The accesses of `applyDiff`, and its result. -/
def applyDiffAccesses (memory : Nat → UInt8) (diffLength outLength : Nat) :
    List Access × Except Fault Nat :=
  if maxDifferences < diffLength then ([], .error (.bugcheck 176))
  else applyDiffLoop memory diffLength outLength 0 0

theorem inside_cons_iff {input_end output_end : Nat} {access : Access} {accesses : List Access} :
    Inside input_end output_end (access :: accesses) ↔
      access.Within input_end output_end ∧ Inside input_end output_end accesses :=
  List.forall_mem_cons

theorem inside_nil (input_end output_end : Nat) : Inside input_end output_end [] := nofun

theorem applyDiffLoop_inside (memory : Nat → UInt8) (diff_end p_end differences p : Nat) :
    Inside diff_end p_end (applyDiffLoop memory diff_end p_end differences p).1 := by
  induction left : diff_end - differences using Nat.strong_induction_on
    generalizing differences p with
  | _ left ih =>
      subst left
      have later : ∀ next output, differences < diff_end → differences < next →
          Inside diff_end p_end (applyDiffLoop memory diff_end p_end next output).1 :=
        fun next output before after => ih _ (by omega) next output rfl
      rw [applyDiffLoop]
      split
      · rename_i running
        have read_control : (Access.read differences 1).Within diff_end p_end := running.1
        dsimp only
        split
        · split
          · exact inside_cons_iff.mpr ⟨read_control, inside_nil _ _⟩
          · split
            · exact inside_cons_iff.mpr ⟨read_control, inside_nil _ _⟩
            · rename_i room complete
              refine inside_cons_iff.mpr ⟨read_control, inside_cons_iff.mpr ⟨Nat.le_of_not_lt complete,
                inside_cons_iff.mpr ⟨Nat.le_of_not_lt room, later _ _ running.1 (by omega)⟩⟩⟩
        · exact inside_cons_iff.mpr ⟨read_control, later _ _ running.1 (Nat.lt_succ_self _)⟩
      · split
        · exact inside_nil _ _
        · exact inside_nil _ _

/-- A control byte can stand for the run. -/
def Encodable : Run UInt8 → Prop
  | .literal bytes => bytes.length < 128
  | .repeated count _ => 0 < count ∧ count ≤ 128

/-- A literal run of the input is cut off, behind complete runs, and the output has room for it. -/
def CutOff (input : List UInt8) (outLength : Nat) : Prop :=
  ∃ runs control tail, (∀ run ∈ runs, Encodable run) ∧ input = images runs ++ control :: tail ∧
    control.toNat < 128 ∧ tail.length < control.toNat ∧
    (RunLength.expand runs).length + control.toNat ≤ outLength

theorem signedChar_of_lt {control : UInt8} (small : control.toNat < 128) :
    signedChar control = control.toNat := if_pos small

theorem signedChar_of_ge {control : UInt8} (large : 128 ≤ control.toNat) :
    signedChar control = control.toNat - 256 := if_neg (Nat.not_lt.mpr large)

theorem not_cutOff_nil (outLength : Nat) : ¬ CutOff [] outLength := by
  rintro ⟨runs, control, tail, -, input_eq, -⟩
  exact absurd input_eq (List.append_ne_nil_of_right_ne_nil _ (List.cons_ne_nil _ _)).symm

theorem toNat_controlByte_literal {bytes : List UInt8} (encodable : Encodable (.literal bytes)) :
    (controlByte (.literal bytes)).toNat = bytes.length := by
  have small : bytes.length < 128 := encodable
  rw [controlByte, UInt8.toNat_ofNat']
  omega

theorem toNat_controlByte_repeated {count : Nat} {byte : UInt8}
    (encodable : Encodable (.repeated count byte)) :
    (controlByte (.repeated count byte)).toNat = 256 - count := by
  obtain ⟨positive, small⟩ : 0 < count ∧ count ≤ 128 := encodable
  rw [controlByte, UInt8.toNat_ofNat']
  omega

/-- Behind a complete run, the input is cut off when the rest is. -/
theorem CutOff.behind {run : Run UInt8} (encodable : Encodable run) {rest : List UInt8}
    {outLength : Nat} (room : run.expand.length ≤ outLength)
    (cut : CutOff rest (outLength - run.expand.length)) :
    CutOff (image run ++ rest) outLength := by
  obtain ⟨runs, last, tail, others, input_eq, last_lt, short, fits⟩ := cut
  refine ⟨run :: runs, last, tail, List.forall_mem_cons.mpr ⟨encodable, others⟩, ?_, last_lt, short,
    ?_⟩
  · rw [input_eq, images_cons, List.append_assoc]
  · rw [RunLength.expand_cons, List.length_append]
    omega

/-- A cut off literal run comes first, or behind a complete run. -/
theorem CutOff.first {input : List UInt8} {outLength : Nat} (cut : CutOff input outLength) :
    (∃ control tail, input = control :: tail ∧ control.toNat < 128 ∧ tail.length < control.toNat ∧
        control.toNat ≤ outLength) ∨
      ∃ run rest, Encodable run ∧ input = image run ++ rest ∧ run.expand.length ≤ outLength ∧
        CutOff rest (outLength - run.expand.length) := by
  obtain ⟨runs, last, tail, encodable, input_eq, last_lt, short, room⟩ := cut
  cases runs with
  | nil => exact .inl ⟨last, tail, input_eq, last_lt, short, (Nat.zero_add _).symm.trans_le room⟩
  | cons run runs =>
      obtain ⟨head, others⟩ := List.forall_mem_cons.mp encodable
      rw [RunLength.expand_cons, List.length_append] at room
      refine .inr ⟨run, images runs ++ last :: tail, head, ?_, by omega, runs, last, tail, others, rfl,
        last_lt, short, by omega⟩
      rw [input_eq, images_cons, List.append_assoc]

/-- The first control byte of a literal run. -/
theorem cutOff_literal_iff {control : UInt8} {rest : List UInt8} {outLength : Nat}
    (small : control.toNat < 128) :
    CutOff (control :: rest) outLength ↔ control.toNat ≤ outLength ∧
      (rest.length < control.toNat ∨
        CutOff (rest.drop control.toNat) (outLength - control.toNat)) := by
  constructor
  · intro cut
    rcases cut.first with ⟨other, tail, input_eq, -, short, room⟩ |
      ⟨run, others, encodable, input_eq, room, behind⟩
    · obtain ⟨rfl, rfl⟩ := List.cons.inj input_eq
      exact ⟨room, .inl short⟩
    · cases run with
      | literal bytes =>
          obtain ⟨control_eq, rest_eq⟩ := List.cons.inj input_eq
          rw [control_eq, toNat_controlByte_literal encodable, rest_eq]
          change rest = bytes ++ others at rest_eq
          refine ⟨room, .inr ?_⟩
          change CutOff (List.drop bytes.length (bytes ++ others)) _
          rw [List.drop_left]
          exact behind
      | repeated count byte =>
          obtain ⟨control_eq, -⟩ := List.cons.inj input_eq
          have value := toNat_controlByte_repeated encodable
          obtain ⟨positive, few⟩ : 0 < count ∧ count ≤ 128 := encodable
          rw [← control_eq] at value
          omega
  · rintro ⟨room, cut⟩
    rcases Nat.lt_or_ge rest.length control.toNat with short | complete
    · exact ⟨[], control, rest, nofun, rfl, small, short, (Nat.zero_add _).trans_le room⟩
    · have behind := cut.resolve_left (Nat.not_lt.mpr complete)
      have length_eq : (rest.take control.toNat).length = control.toNat :=
        List.length_take_of_le complete
      have encodable : Encodable (.literal (rest.take control.toNat)) :=
        length_eq.trans_lt small
      have control_eq : controlByte (.literal (rest.take control.toNat)) = control := by
        rw [← UInt8.toNat_inj, toNat_controlByte_literal encodable, length_eq]
      have whole := @CutOff.behind _ encodable (rest.drop control.toNat) outLength
        (length_eq.trans_le room) (by rw [Run.expand, length_eq]; exact behind)
      rwa [image, control_eq, List.cons_append, List.take_append_drop] at whole

/-- The first control byte of a repeat run. -/
theorem cutOff_repeat_iff {control : UInt8} {rest : List UInt8} {outLength : Nat}
    (large : 128 ≤ control.toNat) :
    CutOff (control :: rest) outLength ↔ 256 - control.toNat ≤ outLength ∧
      ∃ byte others, rest = byte :: others ∧ CutOff others (outLength - (256 - control.toNat)) := by
  have control_lt := control.toNat_lt
  constructor
  · intro cut
    rcases cut.first with ⟨other, tail, input_eq, other_lt, -⟩ |
      ⟨run, others, encodable, input_eq, room, behind⟩
    · obtain ⟨rfl, -⟩ := List.cons.inj input_eq
      omega
    · cases run with
      | literal bytes =>
          obtain ⟨control_eq, -⟩ := List.cons.inj input_eq
          have value := toNat_controlByte_literal encodable
          have small : bytes.length < 128 := encodable
          rw [← control_eq] at value
          omega
      | repeated count byte =>
          obtain ⟨control_eq, rest_eq⟩ := List.cons.inj input_eq
          have value := toNat_controlByte_repeated encodable
          obtain ⟨positive, few⟩ : 0 < count ∧ count ≤ 128 := encodable
          rw [← control_eq] at value
          rw [Run.expand, List.length_replicate] at room behind
          have count_eq : 256 - control.toNat = count := by omega
          rw [count_eq]
          exact ⟨room, byte, others, rest_eq, behind⟩
  · rintro ⟨room, byte, others, rfl, behind⟩
    have encodable : Encodable (.repeated (256 - control.toNat) byte) :=
      ⟨by omega, by omega⟩
    have control_eq : controlByte (.repeated (256 - control.toNat) byte) = control := by
      rw [← UInt8.toNat_inj, toNat_controlByte_repeated encodable]
      omega
    have whole := @CutOff.behind _ encodable others outLength
      (by rw [Run.expand, List.length_replicate]; exact room)
      (by rw [Run.expand, List.length_replicate]; exact behind)
    rwa [image, control_eq] at whole

/-- `unpack` stays inside exactly when no literal run is cut off where the output has room for it. -/
theorem unpackLoop_inside_iff (memory : Nat → UInt8) {input_end output_end input output : Nat}
    (output_le : output ≤ output_end) :
    Inside input_end output_end (unpackLoop memory input_end output_end input output).1 ↔
      ¬ CutOff (load memory input (input_end - input)) (output_end - output) := by
  induction left : input_end - input using Nat.strong_induction_on generalizing input output with
  | _ left ih =>
      subst left
      rw [unpackLoop]
      split
      · rename_i running
        obtain ⟨rest, rest_eq⟩ := Nat.exists_eq_add_of_lt running
        have left_eq : input_end - input = rest + 1 := by omega
        have read_control : (Access.read input 1).Within input_end output_end := running
        rw [left_eq, ByteMemory.load_succ]
        dsimp only
        rcases Nat.lt_or_ge (memory input).toNat 128 with small | large
        · have len_eq : (signedChar (memory input)).toNat = (memory input).toNat := by
            rw [signedChar_of_lt small, Int.toNat_natCast]
          rw [if_neg (by rw [signedChar_of_lt small]; omega), len_eq, cutOff_literal_iff small,
            ByteMemory.length_load]
          split
          · rename_i no_room
            refine iff_of_true (inside_cons_iff.mpr ⟨read_control, inside_nil _ _⟩) ?_
            rintro ⟨room, -⟩
            omega
          · rename_i room
            dsimp only
            rw [inside_cons_iff, inside_cons_iff, inside_cons_iff]
            rcases Nat.lt_or_ge rest (memory input).toNat with short | complete
            · refine iff_of_false ?_ fun whole => whole ⟨by omega, .inl short⟩
              rintro ⟨-, read_run, -⟩
              have read_run : input + 1 + (memory input).toNat ≤ input_end := read_run
              omega
            · have later := @ih _ (by omega) (input + 1 + (memory input).toNat)
                (output + (memory input).toNat) (by omega) rfl
              have read_run : (Access.read (input + 1) (memory input).toNat).Within input_end
                  output_end := by
                change input + 1 + (memory input).toNat ≤ input_end
                omega
              have write_run : (Access.write output (memory input).toNat).Within input_end
                  output_end := Nat.le_of_not_lt room
              rw [later, ByteMemory.drop_load _ _ complete, Nat.sub_sub,
                show input_end - (input + 1 + (memory input).toNat) = rest - (memory input).toNat by
                  omega]
              constructor
              · rintro ⟨-, -, -, whole⟩ ⟨-, cut⟩
                exact whole (cut.resolve_left (Nat.not_lt.mpr complete))
              · intro whole
                exact ⟨read_control, read_run, write_run, fun cut => whole ⟨by omega, .inr cut⟩⟩
        · have control_lt := (memory input).toNat_lt
          have len_eq : (-signedChar (memory input)).toNat = 256 - (memory input).toNat := by
            rw [signedChar_of_ge large]
            omega
          rw [if_pos (by rw [signedChar_of_ge large]; omega), len_eq, cutOff_repeat_iff large]
          split
          · rename_i stops
            refine iff_of_true (inside_cons_iff.mpr ⟨read_control, inside_nil _ _⟩) ?_
            rintro ⟨room, byte, others, load_eq, -⟩
            have length_eq := congrArg List.length load_eq
            rw [ByteMemory.length_load, List.length_cons] at length_eq
            omega
          · rename_i goes_on
            obtain ⟨more, rfl⟩ : ∃ more, rest = more + 1 := Nat.exists_eq_succ_of_ne_zero (by omega)
            have later := @ih _ (by omega) (input + 2) (output + (256 - (memory input).toNat))
              (by omega) rfl
            have read_byte : (Access.read (input + 1) 1).Within input_end output_end := by
              change input + 1 + 1 ≤ input_end
              omega
            have write_run : (Access.write output (256 - (memory input).toNat)).Within input_end
                output_end := by
              change output + (256 - (memory input).toNat) ≤ output_end
              omega
            dsimp only
            rw [inside_cons_iff, inside_cons_iff, inside_cons_iff, later, ByteMemory.load_succ,
              Nat.sub_sub, show input_end - (input + 2) = more by omega]
            constructor
            · rintro ⟨-, -, -, whole⟩ ⟨-, byte, others, load_eq, cut⟩
              obtain ⟨-, rfl⟩ := List.cons.inj load_eq
              exact whole cut
            · intro whole
              exact ⟨read_control, read_byte, write_run, fun cut =>
                whole ⟨by omega, _, _, rfl, cut⟩⟩
      · rename_i finished
        have left_eq : input_end - input = 0 := by omega
        rw [left_eq, if_neg (Nat.not_lt.mpr output_le)]
        exact iff_of_true (inside_nil _ _) (not_cutOff_nil _)

theorem map_append {unpacked : Except Fault (List UInt8)} {run : List UInt8} {output count : Nat}
    (length_eq : run.length = count) :
    unpacked.map (fun bytes => output + count + bytes.length) =
      (do let bytes ← unpacked; return run ++ bytes : Except Fault (List UInt8)).map
        fun bytes => output + bytes.length := by
  cases unpacked with
  | error fault => rfl
  | ok bytes =>
      refine congrArg Except.ok ?_
      dsimp only
      rw [List.length_append, length_eq, Nat.add_assoc]

/-- Where nothing is cut off, the bytes that `unpack` delivers are as many as its output moves by. -/
theorem unpackLoop_result (memory : Nat → UInt8) {input_end output_end input output : Nat}
    (output_le : output ≤ output_end)
    (whole : ¬ CutOff (load memory input (input_end - input)) (output_end - output)) :
    (unpackLoop memory input_end output_end input output).2 =
      (unpack (load memory input (input_end - input)) (output_end - output)).map
        fun bytes => output + bytes.length := by
  induction left : input_end - input using Nat.strong_induction_on generalizing input output with
  | _ left ih =>
      subst left
      rw [unpackLoop]
      split
      · rename_i running
        obtain ⟨rest, rest_eq⟩ := Nat.exists_eq_add_of_lt running
        have left_eq : input_end - input = rest + 1 := by omega
        rw [left_eq, ByteMemory.load_succ] at whole ⊢
        rw [unpack.eq_def]
        dsimp only
        rcases Nat.lt_or_ge (memory input).toNat 128 with small | large
        · have len_eq : (signedChar (memory input)).toNat = (memory input).toNat := by
            rw [signedChar_of_lt small, Int.toNat_natCast]
          have not_negative : ¬ signedChar (memory input) < 0 := by
            rw [signedChar_of_lt small]
            omega
          rw [cutOff_literal_iff small, ByteMemory.length_load] at whole
          rw [if_neg not_negative, if_neg not_negative, len_eq, ByteMemory.length_load]
          by_cases no_room : output_end < output + (memory input).toNat
          · rw [if_pos no_room, if_pos (by omega)]
            rfl
          · have complete : (memory input).toNat ≤ rest :=
              Nat.le_of_not_lt fun short => whole ⟨by omega, .inl short⟩
            have left_run : input_end - (input + 1 + (memory input).toNat) =
                rest - (memory input).toNat := by omega
            have later := @ih _ (by omega) (input + 1 + (memory input).toNat)
              (output + (memory input).toNat) (by omega) (fun cut => whole ⟨by omega, .inr (by
                rwa [ByteMemory.drop_load _ _ complete, Nat.sub_sub, ← left_run])⟩) rfl
            rw [left_run] at later
            rw [if_neg no_room, if_neg (by omega), if_neg (by omega), ByteMemory.drop_load _ _ complete,
              Nat.sub_sub]
            dsimp only
            rw [later]
            refine map_append ?_
            rw [List.length_take_of_le ((ByteMemory.length_load _ _ _).symm ▸ complete)]
        · have control_lt := (memory input).toNat_lt
          have len_eq : (-signedChar (memory input)).toNat = 256 - (memory input).toNat := by
            rw [signedChar_of_ge large]
            omega
          have negative : signedChar (memory input) < 0 := by
            rw [signedChar_of_ge large]
            omega
          rw [cutOff_repeat_iff large] at whole
          rw [if_pos negative, if_pos negative, len_eq]
          cases rest with
          | zero =>
              rw [if_pos (.inl (by omega))]
              rfl
          | succ more =>
              rw [ByteMemory.load_succ]
              dsimp only
              by_cases no_room : output_end < output + (256 - (memory input).toNat)
              · rw [if_pos (.inr no_room), if_pos (by omega)]
                rfl
              · have left_run : input_end - (input + 2) = more := by omega
                have later := @ih _ (by omega) (input + 2) (output + (256 - (memory input).toNat))
                  (by omega) (fun cut => whole ⟨by omega, _, _, ByteMemory.load_succ _ _ _, by
                    rwa [Nat.sub_sub, ← left_run]⟩) rfl
                rw [left_run] at later
                rw [if_neg (by omega), if_neg (by omega), Nat.sub_sub, later]
                exact map_append List.length_replicate
      · rename_i finished
        have left_eq : input_end - input = 0 := by omega
        rw [left_eq, if_neg (Nat.not_lt.mpr output_le), unpack.eq_def]
        rfl

/-- `applyDiff` stays inside its areas for any differences, and `unpack` does exactly when no literal run
of its input is cut off where the output has room for it. -/
theorem accesses_inside (memory : Nat → UInt8) (inLength outLength : Nat) :
    Inside inLength outLength (applyDiffAccesses memory inLength outLength).1 ∧
      (Inside inLength outLength (unpackAccesses memory inLength outLength).1 ↔
        ¬ CutOff (load memory 0 inLength) outLength) := by
  constructor
  · rw [applyDiffAccesses]
    split
    · exact inside_nil _ _
    · exact applyDiffLoop_inside _ _ _ _ _
  · have iff := @unpackLoop_inside_iff memory inLength outLength 0 0 (Nat.zero_le _)
    rwa [Nat.sub_zero, Nat.sub_zero] at iff

/-- A literal run of five bytes of which only one is there. -/
theorem unpack_reads_beyond :
    ¬ ∀ (memory : Nat → UInt8) (inLength outLength : Nat),
      Inside inLength outLength (unpackAccesses memory inLength outLength).1 := by
  intro inside
  have whole := inside (fun _ => 5) 2 10
  rw [unpackAccesses, unpackLoop, if_pos (by decide), if_neg (by decide), if_neg (by decide)] at whole
  have read_run := whole (.read 1 5) (.tail _ (.head _))
  exact absurd (show 1 + 5 ≤ 2 from read_run) (by decide)

end Compressor
end Firebird
