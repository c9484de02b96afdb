import Mathlib
import Firebird.Common.Fault
import Firebird.Library.RunLength

/-!
# Record compression

The model of `Compressor` from `jrd/sqz.cpp`: the constructor computes the control bytes of a
record, `pack` writes the compressed image and `unpack` reads it back.  Lengths are natural
numbers; a record is at most `MAX_RECORD_SIZE` bytes, far below the range of `FB_SIZE_T`.
-/

namespace Firebird

open RunLength (Run)

/-- `MAX_RECORD_SIZE`, the largest record image the engine accepts. -/
def maxRecordSize : Nat := 65535

/-- A byte buffer of fixed capacity, with the bytes written so far. -/
structure Buffer where
  /-- Number of bytes the buffer was allocated for. -/
  capacity : Nat
  /-- Bytes written, oldest first. -/
  bytes : List UInt8
  /-- Writes never pass the end of the buffer. -/
  fits : bytes.length ≤ capacity

namespace Buffer

/-- A buffer fresh from `getBuffer(capacity)`. -/
def empty (capacity : Nat) : Buffer := ⟨capacity, [], Nat.zero_le _⟩

/-- `*control++ = byte`; there is no result when the buffer is already full. -/
def write (buffer : Buffer) (byte : UInt8) : Option Buffer :=
  if room : buffer.bytes.length < buffer.capacity then
    some ⟨buffer.capacity, buffer.bytes ++ [byte], by simpa using Nat.succ_le_of_lt room⟩
  else
    none

theorem exists_write {buffer : Buffer} (room : buffer.bytes.length < buffer.capacity)
    (byte : UInt8) :
    ∃ written, buffer.write byte = some written ∧ written.capacity = buffer.capacity ∧
      written.bytes = buffer.bytes ++ [byte] :=
  ⟨⟨buffer.capacity, buffer.bytes ++ [byte], by simpa using Nat.succ_le_of_lt room⟩,
    by rw [write, dif_pos room], rfl, rfl⟩

end Buffer

namespace Compressor

/-! ## The constructor -/

/-- The look-ahead loop: length of the run before three equal bytes start, or all of `data`. -/
def literalRun : List UInt8 → Nat
  | first :: second :: third :: rest =>
      if first ≠ second ∨ first ≠ third then literalRun (second :: third :: rest) + 1 else 0
  | data => data.length

/-- Number of leading bytes of `data` equal to `c`, looking at no more than `max` of them. -/
def repeatRun (c : UInt8) : Nat → List UInt8 → Nat
  | max + 1, byte :: data => if byte ≠ c then 0 else repeatRun c max data + 1
  | _, _ => 0

/-- `while (count)`: the control bytes of a non-compressible run, limited to 127 bytes each. -/
def writeLiterals (control : Buffer) (m_length : Nat) (count : Nat) : Option (Buffer × Nat) :=
  if count = 0 then
    some (control, m_length)
  else
    let max := min count 127
    match control.write (UInt8.ofNat max) with
    | none => none
    | some control => writeLiterals control (m_length + (1 + max)) (count - max)
termination_by count

theorem literalRun_le (data : List UInt8) : literalRun data ≤ data.length := by
  induction data using literalRun.induct with
  | case1 first second third rest differ ih =>
      rw [literalRun, if_pos differ, List.length_cons]
      omega
  | case2 first second third rest equal => simp [literalRun, equal]
  | case3 data short => simp [literalRun]

/-- The look-ahead stops early only in front of three equal bytes. -/
theorem drop_literalRun {data : List UInt8} (early : literalRun data < data.length) :
    ∃ byte rest, data.drop (literalRun data) = byte :: byte :: byte :: rest := by
  induction data using literalRun.induct with
  | case1 first second third rest differ ih =>
      rw [literalRun, if_pos differ] at early ⊢
      rw [List.drop_succ_cons]
      exact ih (by simpa using early)
  | case2 first second third rest equal =>
      obtain ⟨rfl, rfl⟩ : first = second ∧ first = third := by tauto
      exact ⟨first, rest, by simp [literalRun]⟩
  | case3 data short =>
      rw [literalRun] at early
      · exact absurd early (Nat.lt_irrefl _)
      · exact short

/-- A repeat run of the source is exactly that many copies of its byte. -/
theorem repeatRun_spec (c : UInt8) (max : Nat) (data : List UInt8) :
    repeatRun c max data ≤ max ∧
      data = List.replicate (repeatRun c max data) c ++ data.drop (repeatRun c max data) := by
  induction max, data using repeatRun.induct c with
  | case1 max byte data differ => simp [repeatRun, differ]
  | case2 max byte data equal ih =>
      obtain ⟨bound, split⟩ := ih
      obtain rfl : byte = c := by simpa using equal
      rw [repeatRun, if_neg equal]
      refine ⟨Nat.succ_le_succ bound, ?_⟩
      rw [List.replicate_succ, List.drop_succ_cons, List.cons_append, ← split]
  | case3 max data short =>
      rw [repeatRun]
      · simp
      · exact short

/-- Three equal bytes in front give a repeat run of at least three bytes. -/
theorem three_le_repeatRun {byte : UInt8} {rest : List UInt8} {max : Nat} (large : 3 ≤ max) :
    3 ≤ repeatRun byte max (byte :: byte :: byte :: rest) := by
  obtain ⟨max, rfl⟩ := Nat.exists_eq_add_of_le' large
  simp [repeatRun]

/-- What one turn of `while ((count = end - data))` finds: literal bytes up to the end of the record,
or literal bytes followed by a run of three to 128 equal bytes. -/
theorem turn_cases (data : List UInt8) :
    data.drop (literalRun data) = [] ∨
      ∃ c tail run, 3 ≤ run ∧ run ≤ 128 ∧
        data.drop (literalRun data) = List.replicate run c ++ tail ∧
        repeatRun c (min 128 (data.drop (literalRun data)).length)
          (data.drop (literalRun data)) = run := by
  by_cases early : literalRun data < data.length
  · right
    obtain ⟨c, rest, split⟩ := drop_literalRun early
    rw [split]
    have large : 3 ≤ min 128 (c :: c :: c :: rest).length := by
      simp only [List.length_cons]
      omega
    have lower := @three_le_repeatRun c rest _ large
    obtain ⟨upper, copies⟩ := repeatRun_spec c (min 128 (c :: c :: c :: rest).length)
      (c :: c :: c :: rest)
    exact ⟨c, _, _, lower, Nat.le_trans upper (Nat.min_le_left _ _), copies, rfl⟩
  · left
    exact List.drop_eq_nil_of_le (Nat.le_of_not_lt early)

/-- The main loop of the constructor, from `data` to the end of the record. -/
def scan (control : Buffer) (m_length : Nat) (data : List UInt8) : Option (Buffer × Nat) :=
  match data with
  | [] => some (control, m_length)
  | byte :: rest =>
      -- Non-compressible runs are limited to 127 bytes.
      match writeLiterals control m_length (literalRun (byte :: rest)) with
      | none => none
      | some (control, m_length) =>
          let after := (byte :: rest).drop (literalRun (byte :: rest))
          -- Compressible runs are limited to 128 bytes.
          let max := min 128 after.length
          if 3 ≤ max then
            let run := repeatRun (after.headD 0) max after
            match control.write (UInt8.ofNat (256 - run)) with
            | none => none
            | some control => scan control (m_length + 2) (after.drop run)
          else
            scan control m_length after
termination_by data.length
decreasing_by
  · rcases turn_cases (byte :: rest) with finished | ⟨c, tail, run, lower, _, split, found⟩
    · refine absurd ‹3 ≤ max› ?_
      simp [max, after, finished]
    · obtain ⟨run, rfl⟩ := Nat.exists_eq_add_of_le' lower
      have head : ((byte :: rest).drop (literalRun (byte :: rest))).headD 0 = c := by
        simp [split, List.replicate_succ]
      have shorter := @List.length_drop _ (literalRun (byte :: rest)) (byte :: rest)
      simp only [head, found]
      rw [List.length_drop, shorter, List.length_cons]
      omega
  · rcases turn_cases (byte :: rest) with finished | ⟨c, tail, run, lower, _, split, _⟩
    · simp [finished]
    · refine absurd ?_ ‹¬3 ≤ max›
      simp only [max, after]
      rw [split, List.length_append, List.length_replicate]
      omega

end Compressor

/-- `Compressor`: the control bytes of one record and the length of its compressed image. -/
structure Compressor where
  /-- `m_control`, shrunk to the bytes really used. -/
  m_control : List UInt8
  /-- `m_length`. -/
  m_length : Nat
  deriving DecidableEq, Repr

namespace Compressor

/-- The constructor; there is no result when the control buffer overflows. -/
def new (data : List UInt8) : Option Compressor :=
  match scan (Buffer.empty ((data.length + 1) / 2)) 0 data with
  | none => none
  | some (control, m_length) => some ⟨control.bytes, m_length⟩

/-- `getPackedLength`. -/
def getPackedLength (compressor : Compressor) : Nat := compressor.m_length

/-! ## Writing and reading the compressed image -/

/-- The loop of `pack(input, output)`, one control byte at a time. -/
def packLoop : List UInt8 → List UInt8 → Except Fault (List UInt8)
  | [], _ => .ok []
  | control :: controls, input =>
      let length := signedChar control
      if length < 0 then
        match input with
        | [] => .error .outOfBounds
        | byte :: _ => do
            let output ← packLoop controls (input.drop (-length).toNat)
            return control :: byte :: output
      else if input.length < length.toNat then
        .error .outOfBounds
      else do
        let output ← packLoop controls (input.drop length.toNat)
        return control :: input.take length.toNat ++ output

/-- `pack(input, output)`: the bytes stored into a sufficiently large area. -/
def pack (compressor : Compressor) (input : List UInt8) : Except Fault (List UInt8) :=
  packLoop compressor.m_control input

/-- `unpack`: the bytes stored into an area of `outLength` bytes. -/
def unpack (input : List UInt8) (outLength : Nat) : Except Fault (List UInt8) :=
  match input with
  | [] => .ok []
  | control :: input =>
      let len := signedChar control
      if len < 0 then
        match input with
        | [] => .error (.bugcheck 179)
        | c :: input =>
            if outLength < (-len).toNat then
              .error (.bugcheck 179)
            else do
              let output ← unpack input (outLength - (-len).toNat)
              return List.replicate (-len).toNat c ++ output
      else if outLength < len.toNat then
        .error (.bugcheck 179)
      else if input.length < len.toNat then
        .error .outOfBounds
      else do
        let output ← unpack (input.drop len.toNat) (outLength - len.toNat)
        return input.take len.toNat ++ output
termination_by input.length

/-! ## Segmentation of a record

The control bytes name the runs of one fixed segmentation of the record.
-/

/-- The control byte written for a run. -/
def controlByte : Run UInt8 → UInt8
  | .literal bytes => UInt8.ofNat bytes.length
  | .repeated count _ => UInt8.ofNat (256 - count)

/-- The compressed image of a run. -/
def image : Run UInt8 → List UInt8
  | .literal bytes => controlByte (.literal bytes) :: bytes
  | .repeated count byte => [controlByte (.repeated count byte), byte]

/-- The compressed image of a list of runs. -/
def images (runs : List (Run UInt8)) : List UInt8 := runs.flatMap image

@[simp] theorem images_nil : images [] = [] := rfl

@[simp] theorem images_cons (run : Run UInt8) (runs : List (Run UInt8)) :
    images (run :: runs) = image run ++ images runs := rfl

@[simp] theorem images_append (left right : List (Run UInt8)) :
    images (left ++ right) = images left ++ images right := by
  simp [images]

theorem scan_of_finished {data : List UInt8} (control : Buffer) (m_length : Nat)
    (finished : data.drop (literalRun data) = []) :
    scan control m_length data = writeLiterals control m_length (literalRun data) := by
  cases data with
  | nil => simp [scan, literalRun, writeLiterals]
  | cons byte rest =>
      rw [scan]
      cases written : writeLiterals control m_length (literalRun (byte :: rest)) with
      | none => rfl
      | some state => simp [finished, scan]

theorem scan_of_repeat {data tail : List UInt8} {c : UInt8} {run : Nat} (control : Buffer)
    (m_length : Nat) (lower : 3 ≤ run)
    (split : data.drop (literalRun data) = List.replicate run c ++ tail)
    (found : repeatRun c (min 128 (data.drop (literalRun data)).length)
      (data.drop (literalRun data)) = run) :
    scan control m_length data =
      (writeLiterals control m_length (literalRun data)).bind fun state =>
        (state.1.write (UInt8.ofNat (256 - run))).bind fun control =>
          scan control (state.2 + 2) tail := by
  cases data with
  | nil =>
      have lengths := congrArg List.length split
      simp only [List.drop_nil, List.length_nil, List.length_append, List.length_replicate]
        at lengths
      omega
  | cons byte rest =>
      have head : ((byte :: rest).drop (literalRun (byte :: rest))).headD 0 = c := by
        obtain ⟨run, rfl⟩ := Nat.exists_eq_add_of_le' lower
        simp [split, List.replicate_succ]
      have large : 3 ≤ min 128 ((byte :: rest).drop (literalRun (byte :: rest))).length := by
        rw [split, List.length_append, List.length_replicate]
        omega
      have remaining : ((byte :: rest).drop (literalRun (byte :: rest))).drop run = tail := by
        simp [split]
      rw [scan]
      cases writeLiterals control m_length (literalRun (byte :: rest)) with
      | none => rfl
      | some state =>
          simp only [head, found, if_pos large, remaining, Option.bind_some]
          cases state.1.write (UInt8.ofNat (256 - run)) <;> rfl

/-- Writing the control bytes of a literal run of the record. -/
theorem writeLiterals_spec (bytes : List UInt8) (control : Buffer) (m_length : Nat)
    (room : control.bytes.length + (RunLength.literals 126 bytes).length ≤ control.capacity) :
    ∃ written,
      writeLiterals control m_length bytes.length =
        some (written, m_length + (images (RunLength.literals 126 bytes)).length) ∧
      written.capacity = control.capacity ∧
      written.bytes = control.bytes ++ (RunLength.literals 126 bytes).map controlByte := by
  induction bytes using RunLength.literals.induct 126 generalizing control m_length with
  | case1 => exact ⟨control, by simp [writeLiterals, images], rfl, by simp⟩
  | case2 head tail ih =>
      rw [RunLength.literals, List.length_cons] at room
      have nonempty : ¬(head :: tail).length = 0 := by simp
      have piece : ((head :: tail).take (126 + 1)).length = min (head :: tail).length 127 := by
        rw [List.length_take, Nat.min_comm]
      obtain ⟨first, written_eq, capacity_eq, bytes_eq⟩ :=
        control.exists_write (by omega)
          (UInt8.ofNat (min (head :: tail).length 127))
      obtain ⟨last, loop_eq, last_capacity, last_bytes⟩ :=
        ih first (m_length + (1 + min (head :: tail).length 127)) (by
          rw [bytes_eq, capacity_eq, List.length_append, List.length_singleton]
          omega)
      refine ⟨last, ?_, last_capacity.trans capacity_eq, ?_⟩
      · rw [writeLiterals, if_neg nonempty]
        simp only [written_eq]
        rw [List.length_drop] at loop_eq
        rw [show (head :: tail).length - min (head :: tail).length 127 =
            (head :: tail).length - (126 + 1) by omega, loop_eq]
        rw [RunLength.literals, images_cons, List.length_append]
        simp only [image, List.length_cons, piece]
        congr 2
        omega
      · rw [last_bytes, bytes_eq, RunLength.literals, List.map_cons]
        simp only [controlByte, piece, List.append_assoc, List.singleton_append]

/-- The segmentation that the constructor finds: literal bytes up to the end of the record, or literal
bytes and a run of equal bytes, and then the rest. -/
inductive Segmented : List UInt8 → List (Run UInt8) → Prop where
  | last {data : List UInt8} (finished : data.drop (literalRun data) = []) :
      Segmented data (RunLength.literals 126 data)
  | turn {data tail : List UInt8} {c : UInt8} {run : Nat} {runs : List (Run UInt8)}
      (lower : 3 ≤ run) (upper : run ≤ 128)
      (split : data.drop (literalRun data) = List.replicate run c ++ tail)
      (found : repeatRun c (min 128 (data.drop (literalRun data)).length)
        (data.drop (literalRun data)) = run)
      (later : Segmented tail runs) :
      Segmented data
        (RunLength.literals 126 (data.take (literalRun data)) ++ .repeated run c :: runs)

theorem exists_segmented (data : List UInt8) : ∃ runs, Segmented data runs := by
  induction bound : data.length using Nat.strongRecOn generalizing data with
  | ind size ih =>
  subst bound
  rcases turn_cases data with finished | ⟨c, tail, run, lower, upper, split, found⟩
  · exact ⟨_, .last finished⟩
  · have shorter := congrArg List.length split
    rw [List.length_drop, List.length_append, List.length_replicate] at shorter
    obtain ⟨runs, later⟩ := ih tail.length (by omega) tail rfl
    exact ⟨_, .turn lower upper split found later⟩

namespace Segmented

variable {data : List UInt8} {runs : List (Run UInt8)}

theorem expand_eq (segmented : Segmented data runs) : RunLength.expand runs = data := by
  induction segmented with
  | last finished => exact RunLength.expand_literals _ _
  | turn lower upper split found later ih =>
      rw [RunLength.expand_append, RunLength.expand_literals, RunLength.expand_cons, ih,
        Run.expand, ← split]
      exact List.take_append_drop _ _

theorem within (segmented : Segmented data runs) : ∀ run ∈ runs, run.Within 127 128 := by
  induction segmented with
  | last finished => exact RunLength.literals_within 126 128 _
  | turn lower upper split found later ih =>
      intro segment member
      rw [List.mem_append, List.mem_cons] at member
      rcases member with member | rfl | member
      · exact RunLength.literals_within 126 128 _ segment member
      · exact ⟨by omega, upper⟩
      · exact ih segment member

/-- One control byte for every two bytes of the record, rounded up, is enough. -/
theorem short (segmented : Segmented data runs) : 2 * runs.length ≤ data.length + 1 := by
  induction segmented with
  | last finished => exact RunLength.length_literals 126 (by decide) _
  | @turn data tail c run runs lower upper split found later ih =>
      have headers := RunLength.length_literals 126 (by decide) (data.take (literalRun data))
      have taken := literalRun_le data
      have remaining := congrArg List.length split
      rw [List.length_drop, List.length_append, List.length_replicate] at remaining
      rw [List.length_take] at headers
      rw [List.length_append, List.length_cons]
      by_cases empty : data.take (literalRun data) = []
      · rw [empty, RunLength.literals_nil, List.length_nil]
        omega
      · have positive := List.length_pos_of_ne_nil empty
        rw [List.length_take] at positive
        omega

/-- The main loop writes the control bytes of the runs and sums the lengths of their images. -/
theorem scan_eq (segmented : Segmented data runs) (control : Buffer) (m_length : Nat)
    (room : control.bytes.length + runs.length ≤ control.capacity) :
    ∃ written, scan control m_length data = some (written, m_length + (images runs).length) ∧
      written.bytes = control.bytes ++ runs.map controlByte := by
  induction segmented generalizing control m_length with
  | @last data finished =>
      have whole : data.length = literalRun data := by
        have := literalRun_le data
        have := List.drop_eq_nil_iff.mp finished
        omega
      obtain ⟨written, loop_eq, _, bytes_eq⟩ := writeLiterals_spec data control m_length room
      exact ⟨written, by rw [scan_of_finished _ _ finished, ← whole, loop_eq], bytes_eq⟩
  | @turn data tail c run runs lower upper split found later ih =>
      have bytes_length : (data.take (literalRun data)).length = literalRun data := by
        rw [List.length_take, Nat.min_eq_left (literalRun_le data)]
      rw [List.length_append, List.length_cons] at room
      obtain ⟨first, first_eq, first_capacity, first_bytes⟩ :=
        writeLiterals_spec (data.take (literalRun data)) control m_length (by omega)
      have first_length := congrArg List.length first_bytes
      rw [List.length_append, List.length_map] at first_length
      obtain ⟨second, second_eq, second_capacity, second_bytes⟩ :=
        first.exists_write (by omega) (UInt8.ofNat (256 - run))
      have second_length := congrArg List.length second_bytes
      rw [List.length_append, List.length_singleton] at second_length
      obtain ⟨written, loop_eq, bytes_eq⟩ := ih second
        (m_length + (images (RunLength.literals 126 (data.take (literalRun data)))).length + 2)
        (by omega)
      refine ⟨written, ?_, ?_⟩
      · rw [bytes_length] at first_eq
        rw [scan_of_repeat control m_length lower split found, first_eq]
        simp only [Option.bind_some, second_eq, loop_eq]
        rw [images_append, images_cons]
        simp only [List.length_append, image, List.length_cons, List.length_nil]
        congr 2
        omega
      · rw [bytes_eq, second_bytes, first_bytes]
        simp [controlByte]

/-- The constructor on a record with its segmentation. -/
theorem new_eq (segmented : Segmented data runs) :
    new data = some ⟨runs.map controlByte, (images runs).length⟩ := by
  have short := segmented.short
  obtain ⟨written, scan_eq, bytes_eq⟩ :=
    segmented.scan_eq (Buffer.empty ((data.length + 1) / 2)) 0 (by
      simp only [Buffer.empty, List.length_nil]
      omega)
  rw [new, scan_eq]
  simp [bytes_eq, Buffer.empty]

end Segmented

/-! ## Round trip -/

theorem packLoop_controls {runs : List (Run UInt8)} (within : ∀ run ∈ runs, run.Within 127 128) :
    packLoop (runs.map controlByte) (RunLength.expand runs) = .ok (images runs) := by
  induction runs with
  | nil => rfl
  | cons run runs ih =>
      have rest := ih fun run member => within run (List.mem_cons_of_mem _ member)
      have bounds := within run List.mem_cons_self
      rw [List.map_cons, RunLength.expand_cons, images_cons]
      cases run with
      | literal bytes =>
          obtain ⟨positive, small⟩ := bounds
          have value : signedChar (UInt8.ofNat bytes.length) = bytes.length :=
            signedChar_ofNat (by omega)
          rw [packLoop.eq_def]
          simp only [controlByte, value, Run.expand, image]
          rw [if_neg (by omega), if_neg (by simp)]
          simp [rest, bind, Except.bind, pure, Except.pure]
      | repeated count byte =>
          obtain ⟨positive, small⟩ := bounds
          have value : signedChar (UInt8.ofNat (256 - count)) = -(count : Int) :=
            signedChar_neg positive small
          obtain ⟨more, rfl⟩ := Nat.exists_eq_add_of_le' positive
          rw [packLoop.eq_def]
          simp only [controlByte, value, Run.expand, image]
          rw [if_pos (by omega)]
          simp only [List.replicate_succ, List.cons_append]
          rw [show (- -((more + 1 : Nat) : Int)).toNat = more + 1 by omega]
          simp [rest, bind, Except.bind, pure, Except.pure]

theorem unpack_images {runs : List (Run UInt8)} (within : ∀ run ∈ runs, run.Within 127 128)
    (outLength : Nat) (room : (RunLength.expand runs).length ≤ outLength) :
    unpack (images runs) outLength = .ok (RunLength.expand runs) := by
  induction runs generalizing outLength with
  | nil => simp [images, unpack]
  | cons run runs ih =>
      have rest := ih fun run member => within run (List.mem_cons_of_mem _ member)
      have bounds := within run List.mem_cons_self
      rw [RunLength.expand_cons, List.length_append] at room
      rw [RunLength.expand_cons, images_cons]
      cases run with
      | literal bytes =>
          obtain ⟨positive, small⟩ := bounds
          have value : signedChar (UInt8.ofNat bytes.length) = bytes.length :=
            signedChar_ofNat (by omega)
          simp only [Run.expand] at room
          rw [image, List.cons_append, unpack.eq_def]
          simp only [controlByte, value, Run.expand]
          rw [if_neg (by omega), if_neg (by omega), if_neg (by simp)]
          simp [rest (outLength - bytes.length) (by omega), bind, Except.bind, pure, Except.pure]
      | repeated count byte =>
          obtain ⟨positive, small⟩ := bounds
          have value : signedChar (UInt8.ofNat (256 - count)) = -(count : Int) :=
            signedChar_neg positive small
          simp only [Run.expand, List.length_replicate] at room
          rw [image, List.cons_append, unpack.eq_def]
          simp only [controlByte, value, Run.expand, List.cons_append, List.nil_append]
          rw [if_pos (by omega), if_neg (by omega)]
          rw [show (- -(count : Int)).toNat = count by omega]
          simp [rest (outLength - count) (by omega), bind, Except.bind, pure, Except.pure]

/-- The constructor succeeds on every record: the control buffer is large enough, its bytes are the
control bytes of a segmentation of the record and `m_length` is the length of the image. -/
theorem new_spec (data : List UInt8) :
    ∃ (compressor : Compressor) (runs : List (Run UInt8)),
      new data = some compressor ∧ compressor.m_control = runs.map controlByte ∧
      compressor.m_length = (images runs).length ∧ RunLength.expand runs = data ∧
      (∀ run ∈ runs, run.Within 127 128) ∧ 2 * runs.length ≤ data.length + 1 := by
  obtain ⟨runs, segmented⟩ := exists_segmented data
  exact ⟨_, runs, segmented.new_eq, rfl, rfl, segmented.expand_eq, segmented.within,
    segmented.short⟩

/-- Compression is lossless: on every record the constructor fills a control buffer of half the
record's length without overrunning it, `pack` writes `getPackedLength` bytes, and `unpack` of these
bytes into any area that holds the record returns the record. -/
theorem unpack_pack (data : List UInt8) (spare : Nat) :
    ∃ compressor packed,
      new data = some compressor ∧ compressor.m_control.length ≤ (data.length + 1) / 2 ∧
      compressor.pack data = .ok packed ∧ compressor.getPackedLength = packed.length ∧
      unpack packed (data.length + spare) = .ok data := by
  obtain ⟨compressor, runs, new_eq, control_eq, length_eq, expand_eq, within, short⟩ :=
    new_spec data
  refine ⟨compressor, images runs, new_eq, ?_, ?_, length_eq, ?_⟩
  · rw [control_eq, List.length_map]
    omega
  · rw [pack, control_eq, ← expand_eq]
    exact packLoop_controls within
  · rw [← expand_eq]
    exact unpack_images within _ (by omega)

theorem length_images {runs : List (Run UInt8)} (within : ∀ run ∈ runs, run.Within 127 128) :
    (images runs).length ≤ (RunLength.expand runs).length + runs.length := by
  induction runs with
  | nil => simp [images]
  | cons run runs ih =>
      have rest := ih fun run member => within run (List.mem_cons_of_mem _ member)
      have bounds := within run List.mem_cons_self
      rw [images_cons, RunLength.expand_cons, List.length_append, List.length_append,
        List.length_cons]
      cases run with
      | literal bytes =>
          simp only [image, Run.expand, List.length_cons]
          omega
      | repeated count byte =>
          have positive := bounds.1
          simp only [image, Run.expand, List.length_cons, List.length_nil, List.length_replicate]
          omega

/-- On records the engine accepts no length leaves the range of `FB_SIZE_T`. -/
theorem getPackedLength_lt {data : List UInt8} (accepted : data.length ≤ maxRecordSize)
    {compressor : Compressor} (constructed : new data = some compressor) :
    data.length + 1 < 2 ^ 32 ∧ compressor.getPackedLength < 2 ^ 32 := by
  obtain ⟨found, runs, new_eq, _, length_eq, expand_eq, within, short⟩ := new_spec data
  obtain rfl : found = compressor := Option.some.inj (new_eq.symm.trans constructed)
  have bound := length_images within
  rw [expand_eq] at bound
  rw [getPackedLength, length_eq]
  unfold maxRecordSize at accepted
  omega

end Compressor

end Firebird
