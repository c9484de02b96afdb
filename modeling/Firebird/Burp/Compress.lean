import Mathlib
import Firebird.Common.Fault
import Firebird.Library.ByteMemory

/-!
# Record data in a backup file

`compress` of the backup program writes a record as runs: a positive header and that many bytes, or
a negative header and one byte to repeat.  `decompress` of the restore program fills a buffer from
such a stream, and clamps a header that asks for more than the buffer has left.
-/

namespace Firebird
namespace Burp

open ByteMemory

section Backup

/-- Turns of the three-byte look-ahead: the position of the first byte that is followed by two
copies of itself, or two bytes before the end. -/
def lookAhead : List UInt8 → Nat
  | first :: second :: third :: rest =>
      if first ≠ second ∨ second ≠ third then lookAhead (second :: third :: rest) + 1 else 0
  | _ => 0

/-- The bytes that are written literally from `p` on; `q` starts at `p + 2`, maybe past the end. -/
def literalRun (data : List UInt8) : Nat :=
  let turns := lookAhead data
  if turns + 2 < data.length then turns else data.length

/-- Write `run` bytes as they are, at most 127 behind one header. -/
def writeLiterals (run : Nat) (data : List UInt8) : List UInt8 :=
  if 127 < run then
    UInt8.ofNat 127 :: (data.take 127 ++ writeLiterals (run - 127) (data.drop 127))
  else if run ≠ 0 then UInt8.ofNat run :: data.take run
  else []
termination_by run
decreasing_by omega

/-- Write `run` copies of a byte, at most 127 behind one header. -/
def writeRepeats (run : Nat) (byte : UInt8) : List UInt8 :=
  if 127 < run then UInt8.ofNat (256 - 127) :: byte :: writeRepeats (run - 127) byte
  else if run ≠ 0 then [UInt8.ofNat (256 - run), byte]
  else []
termination_by run
decreasing_by omega

/-- The copies of the byte at `p` that stand there. -/
def repeatRun (data : List UInt8) (byte : UInt8) : Nat := (data.takeWhile (· == byte)).length

/-- Write out data in compressed form. -/
def compress (data : List UInt8) : List UInt8 :=
  if data.length = 0 then []
  else
    let run := literalRun data
    match _rest_eq : data.drop run with
    | [] => writeLiterals run data
    | byte :: others =>
        let copies := repeatRun (byte :: others) byte
        writeLiterals run data ++
          (writeRepeats copies byte ++ compress ((byte :: others).drop copies))
termination_by data.length
decreasing_by
  have shorter : (byte :: others).length ≤ data.length := by
    rw [← _rest_eq, List.length_drop]
    exact Nat.sub_le _ _
  have positive : 0 < repeatRun (byte :: others) byte := by
    simp [repeatRun]
  rw [List.length_drop]
  simp only [List.length_cons] at shorter ⊢
  omega

theorem compress_of_drop_nil {data : List UInt8} (nonempty : data.length ≠ 0)
    (rest_eq : data.drop (literalRun data) = []) :
    compress data = writeLiterals (literalRun data) data := by
  rw [compress, if_neg nonempty]
  dsimp only
  split
  · rfl
  · rename_i other_eq
    rw [rest_eq] at other_eq
    cases other_eq

theorem compress_of_drop_cons {data others : List UInt8} {byte : UInt8}
    (nonempty : data.length ≠ 0) (rest_eq : data.drop (literalRun data) = byte :: others) :
    compress data = writeLiterals (literalRun data) data ++
      (writeRepeats (repeatRun (byte :: others) byte) byte ++
        compress ((byte :: others).drop (repeatRun (byte :: others) byte))) := by
  rw [compress, if_neg nonempty]
  dsimp only
  split
  · rename_i other_eq
    rw [rest_eq] at other_eq
    cases other_eq
  · rename_i other_eq
    rw [rest_eq] at other_eq
    cases other_eq
    rfl

end Backup

section Restore

/-- How `decompress` ends. -/
inductive Outcome where
  /-- The buffer is full. -/
  | finished
  /-- The backup file ends before the buffer is full. -/
  | endOfFile
  /-- Message 34: the buffer is overrun. -/
  | lengthError
  deriving DecidableEq, Repr

/-- The memory a call leaves, and the part of the stream that is not read. -/
structure Restored where
  memory : Nat → UInt8
  stream : List UInt8
  outcome : Outcome

/-- The bytes a header stands for; message 202 adjusts one that goes beyond the end. -/
def adjusted (p finish : Nat) (count : Int) : Nat :=
  if 0 < count then (if (finish : Int) - p < count then (finish : Int) - p else count).toNat
  else (-(if (finish : Int) + count < p then (p : Int) - finish else count)).toNat

/-- Get a number of compressed bytes; `finish` is the end of the buffer. -/
def decompress (memory : Nat → UInt8) (p finish : Nat) (stream : List UInt8) : Restored :=
  if p < finish then
    match stream with
    | [] => ⟨memory, [], .endOfFile⟩
    | header :: stream =>
        let count := signedChar header
        let length := adjusted p finish count
        if 0 < count then
          -- `get_block` hands over what the file still has before it reports its end
          if stream.length < length then ⟨store memory p stream, [], .endOfFile⟩
          else decompress (store memory p (stream.take length)) (p + length) finish
            (stream.drop length)
        else if count < 0 then
          match stream with
          | [] => ⟨memory, [], .endOfFile⟩
          | byte :: stream =>
              decompress (store memory p (List.replicate length byte)) (p + length) finish stream
        else decompress memory p finish stream
  else ⟨memory, stream, if finish < p then .lengthError else .finished⟩
termination_by stream.length

variable {memory : Nat → UInt8} {p finish : Nat} {stream : List UInt8}

theorem adjusted_natCast {run : Nat} (fits : p + run ≤ finish) :
    adjusted p finish (run : Int) = run := by
  rw [adjusted]
  split
  · rw [if_neg (by omega), Int.toNat_natCast]
  · omega

theorem adjusted_neg {run : Nat} (fits : p + run ≤ finish) :
    adjusted p finish (-(run : Int)) = run := by
  rw [adjusted, if_neg (by omega), if_neg (by omega), Int.neg_neg, Int.toNat_natCast]

/-- An adjusted length stays inside the buffer. -/
theorem adjusted_inside (inside : p ≤ finish) (count : Int) :
    p + adjusted p finish count ≤ finish := by
  rw [adjusted]
  split <;> split <;> omega

theorem decompress_full : decompress memory p p stream = ⟨memory, stream, .finished⟩ := by
  rw [decompress.eq_def, if_neg (lt_irrefl p), if_neg (lt_irrefl p)]

/-- One literal run that fits. -/
theorem decompress_literal {data : List UInt8} (positive : data ≠ [])
    (small : data.length ≤ 127) (fits : p + data.length ≤ finish) :
    decompress memory p finish (UInt8.ofNat data.length :: (data ++ stream)) =
      decompress (store memory p data) (p + data.length) finish stream := by
  have length_pos : 0 < data.length := List.length_pos_of_ne_nil positive
  have header_eq : signedChar (UInt8.ofNat data.length) = data.length :=
    signedChar_ofNat (by omega)
  rw [decompress, if_pos (by omega)]
  simp only [header_eq, adjusted_natCast fits]
  rw [if_pos (by omega), if_neg (by simp), List.take_left, List.drop_left]

/-- One repeat run that fits. -/
theorem decompress_repeated {run : Nat} {byte : UInt8} (positive : run ≠ 0) (small : run ≤ 127)
    (fits : p + run ≤ finish) :
    decompress memory p finish (UInt8.ofNat (256 - run) :: byte :: stream) =
      decompress (store memory p (List.replicate run byte)) (p + run) finish stream := by
  have header_eq : signedChar (UInt8.ofNat (256 - run)) = -(run : Int) :=
    signedChar_neg (by omega) (by omega)
  rw [decompress, if_pos (by omega)]
  simp only [header_eq, adjusted_neg fits]
  rw [if_neg (by omega), if_pos (by omega)]

theorem decompress_writeLiterals {run : Nat} {data : List UInt8} (run_le : run ≤ data.length)
    (fits : p + run ≤ finish) :
    decompress memory p finish (writeLiterals run data ++ stream) =
      decompress (store memory p (data.take run)) (p + run) finish stream := by
  induction run, data using writeLiterals.induct generalizing memory p with
  | case1 run data long ih =>
      have chunk : (data.take 127).length = 127 := List.length_take_of_le (by omega)
      have parts : data.take run = data.take 127 ++ (data.drop 127).take (run - 127) := by
        rw [← List.take_add, Nat.add_sub_cancel' long.le]
      have step := @decompress_literal memory p finish
        (writeLiterals (run - 127) (data.drop 127) ++ stream) (data.take 127)
        (List.ne_nil_of_length_pos (by omega)) (by omega) (by omega)
      rw [chunk] at step
      rw [writeLiterals, if_pos long, List.cons_append, List.append_assoc, step,
        ih (by rw [List.length_drop]; omega) (by omega), parts, ← store_append, chunk,
        show p + 127 + (run - 127) = p + run by omega]
  | case2 run data short nonzero =>
      have chunk : (data.take run).length = run := List.length_take_of_le run_le
      have step := @decompress_literal memory p finish stream (data.take run)
        (List.ne_nil_of_length_pos (by omega)) (by omega) (by omega)
      rw [chunk] at step
      rw [writeLiterals, if_neg short, if_pos nonzero, List.cons_append, step]
  | case3 run data short zero =>
      obtain rfl : run = 0 := not_not.mp zero
      rw [writeLiterals, if_neg short, if_neg zero, List.nil_append, List.take_zero, store_nil,
        Nat.add_zero]

theorem decompress_writeRepeats {run : Nat} {byte : UInt8} (fits : p + run ≤ finish) :
    decompress memory p finish (writeRepeats run byte ++ stream) =
      decompress (store memory p (List.replicate run byte)) (p + run) finish stream := by
  induction run using writeRepeats.induct generalizing memory p with
  | case1 run long ih =>
      have parts : List.replicate run byte =
          List.replicate 127 byte ++ List.replicate (run - 127) byte := by
        rw [← List.replicate_add, Nat.add_sub_cancel' long.le]
      rw [writeRepeats, if_pos long, List.cons_append, List.cons_append,
        decompress_repeated (by decide) le_rfl (by omega), ih (by omega), parts, ← store_append,
        List.length_replicate, show p + 127 + (run - 127) = p + run by omega]
  | case2 run short nonzero =>
      rw [writeRepeats, if_neg short, if_pos nonzero]
      exact decompress_repeated nonzero (Nat.le_of_not_lt short) fits
  | case3 run short zero =>
      obtain rfl : run = 0 := not_not.mp zero
      rw [writeRepeats, if_neg short, if_neg zero, List.nil_append, List.replicate_zero, store_nil,
        Nat.add_zero]

theorem literalRun_le (data : List UInt8) : literalRun data ≤ data.length := by
  rw [literalRun]
  split
  · omega
  · exact le_rfl

/-- The repeat run is what it says. -/
theorem take_repeatRun (data : List UInt8) (byte : UInt8) :
    data.take (repeatRun data byte) = List.replicate (repeatRun data byte) byte := by
  have prefixed : data.take (repeatRun data byte) = data.takeWhile (· == byte) :=
    (List.prefix_iff_eq_take.mp (List.takeWhile_prefix _)).symm
  refine List.eq_replicate_iff.mpr ⟨by rw [prefixed, repeatRun], fun other member => ?_⟩
  rw [prefixed] at member
  exact beq_iff_eq.mp (@List.mem_takeWhile_imp _ (· == byte) _ _ member)

theorem repeatRun_le (data : List UInt8) (byte : UInt8) : repeatRun data byte ≤ data.length :=
  (List.takeWhile_prefix _).length_le

/-- Decompression of what `compress` wrote fills the buffer with the data and stops there. -/
theorem decompress_restores (data : List UInt8) :
    decompress memory p (p + data.length) (compress data ++ stream) =
      ⟨store memory p data, stream, .finished⟩ := by
  induction data using compress.induct generalizing memory p with
  | case1 data empty =>
      obtain rfl : data = [] := List.length_eq_zero_iff.mp empty
      rw [compress, if_pos empty, List.nil_append, store_nil]
      exact decompress_full
  | @case2 data nonempty run rest_eq =>
      have whole : data.length ≤ literalRun data := List.drop_eq_nil_iff.mp rest_eq
      have run_eq : literalRun data = data.length := (literalRun_le data).antisymm whole
      rw [compress_of_drop_nil nonempty rest_eq, run_eq, decompress_writeLiterals le_rfl le_rfl,
        List.take_length]
      exact decompress_full
  | @case3 data nonempty run byte others rest_eq copies ih =>
      have run_le : literalRun data ≤ data.length := literalRun_le data
      have rest_length : (byte :: others).length = data.length - literalRun data := by
        rw [← rest_eq, List.length_drop]
      have copies_le : copies ≤ (byte :: others).length := repeatRun_le _ _
      have data_eq : data = data.take (literalRun data) ++ (List.replicate copies byte ++
          (byte :: others).drop copies) := by
        rw [← take_repeatRun, List.take_append_drop, ← rest_eq, List.take_append_drop]
      have finish_eq : p + data.length =
          p + literalRun data + copies + ((byte :: others).drop copies).length := by
        rw [List.length_drop]
        omega
      rw [compress_of_drop_cons nonempty rest_eq, List.append_assoc, List.append_assoc,
        decompress_writeLiterals run_le (by omega), decompress_writeRepeats (by omega), finish_eq,
        ih]
      conv_rhs => rw [data_eq, ← store_append, ← store_append, List.length_replicate,
        List.length_take_of_le run_le]

/-- Whatever the stream holds, no byte outside the buffer is written. -/
theorem decompress_memory_apart {address : Nat} (inside : p ≤ finish)
    (apart : address < p ∨ finish ≤ address) :
    (decompress memory p finish stream).memory address = memory address := by
  induction memory, p, stream using decompress.induct finish with
  | case1 memory p more =>
      rw [decompress, if_pos more]
  | @case2 memory p more header stream count length positive short =>
      have cut_inside : p + length ≤ finish := adjusted_inside inside count
      rw [decompress, if_pos more]
      simp only
      rw [if_pos positive, if_pos short]
      exact store_apart memory (by omega)
  | @case3 memory p more header stream count length positive enough ih =>
      have cut_inside : p + length ≤ finish := adjusted_inside inside count
      have taken : (stream.take length).length = length :=
        List.length_take_of_le (Nat.le_of_not_lt enough)
      rw [decompress, if_pos more]
      simp only
      rw [if_pos positive, if_neg enough, ih cut_inside (by omega)]
      exact store_apart memory (by omega)
  | @case4 memory p more header count nonpositive negative =>
      rw [decompress, if_pos more]
      simp only
      rw [if_neg nonpositive, if_pos negative]
  | @case5 memory p more header count length nonpositive negative byte stream ih =>
      have cut_inside : p + length ≤ finish := adjusted_inside inside count
      rw [decompress, if_pos more]
      simp only
      rw [if_neg nonpositive, if_pos negative, ih cut_inside (by omega)]
      exact store_apart memory (by rw [List.length_replicate]; omega)
  | @case6 memory p more header stream count nonpositive nonnegative ih =>
      rw [decompress, if_pos more]
      simp only
      rw [if_neg nonpositive, if_neg nonnegative, ih inside apart]
  | case7 memory p stream full =>
      rw [decompress.eq_def, if_neg full]

/-- Restore gives a buffer back and reads what backup wrote for it, no more and no less; and no
stream at all makes it write outside the buffer. -/
theorem decompress_compress :
    (∀ (memory : Nat → UInt8) (buffer : Nat) (data rest : List UInt8),
      decompress memory buffer (buffer + data.length) (compress data ++ rest) =
        ⟨store memory buffer data, rest, .finished⟩) ∧
    ∀ (memory : Nat → UInt8) (buffer length : Nat) (stream : List UInt8) (address : Nat),
      address < buffer ∨ buffer + length ≤ address →
        (decompress memory buffer (buffer + length) stream).memory address = memory address := by
  constructor
  · intro memory buffer data rest
    exact decompress_restores data
  · intro memory buffer length stream address apart
    exact decompress_memory_apart (Nat.le_add_right _ _) apart

end Restore

end Burp
end Firebird
