import Mathlib
import Firebird.Jrd.Sqz

/-!
# Compressed images in pieces

A record may be packed up to a limit, or cut between two runs or inside a literal run.  The control
bytes of what stays in front of the cut are those of the whole record up to the cut, so the length
computed for the front part is the one that remained of the length of the whole.
-/

namespace Firebird
namespace Compressor

open RunLength (Run)

/-! ## Packing into an area of known length -/

/-- The loop of `pack(input, outLength, output)`: the bytes of the input consumed, and the bytes
written. -/
def packLimitedLoop : List UInt8 → Int → List UInt8 → Except Fault (Nat × List UInt8)
  | [], _, _ => .error (.bugcheck 178)
  | control :: controls, space, input =>
      let space := space - 1
      if space ≤ 0 then .ok (0, if space = 0 then [0] else [])
      else
        let length := signedChar control
        if length < 0 then
          match input with
          | [] => .error .outOfBounds
          | byte :: _ => do
              let (consumed, output) ←
                packLimitedLoop controls (space - 1) (input.drop (-length).toNat)
              return ((-length).toNat + consumed, control :: byte :: output)
        else if space - length < 0 then
          -- What fits of the run is `length + (space - length)` bytes.
          let length := space.toNat
          if input.length < length then .error .outOfBounds
          else .ok (length, UInt8.ofNat length :: input.take length)
        else if input.length < length.toNat then .error .outOfBounds
        else do
          let (consumed, output) ←
            packLimitedLoop controls (space - length) (input.drop length.toNat)
          return (length.toNat + consumed, control :: input.take length.toNat ++ output)

/-- `pack(input, outLength, output)`. -/
def packLimited (compressor : Compressor) (input : List UInt8) (outLength : Int) :
    Except Fault (Nat × List UInt8) :=
  packLimitedLoop compressor.m_control outLength input

/-- The loop of `getPartialLength`, which only counts. -/
def partialLengthLoop : List UInt8 → Int → Except Fault Nat
  | [], _ => .error (.bugcheck 178)
  | control :: controls, space =>
      let space := space - 1
      if space ≤ 0 then .ok 0
      else
        let length := signedChar control
        if length < 0 then do
          let consumed ← partialLengthLoop controls (space - 1)
          return (-length).toNat + consumed
        else if space - length < 0 then .ok space.toNat
        else do
          let consumed ← partialLengthLoop controls (space - length)
          return length.toNat + consumed

/-- `getPartialLength`. -/
def getPartialLength (compressor : Compressor) (inLength : Int) : Except Fault Nat :=
  partialLengthLoop compressor.m_control inLength

/-- Whatever the limit, the two computations agree. -/
theorem getPartialLength_of_packLimited {compressor : Compressor} {input output : List UInt8}
    {limit : Int} {consumed : Nat}
    (packed : compressor.packLimited input limit = .ok (consumed, output)) :
    compressor.getPartialLength limit = .ok consumed := by
  obtain ⟨controls, m_length⟩ := compressor
  unfold packLimited at packed
  unfold getPartialLength
  dsimp only at packed ⊢
  clear m_length
  induction controls generalizing limit input consumed output with
  | nil => cases packed
  | cons control controls inductive_hypothesis =>
      unfold packLimitedLoop at packed
      unfold partialLengthLoop
      dsimp only at packed ⊢
      split at packed
      · rename_i full
        rw [if_pos full]
        simp only [Except.ok.injEq, Prod.mk.injEq] at packed
        rw [packed.1]
      · rename_i room
        rw [if_neg room]
        split at packed
        · rename_i negative
          rw [if_pos negative]
          cases input with
          | nil => cases packed
          | cons byte rest =>
              obtain ⟨⟨later, written⟩, later_eq, packed⟩ := bind_eq_ok.mp packed
              simp only [pure, Except.pure, Except.ok.injEq, Prod.mk.injEq] at packed
              rw [inductive_hypothesis later_eq, ← packed.1]
              rfl
        · rename_i literal
          rw [if_neg literal]
          split at packed
          · rename_i short
            rw [if_pos short]
            split at packed
            · cases packed
            · simp only [Except.ok.injEq, Prod.mk.injEq] at packed
              rw [packed.1]
          · rename_i long
            rw [if_neg long]
            split at packed
            · cases packed
            · obtain ⟨⟨later, written⟩, later_eq, packed⟩ := bind_eq_ok.mp packed
              simp only [pure, Except.pure, Except.ok.injEq, Prod.mk.injEq] at packed
              rw [inductive_hypothesis later_eq, ← packed.1]
              rfl

/-! ## What unpacks to a piece of a record -/

/-- The bytes are the image of runs that stand for the data, between zero control bytes, which stand
for nothing. -/
structure Packs (bytes data : List UInt8) : Prop where
  split : ∃ (lead trail : Nat) (runs : List (Run UInt8)),
    bytes = List.replicate lead 0 ++ (images runs ++ List.replicate trail 0) ∧
      RunLength.expand runs = data ∧ ∀ run ∈ runs, run.Within 127 128

theorem unpack_zero (bytes : List UInt8) (outLength : Nat) :
    unpack (0 :: bytes) outLength = unpack bytes outLength := by
  rw [unpack.eq_def]
  have value : signedChar 0 = 0 := rfl
  simp only [value, Int.lt_irrefl, if_false, Int.toNat_zero, Nat.not_lt_zero, List.drop_zero,
    Nat.sub_zero, List.take_zero, List.nil_append]
  cases unpack bytes outLength <;> rfl

theorem unpack_zeros (count : Nat) (bytes : List UInt8) (outLength : Nat) :
    unpack (List.replicate count 0 ++ bytes) outLength = unpack bytes outLength := by
  induction count with
  | zero => rfl
  | succ count inductive_hypothesis =>
      rw [List.replicate_succ, List.cons_append, unpack_zero, inductive_hypothesis]

theorem unpack_images_append {runs : List (Run UInt8)}
    (within : ∀ run ∈ runs, run.Within 127 128) (bytes : List UInt8) (outLength : Nat)
    (room : (RunLength.expand runs).length ≤ outLength) {data : List UInt8}
    (later : unpack bytes (outLength - (RunLength.expand runs).length) = .ok data) :
    unpack (images runs ++ bytes) outLength = .ok (RunLength.expand runs ++ data) := by
  induction runs generalizing outLength with
  | nil => simpa [images] using later
  | cons run runs inductive_hypothesis =>
      rw [RunLength.expand_cons, List.length_append] at room later
      have bounds := within run List.mem_cons_self
      have rest := inductive_hypothesis
        (fun run member => within run (List.mem_cons_of_mem _ member))
        (outLength - run.expand.length) (by omega) (by rw [Nat.sub_sub]; exact later)
      rw [RunLength.expand_cons, images_cons]
      cases run with
      | literal elements =>
          obtain ⟨positive, small⟩ := bounds
          have value : signedChar (UInt8.ofNat elements.length) = elements.length :=
            signedChar_ofNat (by omega)
          simp only [Run.expand] at room rest
          rw [image, List.cons_append, List.cons_append, unpack.eq_def]
          simp only [controlByte, value, Run.expand, List.append_assoc]
          rw [if_neg (by omega), if_neg (by omega), if_neg (by simp)]
          simp [rest, bind, Except.bind, pure, Except.pure]
      | repeated count byte =>
          obtain ⟨positive, small⟩ := bounds
          have value : signedChar (UInt8.ofNat (256 - count)) = -(count : Int) :=
            signedChar_neg positive small
          simp only [Run.expand, List.length_replicate] at room rest
          rw [image, List.cons_append, List.cons_append, unpack.eq_def]
          simp only [controlByte, value, Run.expand, List.cons_append, List.nil_append]
          rw [if_pos (by omega), if_neg (by omega)]
          rw [show (- -(count : Int)).toNat = count by omega]
          simp [rest, bind, Except.bind, pure, Except.pure]

/-- Such bytes unpack to the data in every area that has room for it. -/
theorem Packs.unpack {bytes data : List UInt8} (packs : Packs bytes data) {outLength : Nat}
    (room : data.length ≤ outLength) : Compressor.unpack bytes outLength = .ok data := by
  obtain ⟨lead, trail, runs, rfl, rfl, within⟩ := packs.split
  have nothing : Compressor.unpack (List.replicate trail 0)
      (outLength - (RunLength.expand runs).length) = .ok [] := by
    rw [← List.append_nil (List.replicate trail 0), unpack_zeros, Compressor.unpack]
  rw [unpack_zeros, unpack_images_append within _ outLength room nothing, List.append_nil]

theorem Packs.zeros {bytes data : List UInt8} (packs : Packs bytes data) (before after : Nat) :
    Packs (List.replicate before 0 ++ (bytes ++ List.replicate after 0)) data := by
  obtain ⟨lead, trail, runs, rfl, rfl, within⟩ := packs.split
  refine ⟨before + lead, trail + after, runs, ?_, rfl, within⟩
  simp only [List.replicate_add, List.append_assoc]

/-- `pack` writes such bytes. -/
theorem packs_pack {data : List UInt8} {compressor : Compressor}
    (constructed : new data = some compressor) :
    ∃ packed, compressor.pack data = .ok packed ∧ packed.length = compressor.getPackedLength ∧
      Packs packed data := by
  obtain ⟨found, runs, new_eq, control_eq, length_eq, expand_eq, within, -⟩ := new_spec data
  obtain rfl : found = compressor := Option.some.inj (new_eq.symm.trans constructed)
  refine ⟨images runs, ?_, length_eq.symm, ⟨0, 0, runs, by simp, expand_eq, within⟩⟩
  rw [pack, control_eq, ← expand_eq]
  exact packLoop_controls within

/-- Packing up to a limit that is too small for the record fills the area with bytes that unpack to
what was consumed. -/
theorem packLimitedLoop_spec {runs : List (Run UInt8)}
    (within : ∀ run ∈ runs, run.Within 127 128) {limit : Nat}
    (large : limit < (images runs).length) :
    ∃ consumed output,
      packLimitedLoop (runs.map controlByte) limit (RunLength.expand runs) =
          .ok (consumed, output) ∧
        output.length = limit ∧ consumed ≤ (RunLength.expand runs).length ∧
        ∃ (front : List (Run UInt8)) (trail : Nat),
          output = images front ++ List.replicate trail 0 ∧
            RunLength.expand front = (RunLength.expand runs).take consumed ∧
            ∀ run ∈ front, run.Within 127 128 := by
  induction runs generalizing limit with
  | nil => simp [images] at large
  | cons run runs inductive_hypothesis =>
      have rest := fun run member => within run (List.mem_cons_of_mem _ member)
      have bounds := within run List.mem_cons_self
      rw [images_cons, List.length_append] at large
      rw [List.map_cons, packLimitedLoop.eq_def, RunLength.expand_cons]
      dsimp only
      by_cases full : (limit : Int) - 1 ≤ 0
      · rw [if_pos full]
        refine ⟨0, _, rfl, ?_, Nat.zero_le _, [], limit, ?_, rfl, List.forall_mem_nil _⟩
        · split
          · rename_i one
            simp only [List.length_singleton]
            omega
          · simp only [List.length_nil]
            omega
        · split
          · rename_i one
            obtain rfl : limit = 1 := by omega
            rfl
          · obtain rfl : limit = 0 := by omega
            rfl
      · rw [if_neg full]
        cases run with
        | literal elements =>
            obtain ⟨positive, small⟩ := bounds
            have value : signedChar (controlByte (.literal elements)) = elements.length :=
              signedChar_ofNat (by omega)
            rw [value, if_neg (by omega)]
            simp only [image, List.length_cons] at large
            simp only [Run.expand, List.length_append]
            by_cases short : (limit : Int) - 1 - elements.length < 0
            · rw [if_pos short, if_neg (by omega)]
              have space_eq : ((limit : Int) - 1).toNat = limit - 1 := by omega
              have take_eq : (elements ++ RunLength.expand runs).take (limit - 1) =
                  elements.take (limit - 1) := List.take_append_of_le_length (by omega)
              rw [space_eq, take_eq]
              refine ⟨_, _, rfl, ?_, by omega, [.literal (elements.take (limit - 1))], 0, ?_, ?_, ?_⟩
              · rw [List.length_cons, List.length_take]
                omega
              · have length_eq : (elements.take (limit - 1)).length = limit - 1 := by
                  rw [List.length_take]
                  omega
                simp [images, image, controlByte, length_eq]
              · rw [take_eq]
                simp [RunLength.expand, Run.expand]
              · intro run member
                rw [List.mem_singleton.mp member]
                simp only [Run.Within, List.length_take]
                omega
            · rw [if_neg short, if_neg (by omega)]
              have space_eq : (limit : Int) - 1 - elements.length =
                  ((limit - 1 - elements.length : Nat) : Int) := by omega
              obtain ⟨consumed, output, packed, length_eq, bound, front, trail, output_eq, expand_eq,
                front_within⟩ := @inductive_hypothesis rest
                  (limit - 1 - elements.length) (by omega)
              rw [space_eq, Int.toNat_natCast, List.drop_left, packed]
              refine ⟨_, _, rfl, ?_, by omega, .literal elements :: front, trail, ?_, ?_, ?_⟩
              · simp only [List.cons_append, List.length_cons, List.length_append, List.take_left,
                  length_eq]
                omega
              · rw [List.take_left, output_eq, images_cons]
                simp [image]
              · rw [RunLength.expand_cons, expand_eq, Run.expand, List.take_length_add_append]
              · exact List.forall_mem_cons.mpr ⟨⟨positive, small⟩, front_within⟩
        | repeated count byte =>
            obtain ⟨positive, small⟩ := bounds
            have value : signedChar (controlByte (.repeated count byte)) = -(count : Int) :=
              signedChar_neg positive small
            rw [value, if_pos (by omega)]
            simp only [image, List.length_cons, List.length_nil] at large
            have space_eq : (limit : Int) - 1 - 1 = ((limit - 2 : Nat) : Int) := by omega
            have count_eq : (- -(count : Int)).toNat = count := by omega
            obtain ⟨consumed, output, packed, length_eq, bound, front, trail, output_eq, expand_eq,
              front_within⟩ := @inductive_hypothesis rest (limit - 2) (by omega)
            obtain ⟨more, rfl⟩ := Nat.exists_eq_add_of_le' positive
            have drop_eq : (byte :: (List.replicate more byte ++ RunLength.expand runs)).drop
                (more + 1) = RunLength.expand runs := by
              rw [List.drop_succ_cons]
              exact List.drop_left' List.length_replicate
            simp only [Run.expand, List.replicate_succ, List.cons_append]
            rw [count_eq, space_eq, drop_eq, packed]
            refine ⟨_, _, rfl, ?_, ?_, .repeated (more + 1) byte :: front, trail, ?_, ?_, ?_⟩
            · simp only [List.length_cons, length_eq]
              omega
            · simp only [List.length_cons, List.length_append, List.length_replicate]
              omega
            · rw [output_eq, images_cons]
              rfl
            · have take_eq : (List.replicate (more + 1) byte ++ RunLength.expand runs).take
                  (more + 1 + consumed) =
                    List.replicate (more + 1) byte ++ (RunLength.expand runs).take consumed := by
                rw [List.take_append, List.length_replicate, Nat.add_sub_cancel_left,
                  List.take_of_length_le]
                rw [List.length_replicate]
                omega
              rw [RunLength.expand_cons, expand_eq]
              exact take_eq.symm
            · exact List.forall_mem_cons.mpr ⟨⟨positive, small⟩, front_within⟩

/-! ## The front part of a record -/

theorem literalRun_take {data : List UInt8} {count : Nat} (le : count ≤ literalRun data) :
    literalRun (data.take count) = count := by
  induction data using literalRun.induct generalizing count with
  | case1 first second third rest differ ih =>
      rw [literalRun, if_pos differ] at le
      rcases count with _ | _ | _ | count
      · rfl
      · rfl
      · rfl
      · have later := @ih (count + 2) (by omega)
        simp only [List.take_succ_cons] at later ⊢
        rw [literalRun, if_pos differ, later]
  | case2 first second third rest equal =>
      rw [literalRun, if_neg equal] at le
      obtain rfl : count = 0 := by omega
      rfl
  | case3 data short =>
      rcases data with _ | ⟨first, _ | ⟨second, _ | ⟨third, rest⟩⟩⟩
      · obtain rfl : count = 0 := Nat.le_zero.mp le
        rfl
      · have small : count ≤ 1 := le
        obtain rfl | rfl : count = 0 ∨ count = 1 := by omega
        all_goals rfl
      · have small : count ≤ 2 := le
        obtain rfl | rfl | rfl : count = 0 ∨ count = 1 ∨ count = 2 := by omega
        all_goals rfl
      · exact absurd rfl (short first second third rest)

/-- The look-ahead reads no more than three bytes behind the literal ones. -/
theorem literalRun_congr {data other : List UInt8} (early : literalRun data < data.length)
    (same : data.take (literalRun data + 3) = other.take (literalRun data + 3)) :
    literalRun other = literalRun data := by
  induction data using literalRun.induct generalizing other with
  | case1 first second third rest differ ih =>
      rw [literalRun, if_pos differ] at early same ⊢
      rcases other with _ | ⟨first', _ | ⟨second', _ | ⟨third', rest'⟩⟩⟩
      · simp at same
      · simp at same
      · simp at same
      · simp only [List.take_succ_cons, List.cons.injEq] at same
        obtain ⟨rfl, rfl, rfl, same⟩ := same
        rw [literalRun, if_pos differ, ih (by simpa using early) (by simpa using same)]
  | case2 first second third rest equal =>
      rw [literalRun, if_neg equal] at same ⊢
      rcases other with _ | ⟨first', _ | ⟨second', _ | ⟨third', rest'⟩⟩⟩
      · simp at same
      · simp at same
      · simp at same
      · simp only [List.take_succ_cons, List.take_zero, List.cons.injEq, and_true] at same
        obtain ⟨rfl, rfl, rfl⟩ := same
        rw [literalRun, if_neg equal]
  | case3 data short =>
      rw [literalRun] at early
      · exact absurd early (Nat.lt_irrefl _)
      · exact short

/-- What comes after three equal bytes does not matter for the literal bytes in front of them. -/
theorem literalRun_before {left tail other : List UInt8} {c : UInt8} {run : Nat} (lower : 3 ≤ run)
    (ends : literalRun (left ++ (List.replicate run c ++ tail)) = left.length) :
    literalRun (left ++ (List.replicate run c ++ other)) = left.length := by
  have front : ∀ rest : List UInt8, (left ++ (List.replicate run c ++ rest)).take (left.length + 3) =
      left ++ List.replicate 3 c := by
    intro rest
    rw [List.take_length_add_append, List.take_append_of_le_length (by simpa using lower),
      List.take_replicate, Nat.min_eq_left lower]
  rw [← ends]
  refine literalRun_congr ?_ ?_
  · rw [ends, List.length_append, List.length_append, List.length_replicate]
    omega
  · rw [ends, front, front]

theorem repeatRun_replicate (c : UInt8) (count max : Nat) (tail : List UInt8) (le : count ≤ max) :
    repeatRun c max (List.replicate count c ++ tail) = count + repeatRun c (max - count) tail := by
  induction count generalizing max with
  | zero => simp
  | succ count inductive_hypothesis =>
      obtain ⟨max, rfl⟩ := Nat.exists_eq_add_of_le' (Nat.le_trans (Nat.succ_le_succ count.zero_le) le)
      rw [List.replicate_succ, List.cons_append, repeatRun, if_neg (by simp),
        inductive_hypothesis max (by omega)]
      rw [Nat.succ_eq_add_one, Nat.zero_add, Nat.add_sub_add_right]
      omega

/-- The run of equal bytes ends where it did when less of what follows is there. -/
theorem repeatRun_before {c : UInt8} {run : Nat} {tail front : List UInt8} (upper : run ≤ 128)
    (starts : front <+: tail)
    (found : repeatRun c (min 128 (List.replicate run c ++ tail).length)
      (List.replicate run c ++ tail) = run) :
    repeatRun c (min 128 (List.replicate run c ++ front).length)
      (List.replicate run c ++ front) = run := by
  simp only [List.length_append, List.length_replicate] at found ⊢
  rw [repeatRun_replicate c run _ _ (by omega)] at found ⊢
  cases front with
  | nil => simp [repeatRun]
  | cons byte front =>
      obtain ⟨rest, rfl⟩ := starts
      by_cases long : run = 128
      · subst long
        have full : min 128 (128 + (byte :: front).length) - 128 = 0 := by omega
        rw [full, repeatRun]
        simp
      · obtain ⟨more, more_eq⟩ : ∃ more,
            min 128 (run + (byte :: front ++ rest).length) - run = more + 1 :=
          Nat.exists_eq_add_of_le' (by
            simp only [List.cons_append, List.length_cons]
            omega)
        obtain ⟨fewer, fewer_eq⟩ : ∃ fewer,
            min 128 (run + (byte :: front).length) - run = fewer + 1 :=
          Nat.exists_eq_add_of_le' (by
            simp only [List.length_cons]
            omega)
        rw [more_eq, List.cons_append, repeatRun] at found
        rw [fewer_eq, repeatRun]
        split at found
        · rename_i differ
          rw [if_pos differ]
          rfl
        · omega

/-- A cut of the runs behind `left`, and behind `lit` of a literal run that follows. -/
def Cut (runs left : List (Run UInt8)) (lit : List UInt8) : Prop :=
  ∃ right, runs = left ++ right ∧
    (lit = [] ∨ ∃ more rest, right = .literal (lit ++ more) :: rest)

theorem Cut.starts {runs left : List (Run UInt8)} {lit : List UInt8} (cut : Cut runs left lit) :
    RunLength.expand left ++ lit <+: RunLength.expand runs := by
  obtain ⟨right, rfl, rfl | ⟨more, rest, rfl⟩⟩ := cut
  · simp
  · rw [RunLength.expand_append, RunLength.expand_cons, Run.expand, List.append_assoc]
    exact (List.prefix_append_right_inj _).mpr (List.prefix_append _ _)

/-- Cutting literal pieces leaves the pieces of what is in front of the cut. -/
theorem literals_cut {data : List UInt8} {left : List (Run UInt8)} {lit : List UInt8}
    (cut : Cut (RunLength.literals 126 data) left lit) :
    RunLength.literals 126 (RunLength.expand left ++ lit) = left ++ RunLength.literals 126 lit := by
  induction left generalizing data with
  | nil => rfl
  | cons piece left inductive_hypothesis =>
      obtain ⟨right, split, tail⟩ := cut
      have some_data : data ≠ [] := by
        rintro rfl
        simp at split
      rw [RunLength.literals_of_ne_nil some_data, List.cons_append, List.cons.injEq] at split
      obtain ⟨rfl, split⟩ := split
      rw [RunLength.expand_cons, Run.expand, List.append_assoc]
      by_cases long : 126 + 1 ≤ data.length
      · have piece_length : (data.take (126 + 1)).length = 126 + 1 := by
          rw [List.length_take]
          omega
        have not_nil : data.take (126 + 1) ++ (RunLength.expand left ++ lit) ≠ [] := by
          simp [some_data]
        rw [RunLength.literals_of_ne_nil not_nil, List.take_left' piece_length,
          List.drop_left' piece_length, inductive_hypothesis ⟨right, split, tail⟩]
        rfl
      · have rest_nil : data.drop (126 + 1) = [] := List.drop_eq_nil_of_le (by omega)
        rw [rest_nil, RunLength.literals_nil] at split
        obtain ⟨rfl, rfl⟩ := List.append_eq_nil_iff.mp split.symm
        obtain rfl : lit = [] := by simpa using tail
        have whole : data.take (126 + 1) = data := List.take_of_length_le (by omega)
        rw [whole, RunLength.expand_nil, List.append_nil, List.append_nil,
          RunLength.literals_of_ne_nil some_data, whole, rest_nil]
        rfl

/-- A front part within the literal bytes at the start of a record. -/
theorem Segmented.of_literals {data : List UInt8} {left : List (Run UInt8)} {lit : List UInt8}
    (cut : Cut (RunLength.literals 126 (data.take (literalRun data))) left lit) :
    Segmented (RunLength.expand left ++ lit) (left ++ RunLength.literals 126 lit) := by
  have starts := cut.starts
  rw [RunLength.expand_literals] at starts
  have short := starts.length_le
  rw [List.length_take] at short
  have count_eq := @literalRun_take data (RunLength.expand left ++ lit).length (by omega)
  rw [← List.prefix_iff_eq_take.mp (starts.trans (List.take_prefix _ _))] at count_eq
  rw [← literals_cut cut]
  exact .last (List.drop_eq_nil_of_le (Nat.le_of_eq count_eq.symm))

/-- The segmentation of the front part of a record, cut between two runs or inside a literal run. -/
theorem Segmented.front {data : List UInt8} {runs left : List (Run UInt8)} {lit : List UInt8}
    (segmented : Segmented data runs) (cut : Cut runs left lit) :
    Segmented (RunLength.expand left ++ lit) (left ++ RunLength.literals 126 lit) := by
  induction segmented generalizing left with
  | @last data finished =>
      have whole : data.take (literalRun data) = data :=
        List.take_of_length_le (List.drop_eq_nil_iff.mp finished)
      exact .of_literals (whole.symm ▸ cut)
  | @turn data tail c run runs lower upper split found later ih =>
      obtain ⟨right, cut_eq, tail_eq⟩ := cut
      rcases List.append_eq_append_iff.mp cut_eq with
        ⟨middle, rfl, middle_eq⟩ | ⟨middle, literals_eq, rfl⟩
      · cases middle with
        | nil =>
            obtain rfl : lit = [] := by
              rcases tail_eq with none_left | ⟨more, rest, rfl⟩
              · exact none_left
              · cases middle_eq
            have whole : Cut (RunLength.literals 126 (data.take (literalRun data)))
                (RunLength.literals 126 (data.take (literalRun data))) [] :=
              ⟨[], (List.append_nil _).symm, Or.inl rfl⟩
            simpa only [List.append_nil] using Segmented.of_literals whole
        | cons first middle =>
            rw [List.cons_append, List.cons.injEq] at middle_eq
            obtain ⟨rfl, rfl⟩ := middle_eq
            have inner : Cut (middle ++ right) middle lit := ⟨right, rfl, tail_eq⟩
            have starts := inner.starts
            rw [later.expand_eq] at starts
            have taken : (data.take (literalRun data)).length = literalRun data := by
              rw [List.length_take, Nat.min_eq_left (literalRun_le data)]
            have data_eq : data.take (literalRun data) ++ (List.replicate run c ++ tail) = data := by
              rw [← split]
              exact List.take_append_drop _ _
            have literal_eq : literalRun (data.take (literalRun data) ++
                (List.replicate run c ++ (RunLength.expand middle ++ lit))) =
                  (data.take (literalRun data)).length := by
              refine @literalRun_before _ tail _ _ _ lower ?_
              rw [data_eq, taken]
            have drop_eq : (data.take (literalRun data) ++ (List.replicate run c ++
                (RunLength.expand middle ++ lit))).drop (data.take (literalRun data)).length =
                  List.replicate run c ++ (RunLength.expand middle ++ lit) := List.drop_left
            have ending := repeatRun_before upper starts (split ▸ found)
            rw [← drop_eq, ← literal_eq] at ending
            have turned := Segmented.turn lower upper (literal_eq ▸ drop_eq) ending (ih inner)
            rw [literal_eq, List.take_left] at turned
            simpa only [RunLength.expand_append, RunLength.expand_literals, RunLength.expand_cons,
              Run.expand, List.append_assoc, List.cons_append] using turned
      · refine .of_literals ⟨middle, literals_eq, ?_⟩
        rcases tail_eq with none_left | ⟨more, rest, right_eq⟩
        · exact Or.inl none_left
        · cases middle with
          | nil => cases right_eq
          | cons first middle =>
              rw [List.cons_append, List.cons.injEq] at right_eq
              exact Or.inr ⟨more, middle, by rw [right_eq.1]⟩

end Compressor
end Firebird
