import Firebird.Library.BitMask
import Firebird.Jrd.Btr.NodeFormat

/-!
# Reading back what was written

The three case analyses of the node format agree: a node is read as it was written, and both move by
the size that was computed.
-/

namespace Firebird
namespace Btn

open ByteMemory (load store copy)
open SevenBit (encode decode)

/-- The masks and shifts of groups of these widths. -/
def groups : List Nat → Nat → List (Nat × Nat)
  | [], _ => []
  | width :: widths, shift => (2 ^ width - 1, shift) :: groups widths (shift + width)

theorem readNumber_groups (memory : Nat → UInt8) (widths : List Nat) {shift number place : Nat} :
    readNumber memory (groups widths shift) number place =
      (number ||| (decode memory widths place).1 <<< shift, (decode memory widths place).2) := by
  induction widths generalizing shift number place with
  | nil =>
      rw [groups, readNumber, decode, Nat.zero_shiftLeft, Nat.or_zero]
  | cons width widths ih =>
      rw [groups, readNumber, decode, Nat.and_two_pow_sub_one_eq_mod]
      by_cases last : (memory place).toNat < 128
      · rw [if_neg (by omega), if_pos last]
      · have low_lt := Nat.mod_lt (memory place).toNat (Nat.two_pow_pos width)
        rw [if_pos (by omega), if_neg last, ih, SevenBit.shiftLeft_groups low_lt, Nat.or_assoc]

theorem writeNumber_eq {last count number : Nat} (number_lt : number < 2 ^ (7 * count + last)) :
    writeNumber (List.replicate count 0x7F ++ [2 ^ last - 1]) number =
      encode (List.replicate count 7 ++ [last]) number := by
  induction count generalizing number with
  | zero =>
      rw [Nat.mul_zero, Nat.zero_add] at number_lt
      rw [List.replicate_zero, List.replicate_zero, List.nil_append, List.nil_append, writeNumber,
        encode, if_pos number_lt, Nat.and_two_pow_sub_one_eq_mod, Nat.mod_eq_of_lt number_lt]
  | succ count ih =>
      have low_lt : number % 2 ^ 7 < 128 := Nat.mod_lt _ (Nat.two_pow_pos 7)
      have rest_lt : number / 2 ^ 7 < 2 ^ (7 * count + last) := by
        rw [Nat.div_lt_iff_lt_mul (Nat.two_pow_pos 7), ← Nat.pow_add]
        exact number_lt.trans_eq (congrArg (2 ^ ·) (by omega))
      have masks_eq : ∀ masks : List Nat, masks ≠ [] → writeNumber (0x7F :: masks) number =
          if 0 < number / 2 ^ 7 then
            UInt8.ofNat (number % 2 ^ 7 + 128) :: writeNumber masks (number / 2 ^ 7)
          else [UInt8.ofNat (number % 2 ^ 7)] := by
        intro masks nonempty
        obtain ⟨mask, others, rfl⟩ := List.exists_cons_of_ne_nil nonempty
        rw [writeNumber, show 0x7F = 2 ^ 7 - 1 from rfl, Nat.and_two_pow_sub_one_eq_mod,
          Nat.shiftRight_eq_div_pow, SevenBit.or_high low_lt]
        exact nonempty
      rw [List.replicate_succ, List.replicate_succ, List.cons_append, List.cons_append, encode,
        masks_eq _ (List.append_ne_nil_of_right_ne_nil _ (List.cons_ne_nil _ _)), ih rest_lt]
      by_cases small : number < 2 ^ 7
      · rw [if_pos small, Nat.div_eq_of_lt small, if_neg (Nat.lt_irrefl 0), Nat.mod_eq_of_lt small]
      · rw [if_neg small, if_pos (Nat.div_pos (Nat.le_of_not_lt small) (Nat.two_pow_pos 7))]

theorem writeRecordBytes_eq {count number : Nat} (number_lt : number < 2 ^ (7 * count)) :
    writeRecordBytes count number = encode (List.replicate count 7) number := by
  induction count generalizing number with
  | zero => rfl
  | succ count ih =>
      have low_lt : number % 2 ^ 7 < 128 := Nat.mod_lt _ (Nat.two_pow_pos 7)
      have rest_lt : number / 2 ^ 7 < 2 ^ (7 * count) := by
        rw [Nat.div_lt_iff_lt_mul (Nat.two_pow_pos 7), ← Nat.pow_add]
        exact number_lt
      rw [List.replicate_succ, encode]
      cases count with
      | zero =>
          rw [writeRecordBytes, show 0x7F = 2 ^ 7 - 1 from rfl, Nat.and_two_pow_sub_one_eq_mod,
            Nat.shiftRight_eq_div_pow, if_pos (Nat.lt_one_iff.mp rest_lt), if_pos number_lt,
            Nat.mod_eq_of_lt number_lt]
      | succ count =>
          rw [writeRecordBytes, show 0x7F = 2 ^ 7 - 1 from rfl, Nat.and_two_pow_sub_one_eq_mod,
            Nat.shiftRight_eq_div_pow, SevenBit.or_high low_lt, ih rest_lt]
          by_cases small : number < 2 ^ 7
          · rw [if_pos (Nat.div_eq_of_lt small), if_pos small, Nat.mod_eq_of_lt small]
          · rw [if_neg (Nat.div_pos (Nat.le_of_not_lt small) (Nat.two_pow_pos 7)).ne', if_neg small]

/-- The widths of the bytes of a record number behind its first five bits. -/
def recordWidths : List Nat := [7, 7, 7, 7, 7]

/-- The widths of the bytes of a page number. -/
def pageWidths : List Nat := [7, 7, 7, 7, 4]

/-- The widths of the bytes of a prefix or a length. -/
def shortWidths : List Nat := [7, 7]

theorem writeRecordNumber_eq {number : Nat} (number_lt : number < 2 ^ 35) :
    writeRecordNumber number = encode recordWidths number :=
  writeRecordBytes_eq number_lt

theorem writePageNumber_eq {number : Nat} (number_lt : number < 2 ^ 32) :
    writePageNumber number = encode pageWidths number :=
  @writeNumber_eq 4 4 number number_lt

theorem writeShort_eq {number : Nat} (number_lt : number < 2 ^ 14) :
    writeShort number = encode shortWidths number :=
  @writeNumber_eq 7 1 number number_lt

theorem numberSize_cons {top bit number : Nat} (number_lt : number < 2 ^ top) (bit_le : bit ≤ top)
    (masks : List Nat) :
    numberSize ((2 ^ top - 2 ^ bit) :: masks) number =
      if number < 2 ^ bit then numberSize masks number else masks.length + 2 := by
  have high_iff := BitMask.and_high_eq_zero_iff number_lt bit_le
  rw [numberSize]
  by_cases small : number < 2 ^ bit
  · rw [if_neg (not_not.mpr (high_iff.mpr small)), if_pos small]
  · rw [if_pos (mt high_iff.mp small), if_neg small]

theorem numberSize_le (masks : List Nat) (number : Nat) :
    numberSize masks number ≤ masks.length + 1 := by
  induction masks with
  | nil => exact le_rfl
  | cons mask masks ih =>
      rw [numberSize, List.length_cons]
      split <;> omega

/-- The number of bytes by the size of the number. -/
theorem length_encode_cons {width number : Nat} (widths : List Nat) :
    (encode (width :: widths) number).length =
      if number < 2 ^ width then 1 else (encode widths (number / 2 ^ width)).length + 1 := by
  rw [encode]
  split
  · rfl
  · rfl

theorem recordNumberSize_eq {number : Nat} (number_lt : number < 2 ^ 35) :
    recordNumberSize number = (encode recordWidths number).length := by
  have below : number < 2 ^ 40 := number_lt.trans (by decide)
  rw [recordNumberSize, show 0xFFF0000000 = 2 ^ 40 - 2 ^ 28 from rfl,
    show 0xFFFFE00000 = 2 ^ 40 - 2 ^ 21 from rfl, show 0xFFFFFFC000 = 2 ^ 40 - 2 ^ 14 from rfl,
    show 0xFFFFFFFF80 = 2 ^ 40 - 2 ^ 7 from rfl, numberSize_cons below (by decide),
    numberSize_cons below (by decide), numberSize_cons below (by decide),
    numberSize_cons below (by decide), numberSize, recordWidths]
  simp only [length_encode_cons, List.length_cons, List.length_nil]
  split_ifs <;> omega

theorem pageNumberSize_eq {number : Nat} (number_lt : number < 2 ^ 32) :
    pageNumberSize number = (encode pageWidths number).length := by
  rw [pageNumberSize, show 0xF0000000 = 2 ^ 32 - 2 ^ 28 from rfl,
    show 0xFFE00000 = 2 ^ 32 - 2 ^ 21 from rfl, show 0xFFFFC000 = 2 ^ 32 - 2 ^ 14 from rfl,
    show 0xFFFFFF80 = 2 ^ 32 - 2 ^ 7 from rfl, numberSize_cons number_lt (by decide),
    numberSize_cons number_lt (by decide), numberSize_cons number_lt (by decide),
    numberSize_cons number_lt (by decide), numberSize, pageWidths]
  simp only [length_encode_cons, List.length_cons, List.length_nil]
  split_ifs <;> omega

theorem shortSize_eq {number : Nat} (number_lt : number < 2 ^ 14) :
    shortSize number = (encode shortWidths number).length := by
  have below : number < 2 ^ 32 := number_lt.trans (by decide)
  rw [shortSize, show 0xFFFFC000 = 2 ^ 32 - 2 ^ 14 from rfl,
    show 0xFFFFFF80 = 2 ^ 32 - 2 ^ 7 from rfl, numberSize_cons below (by decide),
    numberSize_cons below (by decide), numberSize, shortWidths]
  simp only [length_encode_cons, List.length_cons, List.length_nil]
  split_ifs <;> omega

theorem jumpShortSize_eq {number : Nat} (number_lt : number < 2 ^ 14) :
    jumpShortSize number = (encode shortWidths number).length := by
  have below : number < 2 ^ 16 := number_lt.trans (by decide)
  rw [jumpShortSize, show 0xC000 = 2 ^ 16 - 2 ^ 14 from rfl,
    show 0xFF80 = 2 ^ 16 - 2 ^ 7 from rfl, numberSize_cons below (by decide),
    numberSize_cons below (by decide), numberSize, shortWidths]
  simp only [length_encode_cons, List.length_cons, List.length_nil]
  split_ifs <;> omega

variable {memory : Nat → UInt8} {place : Nat}

/-- A record number is read behind its first five bits. -/
theorem readRecordNumber_held {number : Nat} (number_lt : number < 2 ^ 40)
    (held : load memory place (writeRecordNumber (number >>> 5)).length =
      writeRecordNumber (number >>> 5)) :
    readRecordNumber memory (number &&& 0x1F) place =
      (number, place + (writeRecordNumber (number >>> 5)).length) := by
  have high_lt : number >>> 5 < 2 ^ 35 := by
    rw [Nat.shiftRight_eq_div_pow]
    omega
  have low_lt : number % 2 ^ 5 < 2 ^ 5 := Nat.mod_lt _ (Nat.two_pow_pos 5)
  rw [writeRecordNumber_eq high_lt] at held ⊢
  have decode_eq := SevenBit.decode_encoded (by decide : recordWidths ≠ []) (by decide) high_lt held
  have read_eq := @readNumber_groups memory recordWidths 5 (number &&& 0x1F) place
  have value_eq : number &&& 0x1F ||| (number >>> 5) <<< 5 = number := by
    rw [show 0x1F = 2 ^ 5 - 1 from rfl, Nat.and_two_pow_sub_one_eq_mod, Nat.or_comm,
      ← Nat.shiftLeft_add_eq_or_of_lt low_lt, Nat.shiftRight_eq_div_pow, Nat.shiftLeft_eq,
      Nat.div_add_mod']
  rw [decode_eq, value_eq] at read_eq
  exact read_eq

theorem readPageNumber_held {number : Nat} (number_lt : number < 2 ^ 32)
    (held : load memory place (writePageNumber number).length = writePageNumber number) :
    readPageNumber memory place = (number, place + (writePageNumber number).length) := by
  rw [writePageNumber_eq number_lt] at held ⊢
  have decode_eq := SevenBit.decode_encoded (by decide : pageWidths ≠ []) (by decide) number_lt held
  have read_eq := @readNumber_groups memory pageWidths 0 0 place
  rw [decode_eq, Nat.shiftLeft_zero, Nat.zero_or] at read_eq
  exact read_eq

theorem readShort_held {number : Nat} (number_lt : number < 2 ^ 14)
    (held : load memory place (writeShort number).length = writeShort number) :
    readShort memory place = (number, place + (writeShort number).length) := by
  rw [writeShort_eq number_lt] at held ⊢
  have decode_eq := SevenBit.decode_encoded (by decide : shortWidths ≠ []) (by decide) number_lt held
  have read_eq := @readNumber_groups memory shortWidths 0 0 place
  rw [decode_eq, Nat.shiftLeft_zero, Nat.zero_or] at read_eq
  exact read_eq

namespace IndexNode

variable {node previous : IndexNode} {leafNode : Bool}

theorem internalFlags_le (node : IndexNode) : node.internalFlags ≤ 5 := by
  rw [internalFlags]
  split_ifs <;> decide

theorem internalFlags_of_marker (marker : node.isEndLevel = true) :
    node.internalFlags = BTN_END_LEVEL_FLAG := if_pos marker

theorem internalFlags_ne_endLevel (live : node.isEndLevel = false) :
    node.internalFlags ≠ BTN_END_LEVEL_FLAG := by
  rw [internalFlags, live, if_neg Bool.false_ne_true]
  split_ifs <;> decide

theorem internalFlags_eq_endBucket_iff (live : node.isEndLevel = false) :
    node.internalFlags = BTN_END_BUCKET_FLAG ↔ node.isEndBucket = true := by
  rw [internalFlags, live, if_neg Bool.false_ne_true]
  split_ifs with bucket
  · exact iff_of_true rfl bucket
  all_goals exact iff_of_false (by decide) bucket

/-- What the flags say about the prefix and the length. -/
theorem internalFlags_says (node : IndexNode) (live : node.isEndLevel = false) :
    (node.internalFlags = BTN_ZERO_PREFIX_ZERO_LENGTH_FLAG →
        node.prefixLength = 0 ∧ node.length = 0) ∧
      (node.internalFlags = BTN_ZERO_LENGTH_FLAG → node.length = 0) ∧
      (node.internalFlags = BTN_ONE_LENGTH_FLAG → node.length = 1) := by
  rw [internalFlags, live, if_neg Bool.false_ne_true]
  split_ifs with bucket empty_data unprefixed single
  · exact ⟨nofun, nofun, nofun⟩
  · exact ⟨fun _ => ⟨unprefixed, empty_data⟩, nofun, nofun⟩
  · exact ⟨nofun, fun _ => empty_data, nofun⟩
  · exact ⟨nofun, nofun, fun _ => single⟩
  · exact ⟨nofun, nofun, nofun⟩

theorem flagsByte_eq (node : IndexNode) :
    node.flagsByte.toNat = 32 * node.internalFlags + node.recordNumber.toNat % 32 := by
  have low_lt : node.recordNumber.toNat % 2 ^ 5 < 2 ^ 5 := Nat.mod_lt _ (Nat.two_pow_pos 5)
  have flags_le := node.internalFlags_le
  rw [flagsByte, UInt8.toNat_ofNat', show 0x1F = 2 ^ 5 - 1 from rfl, Nat.and_two_pow_sub_one_eq_mod,
    ← Nat.shiftLeft_add_eq_or_of_lt low_lt, Nat.shiftLeft_eq]
  omega

theorem flagsByte_low (node : IndexNode) :
    node.flagsByte.toNat &&& 0x1F = node.recordNumber.toNat &&& 0x1F := by
  rw [show 0x1F = 2 ^ 5 - 1 from rfl, Nat.and_two_pow_sub_one_eq_mod, Nat.and_two_pow_sub_one_eq_mod,
    flagsByte_eq]
  omega

theorem flagsByte_high (node : IndexNode) :
    (node.flagsByte.toNat &&& 0xE0) >>> 5 = node.internalFlags := by
  have flags_le := node.internalFlags_le
  rw [Nat.shiftRight_and_distrib, show 0xE0 >>> 5 = 2 ^ 3 - 1 from rfl,
    Nat.and_two_pow_sub_one_eq_mod, Nat.shiftRight_eq_div_pow, flagsByte_eq]
  omega

theorem length_writeRecordNumber {number : Nat} (number_lt : number < 2 ^ 40) :
    (writeRecordNumber (number >>> 5)).length = recordNumberSize (number >>> 5) := by
  have high_lt : number >>> 5 < 2 ^ 35 := by
    rw [Nat.shiftRight_eq_div_pow]
    omega
  rw [writeRecordNumber_eq high_lt, recordNumberSize_eq high_lt]

/-- Both copies of the case analysis count the same bytes. -/
theorem getNodeSize_eq (range : node.InRange) (plain : node.PlainMarker) (leafNode : Bool) :
    node.getNodeSize leafNode = (node.header leafNode).length + node.length := by
  rw [getNodeSize, header]
  cases marker : node.isEndLevel with
  | true =>
      rw [if_pos rfl, if_pos rfl, (plain marker).2.1]
      rfl
  | false =>
      have record_lt : node.recordNumber.toNat < 2 ^ 40 := by
        have := range.record_lt
        omega
      have short_len : ∀ {number : Nat}, number < 2 ^ 14 →
          (writeShort number).length = shortSize number := fun number_lt => by
        rw [writeShort_eq number_lt, shortSize_eq number_lt]
      have page_len : (writePageNumber node.pageNumber).length = pageNumberSize node.pageNumber := by
        rw [writePageNumber_eq range.page_lt, pageNumberSize_eq range.page_lt]
      have record_le := numberSize_le [0xFFF0000000, 0xFFFFE00000, 0xFFFFFFC000, 0xFFFFFFFF80]
        (node.recordNumber.toNat >>> 5)
      have page_le := numberSize_le [0xF0000000, 0xFFE00000, 0xFFFFC000, 0xFFFFFF80] node.pageNumber
      have prefix_le := numberSize_le [0xFFFFC000, 0xFFFFFF80] node.prefixLength
      have length_le := numberSize_le [0xFFFFC000, 0xFFFFFF80] node.length
      change recordNumberSize _ ≤ 5 at record_le
      change pageNumberSize _ ≤ 5 at page_le
      change shortSize _ ≤ 3 at prefix_le length_le
      have length_lt := range.length_lt
      rw [if_neg Bool.false_ne_true, if_neg Bool.false_ne_true, List.length_cons,
        List.length_append, List.length_append, List.length_append,
        length_writeRecordNumber record_lt]
      simp only [apply_ite List.length, List.length_nil, page_len, short_len range.prefix_lt,
        short_len range.length_lt]
      split_ifs <;> omega

theorem readNode_marker {pagePointer : Nat} (marker : node.isEndLevel = true)
    (held : memory pagePointer = node.flagsByte) :
    previous.readNode memory pagePointer leafNode =
      ({ previous with
          nodePointer := pagePointer
          isEndLevel := true
          isEndBucket := false
          prefixLength := 0
          length := 0
          recordNumber := 0
          pageNumber := 0 },
        pagePointer + 1) := by
  have flags_eq := internalFlags_of_marker marker
  simp only [readNode, held, flagsByte_high, flags_eq, if_true, decide_true]
  rfl

theorem readPage_held (range : node.InRange)
    (held : load memory place (if leafNode then [] else writePageNumber node.pageNumber).length =
      if leafNode then [] else writePageNumber node.pageNumber) :
    (if leafNode = true then (previous.pageNumber, place) else readPageNumber memory place) =
      (if leafNode then previous.pageNumber else node.pageNumber,
        place + (if leafNode then [] else writePageNumber node.pageNumber).length) := by
  cases leafNode with
  | true => rfl
  | false => exact readPageNumber_held range.page_lt held

theorem readPrefix_held (range : node.InRange) (live : node.isEndLevel = false)
    (held : load memory place
        (if hasPrefix node.internalFlags then writeShort node.prefixLength else []).length =
      if hasPrefix node.internalFlags then writeShort node.prefixLength else []) :
    (if node.internalFlags = BTN_ZERO_PREFIX_ZERO_LENGTH_FLAG then (0, place)
      else readShort memory place) =
      (node.prefixLength,
        place + (if hasPrefix node.internalFlags then writeShort node.prefixLength else []).length) := by
  by_cases zero : node.internalFlags = BTN_ZERO_PREFIX_ZERO_LENGTH_FLAG
  · rw [if_pos zero, ((node.internalFlags_says live).1 zero).1, hasPrefix,
      decide_eq_false (not_not.mpr zero)]
    rfl
  · have stored : hasPrefix node.internalFlags = true := decide_eq_true zero
    rw [stored] at held ⊢
    rw [if_neg zero]
    exact readShort_held range.prefix_lt held

theorem readLength_held (range : node.InRange) (live : node.isEndLevel = false)
    (held : load memory place
        (if hasLength node.internalFlags then writeShort node.length else []).length =
      if hasLength node.internalFlags then writeShort node.length else []) :
    (if node.internalFlags = BTN_ZERO_LENGTH_FLAG ∨
        node.internalFlags = BTN_ZERO_PREFIX_ZERO_LENGTH_FLAG then (0, place)
      else if node.internalFlags = BTN_ONE_LENGTH_FLAG then (1, place)
      else readShort memory place) =
      (node.length,
        place + (if hasLength node.internalFlags then writeShort node.length else []).length) := by
  obtain ⟨both_zero, length_zero, length_one⟩ := node.internalFlags_says live
  by_cases empty_data : node.internalFlags = BTN_ZERO_LENGTH_FLAG ∨
    node.internalFlags = BTN_ZERO_PREFIX_ZERO_LENGTH_FLAG
  · have length_eq : node.length = 0 := empty_data.elim length_zero fun zero => (both_zero zero).2
    have absent : hasLength node.internalFlags = false :=
      decide_eq_false fun stored => empty_data.elim stored.2.1 stored.1
    rw [if_pos empty_data, absent, length_eq]
    rfl
  · rw [if_neg empty_data]
    by_cases single : node.internalFlags = BTN_ONE_LENGTH_FLAG
    · have absent : hasLength node.internalFlags = false :=
        decide_eq_false fun stored => stored.2.2 single
      rw [if_pos single, absent, length_one single]
      rfl
    · have stored : hasLength node.internalFlags = true :=
        decide_eq_true ⟨fun zero => empty_data (.inr zero), fun zero => empty_data (.inl zero), single⟩
      rw [stored] at held ⊢
      rw [if_neg single]
      exact readShort_held range.length_lt held

/-- A node is read where its header lies. -/
theorem readNode_held {pagePointer : Nat} (range : node.InRange) (live : node.isEndLevel = false)
    (held : load memory pagePointer (node.header leafNode).length = node.header leafNode) :
    previous.readNode memory pagePointer leafNode =
      ({ node with
          nodePointer := pagePointer
          pageNumber := if leafNode then previous.pageNumber else node.pageNumber
          data := pagePointer + (node.header leafNode).length },
        pagePointer + (node.header leafNode).length + node.length) := by
  have record_lt : node.recordNumber.toNat < 2 ^ 40 := by
    have := range.record_lt
    omega
  have number_eq : (node.recordNumber.toNat : Int) = node.recordNumber :=
    Int.toNat_of_nonneg range.record_nonneg
  have not_level := internalFlags_ne_endLevel live
  have bucket_eq : decide (node.internalFlags = BTN_END_BUCKET_FLAG) = node.isEndBucket := by
    rw [Bool.eq_iff_iff, decide_eq_true_iff]
    exact internalFlags_eq_endBucket_iff live
  rw [header, live, if_neg Bool.false_ne_true, List.append_assoc, List.append_assoc] at held ⊢
  obtain ⟨flags_held, held⟩ := ByteMemory.load_cons_iff.mp held
  obtain ⟨record_held, held⟩ := ByteMemory.load_append_iff.mp held
  obtain ⟨page_held, held⟩ := ByteMemory.load_append_iff.mp held
  obtain ⟨prefix_held, length_held⟩ := ByteMemory.load_append_iff.mp held
  have page_eq := @readPage_held _ _ node previous leafNode range page_held
  have prefix_eq := readPrefix_held range live prefix_held
  have length_eq := readLength_held range live length_held
  simp only [readNode, flags_held, flagsByte_low, flagsByte_high, not_level, decide_false, if_false,
    readRecordNumber_held record_lt record_held, page_eq, prefix_eq, length_eq, bucket_eq, number_eq,
    List.length_cons, List.length_append]
  refine Prod.ext (IndexNode.mk.injEq .. |>.mpr ⟨rfl, rfl, rfl, rfl, ?_, rfl, rfl, rfl⟩) ?_
  · omega
  · dsimp only
    omega

/-- The data of the node lies outside the place it is written to. -/
def Apart (node : IndexNode) (pagePointer : Nat) (leafNode : Bool) : Prop :=
  node.data + node.length ≤ pagePointer ∨ pagePointer + node.getNodeSize leafNode ≤ node.data

/-- What `writeNode` leaves in the memory. -/
theorem writeNode_memory {pagePointer : Nat} {withData : Bool} (range : node.InRange)
    (plain : node.PlainMarker) (apart : withData = true → node.Apart pagePointer leafNode) :
    ∃ after, node.writeNode memory pagePointer leafNode withData =
        ({ node with nodePointer := pagePointer }, after,
          pagePointer + (node.header leafNode).length + node.length) ∧
      load after pagePointer (node.header leafNode).length = node.header leafNode ∧
      load after (pagePointer + (node.header leafNode).length) node.length =
        load memory node.data node.length ∧
      ∀ address, address < pagePointer ∨
          pagePointer + (node.header leafNode).length + node.length ≤ address →
        after address = memory address := by
  have size_eq := getNodeSize_eq range plain leafNode
  have size_lt : node.getNodeSize leafNode < 2 ^ 16 := by
    rw [getNodeSize]
    split
    · decide
    · exact Nat.mod_lt _ (by decide)
  have offset_eq : (node.getNodeSize leafNode + 2 ^ 16 - node.length) % 2 ^ 16 =
      (node.header leafNode).length := by omega
  by_cases marker : node.isEndLevel = true
  · have length_eq := (plain marker).2.1
    refine ⟨store (if withData then memory else copy memory node.data memory
      (pagePointer + (node.getNodeSize leafNode + 2 ^ 16 - node.length) % 2 ^ 16) node.length)
      pagePointer (node.header leafNode), ?_, ByteMemory.load_store _ _ _, ?_, ?_⟩
    · rw [writeNode, if_pos marker, length_eq, Nat.add_zero]
    · rw [length_eq]
      rfl
    · intro address outside
      rw [ByteMemory.store_apart _ (by omega)]
      cases withData with
      | true => rfl
      | false => exact ByteMemory.copy_apart _ _ (by omega)
  · cases withData with
    | true =>
        refine ⟨copy (store memory pagePointer (node.header leafNode)) node.data
          (store memory pagePointer (node.header leafNode))
          (pagePointer + (node.header leafNode).length) node.length, ?_, ?_, ?_, ?_⟩
        · rw [writeNode, if_neg marker]
          rfl
        · rw [ByteMemory.load_copy_apart _ _ (.inl le_rfl), ByteMemory.load_store]
        · rw [← Nat.add_zero (pagePointer + _), ByteMemory.load_copy_inside _ _ (Nat.zero_add _).le,
            Nat.add_zero]
          have := apart rfl
          exact ByteMemory.load_store_apart _ (by rw [Apart] at this; omega)
        · intro address outside
          rw [ByteMemory.copy_apart _ _ (by omega), ByteMemory.store_apart _ (by omega)]
    | false =>
        refine ⟨store (copy memory node.data memory
          (pagePointer + (node.header leafNode).length) node.length) pagePointer
          (node.header leafNode), ?_, ByteMemory.load_store _ _ _, ?_, ?_⟩
        · rw [writeNode, if_neg marker, offset_eq]
          rfl
        · rw [ByteMemory.load_store_apart _ (.inr le_rfl), ← Nat.add_zero (pagePointer + _),
            ByteMemory.load_copy_inside _ _ (Nat.zero_add _).le, Nat.add_zero]
        · intro address outside
          rw [ByteMemory.store_apart _ (by omega), ByteMemory.copy_apart _ _ (by omega)]

/-- A written node is read as it was, and its key bytes lie where they are read. -/
theorem readNode_writeNode {pagePointer : Nat} (range : node.InRange) (plain : node.PlainMarker)
    {after : Nat → UInt8}
    (header_held : load after pagePointer (node.header leafNode).length = node.header leafNode)
    (data_held : load after (pagePointer + (node.header leafNode).length) node.length =
      load memory node.data node.length) :
    (previous.readNode after pagePointer leafNode).2 = pagePointer + node.getNodeSize leafNode ∧
      (previous.readNode after pagePointer leafNode).1.content after leafNode =
        node.content memory leafNode := by
  have size_eq := getNodeSize_eq range plain leafNode
  by_cases marker : node.isEndLevel = true
  · obtain ⟨prefix_eq, length_eq, record_eq, page_eq, bucket_eq⟩ := plain marker
    rw [readNode_marker marker (ByteMemory.load_cons_iff.mp header_held).1, getNodeSize, if_pos marker]
    refine ⟨rfl, ?_⟩
    rw [content, content, prefix_eq, length_eq, record_eq, page_eq, bucket_eq, marker]
    rfl
  · rw [readNode_held range (Bool.eq_false_iff.mpr marker) header_held, size_eq]
    refine ⟨Nat.add_assoc _ _ _, ?_⟩
    rw [content, content]
    dsimp only
    rw [data_held]
    cases leafNode with
    | true => rfl
    | false => rfl

end IndexNode

namespace IndexJumpNode

variable {jumpNode : IndexJumpNode}

/-- The data of the jump node lies outside the place it is written to. -/
def Apart (jumpNode : IndexJumpNode) (pagePointer : Nat) : Prop :=
  jumpNode.data + jumpNode.length ≤ pagePointer ∨
    pagePointer + jumpNode.getJumpNodeSize ≤ jumpNode.data

theorem getJumpNodeSize_eq (range : jumpNode.InRange) :
    jumpNode.getJumpNodeSize = jumpNode.header.length + jumpNode.length := by
  have prefix_le := numberSize_le [0xC000, 0xFF80] jumpNode.prefixLength
  have length_le := numberSize_le [0xC000, 0xFF80] jumpNode.length
  change jumpShortSize _ ≤ 3 at prefix_le length_le
  have length_lt := range.length_lt
  have short_eq : ∀ {number : Nat}, number < 2 ^ 14 →
      (writeShort number).length = jumpShortSize number := fun number_lt => by
    rw [writeShort_eq number_lt, jumpShortSize_eq number_lt]
  rw [getJumpNodeSize, header, List.length_append, List.length_append, short_eq range.prefix_lt,
    short_eq range.length_lt]
  exact Nat.mod_eq_of_lt (by omega)

theorem get_short_held {number : Nat} (number_lt : number < 2 ^ 16)
    (held : load memory place (put_short number).length = put_short number) :
    get_short memory place = number := by
  obtain ⟨low_eq, held⟩ := ByteMemory.load_cons_iff.mp held
  obtain ⟨high_eq, -⟩ := ByteMemory.load_cons_iff.mp held
  have low_lt : number % 2 ^ 8 < 2 ^ 8 := Nat.mod_lt _ (Nat.two_pow_pos 8)
  rw [get_short, low_eq, high_eq, UInt8.toNat_ofNat', UInt8.toNat_ofNat', Nat.or_comm,
    ← Nat.shiftLeft_add_eq_or_of_lt low_lt, Nat.shiftLeft_eq, Nat.shiftRight_eq_div_pow]
  omega

theorem readJumpNode_held {pagePointer : Nat} (range : jumpNode.InRange)
    (held : load memory pagePointer jumpNode.header.length = jumpNode.header) :
    readJumpNode memory pagePointer =
      ({ jumpNode with
          nodePointer := pagePointer
          data := pagePointer + jumpNode.header.length },
        pagePointer + jumpNode.header.length + jumpNode.length) := by
  rw [header, List.append_assoc] at held ⊢
  obtain ⟨prefix_held, held⟩ := ByteMemory.load_append_iff.mp held
  obtain ⟨length_held, offset_held⟩ := ByteMemory.load_append_iff.mp held
  have size_eq : (put_short jumpNode.offset).length = 2 := rfl
  simp only [readJumpNode, readShort_held range.prefix_lt prefix_held,
    readShort_held range.length_lt length_held, get_short_held range.offset_lt offset_held]
  simp only [List.length_append, size_eq, Nat.add_assoc]

theorem writeJumpNode_memory {pagePointer : Nat} (range : jumpNode.InRange)
    (apart : jumpNode.Apart pagePointer) :
    ∃ after, jumpNode.writeJumpNode memory pagePointer =
        ({ jumpNode with nodePointer := pagePointer }, after,
          pagePointer + jumpNode.header.length + jumpNode.length) ∧
      load after pagePointer jumpNode.header.length = jumpNode.header ∧
      load after (pagePointer + jumpNode.header.length) jumpNode.length =
        load memory jumpNode.data jumpNode.length ∧
      ∀ address, address < pagePointer ∨
          pagePointer + jumpNode.header.length + jumpNode.length ≤ address →
        after address = memory address := by
  rw [Apart, getJumpNodeSize_eq range] at apart
  refine ⟨_, rfl, ?_, ?_, fun address outside => ?_⟩
  · rw [ByteMemory.load_copy_apart _ _ (.inl le_rfl), ByteMemory.load_store]
  · have inside := @ByteMemory.load_copy_inside _ (store memory pagePointer jumpNode.header)
      (store memory pagePointer jumpNode.header) jumpNode.data
      (pagePointer + jumpNode.header.length) jumpNode.length 0 jumpNode.length (Nat.zero_add _).le
    rw [Nat.add_zero, Nat.add_zero] at inside
    rw [inside]
    exact ByteMemory.load_store_apart _ (by omega)
  · rw [ByteMemory.copy_apart _ _ (by omega), ByteMemory.store_apart _ (by omega)]

end IndexJumpNode

/-- A node and a jump node are read as they were written, by the size that was computed, and what is
written, with the data or around it, keeps the key bytes and touches nothing outside the node. -/
theorem stored_nodes_read_back :
    (∀ (memory : Nat → UInt8) (node previous : IndexNode) (pagePointer : Nat)
        (leafNode withData : Bool), node.InRange → node.PlainMarker →
      (withData = true → node.Apart pagePointer leafNode) →
      ∃ after, node.writeNode memory pagePointer leafNode withData =
          ({ node with nodePointer := pagePointer }, after,
            pagePointer + node.getNodeSize leafNode) ∧
        (previous.readNode after pagePointer leafNode).2 =
          pagePointer + node.getNodeSize leafNode ∧
        (previous.readNode after pagePointer leafNode).1.content after leafNode =
          node.content memory leafNode ∧
        load after (pagePointer + (node.getNodeSize leafNode - node.length)) node.length =
          load memory node.data node.length ∧
        ∀ address, address < pagePointer ∨ pagePointer + node.getNodeSize leafNode ≤ address →
          after address = memory address) ∧
    ∀ (memory : Nat → UInt8) (jumpNode : IndexJumpNode) (pagePointer : Nat), jumpNode.InRange →
      jumpNode.Apart pagePointer →
      ∃ after, jumpNode.writeJumpNode memory pagePointer =
          ({ jumpNode with nodePointer := pagePointer }, after,
            pagePointer + jumpNode.getJumpNodeSize) ∧
        (IndexJumpNode.readJumpNode after pagePointer).2 = pagePointer + jumpNode.getJumpNodeSize ∧
        (IndexJumpNode.readJumpNode after pagePointer).1.content after = jumpNode.content memory ∧
        ∀ address, address < pagePointer ∨ pagePointer + jumpNode.getJumpNodeSize ≤ address →
          after address = memory address := by
  refine ⟨fun memory node previous pagePointer leafNode withData range plain apart => ?_,
    fun memory jumpNode pagePointer range apart => ?_⟩
  · have size_eq := IndexNode.getNodeSize_eq range plain leafNode
    obtain ⟨after, write_eq, header_held, data_held, frame⟩ :=
      @IndexNode.writeNode_memory memory _ _ _ _ range plain apart
    obtain ⟨moved, same⟩ := @IndexNode.readNode_writeNode memory _ previous _ _ range plain _
      header_held data_held
    rw [Nat.add_assoc, ← size_eq] at write_eq frame
    refine ⟨after, write_eq, moved, same, ?_, frame⟩
    rw [size_eq, Nat.add_sub_cancel]
    exact data_held
  · have size_eq := IndexJumpNode.getJumpNodeSize_eq range
    obtain ⟨after, write_eq, header_held, data_held, frame⟩ :=
      @IndexJumpNode.writeJumpNode_memory memory _ _ range apart
    have read_eq := IndexJumpNode.readJumpNode_held range header_held
    rw [Nat.add_assoc, ← size_eq] at write_eq frame
    refine ⟨after, write_eq, ?_, ?_, frame⟩
    · rw [read_eq, size_eq, Nat.add_assoc]
    · rw [read_eq, IndexJumpNode.content, IndexJumpNode.content]
      dsimp only
      rw [data_held]

/-- A node of another page with a page number of three bytes, and a jump node. -/
theorem example_nodes_read_back :
    (∃ after, (IndexNode.mk 0 3 2 300000 10 5000 false false).writeNode (UInt8.ofNat ·) 100 false true =
        (IndexNode.mk 100 3 2 300000 10 5000 false false, after, 110) ∧
      ((IndexNode.mk 0 0 0 0 0 0 false false).readNode after 100 false).1.content after false =
        ⟨3, [10, 11], 5000, 300000, false, false⟩) ∧
    ∃ after, (IndexJumpNode.mk 0 200 1 4000 10).writeJumpNode (UInt8.ofNat ·) 100 =
        (IndexJumpNode.mk 100 200 1 4000 10, after, 106) ∧
      (IndexJumpNode.readJumpNode after 100).1.content after = ⟨200, [10], 4000⟩ := by
  have node := stored_nodes_read_back.1 (UInt8.ofNat ·)
    (IndexNode.mk 0 3 2 300000 10 5000 false false) (IndexNode.mk 0 0 0 0 0 0 false false) 100 false
    true ⟨by decide, by decide, by decide, by decide, by decide⟩ nofun fun _ => .inl (by decide)
  have jumpNode := stored_nodes_read_back.2 (UInt8.ofNat ·) (IndexJumpNode.mk 0 200 1 4000 10) 100
    ⟨by decide, by decide, by decide⟩ (.inl (by decide))
  obtain ⟨after, write_eq, -, same, -⟩ := node
  obtain ⟨jumpAfter, jump_write_eq, -, jump_same, -⟩ := jumpNode
  exact ⟨⟨after, write_eq, same⟩, jumpAfter, jump_write_eq, jump_same⟩

/-- The record number of a marker of the end of a level is not stored. -/
theorem marker_record_lost :
    ¬ ∀ (memory : Nat → UInt8) (node previous : IndexNode) (pagePointer : Nat) (leafNode : Bool),
      node.InRange → node.Apart pagePointer leafNode →
        (previous.readNode (node.writeNode memory pagePointer leafNode true).2.1 pagePointer
          leafNode).1.recordNumber = node.recordNumber := by
  intro kept
  have lost := kept (fun _ => 0) (IndexNode.mk 0 0 0 0 0 7 false true)
    (IndexNode.mk 0 0 0 0 0 0 false false) 100 true
    ⟨by decide, by decide, by decide, by decide, by decide⟩ (.inl (by decide))
  exact absurd lost (by decide)

end Btn
end Firebird
