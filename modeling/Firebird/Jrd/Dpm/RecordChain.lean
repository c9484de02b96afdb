import Firebird.Jrd.Dpm.RecordStorage

/-!
# Fragments in chain order

What a line gives back after its header and its data have been written, and what reading a chain of
fragments gives when each of them holds a packed piece of the record.
-/

namespace Firebird
namespace RecordStorage

open LineArea (rhdfSize)
open Compressor (Packs)

section Bytes

variable {area bytes : List UInt8} {offset start count : Nat}

theorem length_littleEndian (count value : Nat) : (littleEndian count value).length = count := by
  induction count generalizing value with
  | zero => rfl
  | succ count inductive_hypothesis => rw [littleEndian, List.length_cons, inductive_hypothesis]

theorem ofLittleEndian_littleEndian {count value : Nat} (small : value < 256 ^ count) :
    ofLittleEndian (littleEndian count value) = value := by
  induction count generalizing value with
  | zero =>
      obtain rfl : value = 0 := by simpa using small
      rfl
  | succ count inductive_hypothesis =>
      have later : value / 256 < 256 ^ count := by
        rw [Nat.div_lt_iff_lt_mul (by decide)]
        rwa [Nat.pow_succ] at small
      rw [littleEndian, ofLittleEndian, inductive_hypothesis later, UInt8.toNat_ofNat']
      omega

theorem length_writeAt (fits : offset + bytes.length ≤ area.length) :
    (writeAt area offset bytes).length = area.length := by
  rw [writeAt, List.length_append, List.length_append, List.length_take, List.length_drop]
  omega

/-- What is written up to the end of an area is what stands behind the offset. -/
theorem drop_writeAt (fits : offset + bytes.length = area.length) :
    (writeAt area offset bytes).drop offset = bytes := by
  have taken : (area.take offset).length = offset := by
    rw [List.length_take]
    omega
  rw [writeAt, List.drop_left' taken, List.drop_eq_nil_of_le (by omega), List.append_nil]

/-- A field that has just been written. -/
theorem field_writeAt (fits : offset + bytes.length ≤ area.length) :
    ((writeAt area offset bytes).drop offset).take bytes.length = bytes := by
  have taken : (area.take offset).length = offset := by
    rw [List.length_take]
    omega
  rw [writeAt, List.drop_left' taken, List.take_left]

/-- A field in front of what is written. -/
theorem field_before_writeAt (before : start + count ≤ offset) (fits : offset ≤ area.length) :
    ((writeAt area offset bytes).drop start).take count = (area.drop start).take count := by
  have taken : (area.take offset).length = offset := by
    rw [List.length_take]
    omega
  rw [writeAt, List.drop_append_of_le_length (by omega),
    List.take_append_of_le_length (by rw [List.length_drop]; omega), List.drop_take,
    List.take_take, Nat.min_eq_left (by omega)]

/-- A field behind what is written. -/
theorem field_after_writeAt (after : offset + bytes.length ≤ start) (fits : start ≤ area.length) :
    (writeAt area offset bytes).drop start = area.drop start := by
  have taken : (area.take offset).length = offset := by
    rw [List.length_take]
    omega
  obtain ⟨more, rfl⟩ := Nat.exists_eq_add_of_le after
  rw [writeAt, Nat.add_assoc, ← List.drop_drop, List.drop_left' taken, ← List.drop_drop,
    List.drop_left, List.drop_drop, Nat.add_assoc]

end Bytes

section Lines

variable {record : Record} {flags : Flags} {stale : Nat → UInt8} {packed : List UInt8}

theorem length_staleArea (stale : Nat → UInt8) (size : Nat) :
    (staleArea stale size).length = size := by
  simp [staleArea]

theorem headerSize_cases (transaction : Nat) :
    headerSize transaction = rhdSize ∧ transaction / 2 ^ 32 = 0 ∨
      headerSize transaction = rhdeSize ∧ transaction / 2 ^ 32 ≠ 0 := by
  unfold headerSize maxUlong
  split
  · right
    exact ⟨rfl, by omega⟩
  · left
    exact ⟨rfl, by omega⟩

theorem length_writeTraNum {line : Line} {number : Nat}
    (long : line.flags.longTranum = true ∨ number / 2 ^ 32 ≠ 0 → 3 ≤ line.rest.length) :
    (line.writeTraNum number).rest.length = line.rest.length := by
  unfold Line.writeTraNum
  dsimp only
  split <;> rename_i high <;> split <;> rename_i flag
  · have room := long (Or.inr high)
    exact length_writeAt (by rw [length_littleEndian]; omega)
  · rfl
  · have room := long (Or.inl flag)
    exact length_writeAt (by rw [length_littleEndian]; omega)
  · rfl

theorem incomplete_writeTraNum (line : Line) (number : Nat) :
    (line.writeTraNum number).flags.incomplete = line.flags.incomplete := by
  unfold Line.writeTraNum
  dsimp only
  split <;> rfl

theorem longTranum_writeTraNum (line : Line) (number : Nat) :
    (line.writeTraNum number).flags.longTranum =
      if number / 2 ^ 32 ≠ 0 then true else line.flags.longTranum := by
  unfold Line.writeTraNum
  dsimp only
  split <;> rfl

theorem getHeader_complete {line : Line} (size : Nat) (complete : line.flags.incomplete = false)
    (size_eq : (if line.flags.longTranum then rhdeSize else rhdSize) = size)
    (long : size - rhdSize ≤ line.rest.length) :
    getHeader line = .ok { data := line.rest.drop (size - rhdSize), next := none } := by
  simp only [getHeader, complete, Bool.false_eq_true, if_false, size_eq]
  rw [if_neg (by omega)]

theorem getHeader_incomplete {line : Line} (incomplete : line.flags.incomplete = true)
    (long : 9 ≤ line.rest.length) :
    getHeader line =
      .ok { data := line.rest.drop 9
            next := some (ofLittleEndian ((line.rest.drop 3).take 4),
              ofLittleEndian ((line.rest.drop 7).take 2)) } := by
  have skip : rhdfSize - rhdSize = 9 := rfl
  simp only [getHeader, incomplete, if_true, skip]
  rw [if_neg (by omega)]

/-- The area of a record that is stored whole keeps its size when the transaction number is written. -/
theorem length_writeTraNum_whole {line : Line} {number size : Nat}
    (short : line.flags.longTranum = false)
    (line_length : line.rest.length = headerSize number - rhdSize + size) :
    (line.writeTraNum number).rest.length = headerSize number - rhdSize + size := by
  rw [length_writeTraNum, line_length]
  rintro (long | high)
  · rw [short] at long
    cases long
  · rcases headerSize_cases number with ⟨-, low⟩ | ⟨size_eq, -⟩
    · exact absurd low high
    · rw [line_length, size_eq]
      unfold rhdeSize rhdSize
      omega

theorem length_wholeLine (short : record.flags.longTranum = false) :
    (wholeLine record stale packed).rest.length = headerSize record.transaction - rhdSize +
      (packed.length + (rhdfSize - headerSize record.transaction - packed.length)) := by
  have area_length := @length_writeTraNum_whole
    { transaction := 0, backPage := record.backPage, backLine := record.backLine,
      flags := record.flags, format := record.format,
      rest := staleArea stale (headerSize record.transaction - rhdSize + packed.length +
        (rhdfSize - headerSize record.transaction - packed.length)) }
    record.transaction _ short ((length_staleArea _ _).trans (Nat.add_assoc _ _ _))
  rw [wholeLine]
  dsimp only at area_length ⊢
  rw [length_writeAt, area_length]
  rw [area_length, List.length_append, List.length_replicate]

/-- A record that was stored whole is read at the place where its packed data starts. -/
theorem getHeader_wholeLine (complete : record.flags.incomplete = false)
    (short : record.flags.longTranum = false) :
    getHeader (wholeLine record stale packed) =
      .ok { data := packed ++ List.replicate
              (rhdfSize - headerSize record.transaction - packed.length) 0
            next := none } := by
  obtain ⟨fill, fill_eq⟩ : ∃ fill,
      rhdfSize - headerSize record.transaction - packed.length = fill := ⟨_, rfl⟩
  obtain ⟨line, line_eq⟩ : ∃ line : Line,
      { transaction := 0, backPage := record.backPage, backLine := record.backLine,
        flags := record.flags, format := record.format,
        rest := staleArea stale (headerSize record.transaction - rhdSize + packed.length + fill) } =
          line := ⟨_, rfl⟩
  have flags_eq : line.flags = record.flags := by rw [← line_eq]
  have size_eq : (if (line.writeTraNum record.transaction).flags.longTranum then rhdeSize
      else rhdSize) = headerSize record.transaction := by
    rw [longTranum_writeTraNum, flags_eq, short]
    rcases headerSize_cases record.transaction with ⟨size_eq, high⟩ | ⟨size_eq, high⟩
    · rw [if_neg (not_not.mpr high), size_eq]
      rfl
    · rw [if_pos high, size_eq]
      rfl
  have area_length : (line.writeTraNum record.transaction).rest.length =
      headerSize record.transaction - rhdSize + (packed.length + fill) := by
    refine length_writeTraNum_whole (flags_eq ▸ short) ?_
    rw [← line_eq, ← Nat.add_assoc]
    exact length_staleArea _ _
  have written := @drop_writeAt (line.writeTraNum record.transaction).rest
    (packed ++ List.replicate fill 0) (headerSize record.transaction - rhdSize) (by
      rw [area_length, List.length_append, List.length_replicate])
  have line_incomplete : (line.writeTraNum record.transaction).flags.incomplete = false := by
    rw [incomplete_writeTraNum, flags_eq, complete]
  rw [wholeLine]
  rw [fill_eq, line_eq]
  refine (getHeader_complete (headerSize record.transaction) ?_ ?_ ?_).trans ?_
  · exact line_incomplete
  · exact size_eq
  · dsimp only
    rw [length_writeAt, area_length]
    · omega
    · rw [area_length, List.length_append, List.length_replicate]
  · exact congrArg (fun data => Except.ok (Fetched.mk data none)) written

/-- The fragment pointer and the data behind it, in an area just large enough. -/
theorem fragment_fields {area : List UInt8} (area_length : area.length = 9 + packed.length)
    (next : Nat × Nat) :
    (writeAt (writeAt (writeAt area 3 (littleEndian 4 next.1)) 7 (littleEndian 2 next.2)) 9
        packed).length = 9 + packed.length ∧
      (writeAt (writeAt (writeAt area 3 (littleEndian 4 next.1)) 7 (littleEndian 2 next.2)) 9
        packed).drop 9 = packed ∧
      ((writeAt (writeAt (writeAt area 3 (littleEndian 4 next.1)) 7 (littleEndian 2 next.2)) 9
        packed).drop 3).take 4 = littleEndian 4 next.1 ∧
      ((writeAt (writeAt (writeAt area 3 (littleEndian 4 next.1)) 7 (littleEndian 2 next.2)) 9
        packed).drop 7).take 2 = littleEndian 2 next.2 := by
  have four := length_littleEndian 4 next.1
  have two := length_littleEndian 2 next.2
  obtain ⟨first, first_eq⟩ : ∃ first, writeAt area 3 (littleEndian 4 next.1) = first := ⟨_, rfl⟩
  have first_length : first.length = 9 + packed.length := by
    rw [← first_eq, length_writeAt (by omega), area_length]
  have page_field := @field_writeAt area (littleEndian 4 next.1) 3 (by omega)
  rw [four, first_eq] at page_field
  rw [first_eq]
  obtain ⟨second, second_eq⟩ : ∃ second, writeAt first 7 (littleEndian 2 next.2) = second :=
    ⟨_, rfl⟩
  have second_length : second.length = 9 + packed.length := by
    rw [← second_eq, length_writeAt (by omega), first_length]
  have line_field := @field_writeAt first (littleEndian 2 next.2) 7 (by omega)
  rw [two, second_eq] at line_field
  have page_kept := @field_before_writeAt first (littleEndian 2 next.2) 7 3 4 (by omega) (by omega)
  rw [second_eq, page_field] at page_kept
  rw [second_eq]
  refine ⟨?_, drop_writeAt (by omega), ?_, ?_⟩
  · rw [length_writeAt (by omega), second_length]
  · rw [field_before_writeAt (by omega) (by omega), page_kept]
  · rw [field_before_writeAt (by omega) (by omega), line_field]

theorem length_header {header : Line} {line : Line} {size number : Nat}
    (area : line.rest.length = size - rhdSize) (fits : rhdfSize + packed.length = size)
    (header_eq : line.writeTraNum number = header) : header.rest.length = 9 + packed.length := by
  unfold rhdfSize at fits
  unfold rhdSize at area
  rw [← header_eq, length_writeTraNum, area]
  · omega
  · intro _
    omega

theorem length_frontLine {size : Nat} (next : Nat × Nat) (fits : rhdfSize + packed.length = size) :
    (frontLine record flags stale size next packed).rest.length = 9 + packed.length :=
  (fragment_fields (length_header (length_staleArea _ _) fits rfl) next).1

/-- The front part is read behind the fragment pointer. -/
theorem getHeader_frontLine {size : Nat} {next : Nat × Nat} (page : next.1 < 2 ^ 32)
    (line : next.2 < 2 ^ 16) (fits : rhdfSize + packed.length = size) :
    getHeader (frontLine record flags stale size next packed) =
      .ok { data := packed, next := some next } := by
  obtain ⟨header, header_eq⟩ : ∃ header : Line, Line.writeTraNum
      { transaction := 0, backPage := record.backPage, backLine := record.backLine,
        flags := { flags with incomplete := true }, format := record.format,
        rest := staleArea stale (size - rhdSize) } record.transaction = header := ⟨_, rfl⟩
  have area_length := length_header (length_staleArea _ _) fits header_eq
  have incomplete : header.flags.incomplete = true := by
    rw [← header_eq, incomplete_writeTraNum]
  obtain ⟨length_eq, data_eq, page_eq, line_eq⟩ := fragment_fields area_length next
  have skip : rhdfSize - rhdSize = 9 := rfl
  rw [frontLine]
  rw [header_eq, Line.writeFragment, skip]
  refine (getHeader_incomplete ?_ ?_).trans ?_
  · exact incomplete
  · dsimp only
    rw [length_eq]
    omega
  · dsimp only
    rw [data_eq, page_eq, line_eq, ofLittleEndian_littleEndian page,
      ofLittleEndian_littleEndian line]

theorem writeAt_zeros {size offset count : Nat} (fits : offset + count ≤ size) :
    writeAt (List.replicate size 0) offset (List.replicate count 0) = List.replicate size 0 := by
  rw [writeAt, List.take_replicate, List.drop_replicate, List.length_replicate,
    List.replicate_append_replicate, List.replicate_append_replicate]
  congr 1
  omega

/-- A page of the tail: the last one of the record is read from the end of the short header on, over
the zeros that stand in the place of a fragment pointer. -/
theorem getHeader_tailLine {prior : Nat} (page : prior < 2 ^ 32) (out : List UInt8) :
    getHeader (tailLine prior out) =
      .ok (if prior = 0 then { data := List.replicate 9 0 ++ out, next := none }
        else { data := out, next := some (prior, 0) }) := by
  have skip : rhdfSize - rhdSize = 9 := rfl
  by_cases last : prior = 0
  · subst last
    have zeros : writeAt (List.replicate (9 + out.length) 0) 3 (littleEndian 4 0) =
        List.replicate (9 + out.length) 0 := @writeAt_zeros _ 3 4 (by omega)
    have rest_eq : writeAt (List.replicate (9 + out.length) 0) 9 out =
        List.replicate 9 0 ++ out := by
      rw [writeAt, List.take_replicate, Nat.min_eq_left (by omega), List.drop_eq_nil_of_le,
        List.append_nil]
      rw [List.length_replicate]
    rw [tailLine, skip, zeros, rest_eq, if_pos rfl]
    rfl
  · have long : (writeAt (List.replicate (9 + out.length) 0) 3 (littleEndian 4 prior)).length =
        9 + out.length := by
      rw [length_writeAt, List.length_replicate]
      rw [length_littleEndian, List.length_replicate]
      omega
    have page_field := @field_writeAt (List.replicate (9 + out.length) 0) (littleEndian 4 prior) 3
      (by rw [length_littleEndian, List.length_replicate]; omega)
    rw [length_littleEndian] at page_field
    have line_field : ((writeAt (List.replicate (9 + out.length) 0) 3
        (littleEndian 4 prior)).drop 7).take 2 = littleEndian 2 0 := by
      rw [field_after_writeAt (by rw [length_littleEndian]) (by rw [List.length_replicate]; omega),
        List.drop_replicate, List.take_replicate, Nat.min_eq_left (by omega)]
      rfl
    obtain ⟨area, area_eq⟩ : ∃ area,
        writeAt (List.replicate (9 + out.length) 0) 3 (littleEndian 4 prior) = area := ⟨_, rfl⟩
    rw [area_eq] at long page_field line_field
    have page_kept := @field_before_writeAt area out 9 3 4 (by omega) (by omega)
    have line_kept := @field_before_writeAt area out 9 7 2 (by omega) (by omega)
    rw [tailLine, skip, area_eq, getHeader_incomplete (by simpa [Flags.none] using last),
      if_neg last]
    · dsimp only
      rw [drop_writeAt (by omega), page_kept, line_kept, page_field, line_field,
        ofLittleEndian_littleEndian page, ofLittleEndian_littleEndian (by decide)]
    · dsimp only
      rw [length_writeAt (by omega), long]
      omega

end Lines

section Chain

variable {store : Store} {allowed : Nat × Nat → Prop} {next : Option (Nat × Nat)}
  {bytes : List UInt8}

/-- Fragments at the given places, each of them a packed piece of the record. -/
inductive Chained (store : Store) (allowed : Nat × Nat → Prop) :
    Option (Nat × Nat) → List UInt8 → Prop where
  | last : Chained store allowed none []
  | fragment {place : Nat × Nat} {line : Line} {fetched : Fetched} {front back : List UInt8}
      (inside : allowed place) (there : store place = some line)
      (header : getHeader line = .ok fetched) (packs : Packs fetched.data front)
      (later : Chained store allowed fetched.next back) :
      Chained store allowed (some place) (front ++ back)

theorem Chained.mono {more : Nat × Nat → Prop} (chained : Chained store allowed next bytes)
    (weaker : ∀ place, allowed place → more place) : Chained store more next bytes := by
  induction chained with
  | last => exact .last
  | fragment inside there header packs later ih =>
      exact .fragment (weaker _ inside) there header packs ih

/-- Writing a line elsewhere does not change the chain. -/
theorem Chained.congr {after : Store} (chained : Chained store allowed next bytes)
    (same : ∀ place, allowed place → after place = store place) :
    Chained after allowed next bytes := by
  induction chained with
  | last => exact .last
  | fragment inside there header packs later ih =>
      exact .fragment inside ((same _ inside).trans there) header packs ih

/-- Enough rounds of the loop read all fragments. -/
theorem Chained.fetchFragments (chained : Chained store allowed next bytes) :
    ∃ enough, ∀ rounds room, enough ≤ rounds → bytes.length ≤ room →
      RecordStorage.fetchFragments store rounds next room = .ok bytes := by
  induction chained with
  | last =>
      refine ⟨0, fun rounds room _ _ => ?_⟩
      cases rounds <;> rfl
  | @fragment place line fetched front back inside there header packs later ih =>
      obtain ⟨enough, reads⟩ := ih
      refine ⟨enough + 1, fun rounds room le fits => ?_⟩
      obtain ⟨rounds, rfl⟩ : ∃ fewer, rounds = fewer + 1 :=
        Nat.exists_eq_add_of_le' (Nat.le_trans (Nat.succ_le_succ enough.zero_le) le)
      rw [List.length_append] at fits
      have unpacked : Compressor.unpack fetched.data room = .ok front :=
        packs.unpack (by omega)
      have rest := reads rounds (room - front.length) (by omega) (by omega)
      simp only [RecordStorage.fetchFragments, there, header, unpacked, rest, bind, Except.bind,
        pure, Except.pure]

/-- A record is read back from its head and the chain behind it. -/
theorem Chained.data {place : Nat × Nat} {head : Line}
    (chained : Chained store allowed (some place) bytes) (there : store place = some head) :
    ∃ enough, ∀ rounds, enough ≤ rounds →
      RecordStorage.data store rounds head bytes.length = .ok bytes := by
  cases chained with
  | @fragment _ line fetched front back inside found header packs later =>
      obtain rfl : head = line := Option.some.inj (there.symm.trans found)
      obtain ⟨enough, reads⟩ := later.fetchFragments
      refine ⟨enough, fun rounds le => ?_⟩
      have unpacked : Compressor.unpack fetched.data (front ++ back).length = .ok front :=
        packs.unpack (by
          rw [List.length_append]
          omega)
      have rest := reads rounds ((front ++ back).length - front.length) le (by
        rw [List.length_append]
        omega)
      simp only [RecordStorage.data, header, unpacked, rest, bind, Except.bind, pure, Except.pure,
        ne_eq, not_true_eq_false, if_false]

end Chain

end RecordStorage
end Firebird
