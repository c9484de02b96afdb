import Firebird.Common.UnicodeUtil
import Firebird.Library.Filling

/-!
# What the conversions deliver

A conversion reads whole characters and stores their codes until it comes to the end of the source,
to a character that it has no room for, or to units that are no character.
-/

namespace Firebird
namespace UnicodeUtil

open CharacterCode Filling

variable {α β : Type}

/-- The conversion keeps within the destination, gives the code of exactly the part of the source
that it says it has read, and reports bad input where it comes to it with room left. -/
structure Converts (source : Char → List α) (target : Char → List β) (size : Nat) (src : List α)
    (capacity : Nat) (conversion : Conversion β) : Prop where
  inside : conversion.stored.length ≤ capacity
  exact : ∃ text,
    src.take (if conversion.err_code = 0 then src.length else conversion.err_position / size) =
        encode source text ∧
      conversion.output = encode target text
  reported : ¬WellFormed source src →
    (∀ text, encode source text <+: src → (encode target text).length < capacity) →
      conversion.err_code = CS_BAD_INPUT
  bad : conversion.err_code = CS_BAD_INPUT → ¬WellFormed source src

/-- How a loop comes to its end, from a position and with some units stored already. -/
def Stops (source : Char → List α) (target : Char → List β) (size : Nat) (src : List α)
    (capacity position : Nat) (dst : List β) (conversion : Conversion β) : Prop :=
  conversion.stored.length ≤ capacity ∧
    ∃ text tail, src = encode source text ++ tail ∧ conversion.output = dst ++ encode target text ∧
      (conversion.err_code = 0 ∧ tail = [] ∨
        conversion.err_position = (position + (encode source text).length) * size ∧
          (conversion.err_code = CS_TRUNCATION_ERROR ∧
              (∃ more, encode source more <+: src ∧
                capacity ≤ dst.length + (encode target more).length) ∨
            conversion.err_code = CS_BAD_INPUT ∧ tail ≠ [] ∧ ¬Starts source tail))

section Stops

variable {source : Char → List α} {target : Char → List β} {size : Nat} {src : List α}
  {capacity position : Nat} {dst : List β} {conversion : Conversion β}

/-- One character in front. -/
theorem Stops.cons {c : Char} (stops : Stops source target size src capacity
    (position + (source c).length) (dst ++ target c) conversion) :
    Stops source target size (source c ++ src) capacity position dst conversion := by
  obtain ⟨inside, text, tail, rfl, output_eq, ending⟩ := stops
  have place : position + (source c).length + (encode source text).length =
      position + (encode source (c :: text)).length := by
    rw [encode_cons, List.length_append, Nat.add_assoc]
  refine ⟨inside, c :: text, tail, by simp, by simp [output_eq], ?_⟩
  rcases ending with done | ⟨position_eq, crowded | bad⟩
  · exact Or.inl done
  · obtain ⟨truncated, more, more_prefix, full⟩ := crowded
    refine Or.inr ⟨by rw [position_eq, place], Or.inl ⟨truncated, c :: more, ?_, ?_⟩⟩
    · rw [encode_cons, List.prefix_append_right_inj]
      exact more_prefix
    · rw [encode_cons, List.length_append]
      rw [List.length_append] at full
      omega
  · exact Or.inr ⟨by rw [position_eq, place], Or.inr bad⟩

/-- The end of the source. -/
theorem stops_done (inside : conversion.stored.length ≤ capacity)
    (output_eq : conversion.output = dst) (no_error : conversion.err_code = 0) :
    Stops source target size [] capacity position dst conversion :=
  ⟨inside, [], [], rfl, by simpa using output_eq, Or.inl ⟨no_error, rfl⟩⟩

/-- A character that there is no room for. -/
theorem stops_crowded {c : Char} (inside : conversion.stored.length ≤ capacity)
    (output_eq : conversion.output = dst) (truncated : conversion.err_code = CS_TRUNCATION_ERROR)
    (position_eq : conversion.err_position = position * size)
    (full : capacity ≤ dst.length + (target c).length) :
    Stops source target size (source c ++ src) capacity position dst conversion :=
  ⟨inside, [], source c ++ src, rfl, by simpa using output_eq,
    Or.inr ⟨by simpa using position_eq, Or.inl ⟨truncated, [c], by simp, by simpa using full⟩⟩⟩

/-- A destination that is full. -/
theorem stops_full (inside : conversion.stored.length ≤ capacity)
    (output_eq : conversion.output = dst) (truncated : conversion.err_code = CS_TRUNCATION_ERROR)
    (position_eq : conversion.err_position = position * size) (full : capacity ≤ dst.length) :
    Stops source target size src capacity position dst conversion :=
  ⟨inside, [], src, rfl, by simpa using output_eq,
    Or.inr ⟨by simpa using position_eq, Or.inl ⟨truncated, [], by simp, by simpa using full⟩⟩⟩

/-- Units that are no character. -/
theorem stops_bad (inside : conversion.stored.length ≤ capacity)
    (output_eq : conversion.output = dst) (bad : conversion.err_code = CS_BAD_INPUT)
    (position_eq : conversion.err_position = position * size) (some : src ≠ [])
    (no_start : ¬Starts source src) :
    Stops source target size src capacity position dst conversion :=
  ⟨inside, [], src, rfl, by simpa using output_eq,
    Or.inr ⟨by simpa using position_eq, Or.inr ⟨bad, some, no_start⟩⟩⟩

theorem Stops.converts (prefix_code : IsPrefixCode source) (positive : 0 < size)
    (stops : Stops source target size src capacity 0 [] conversion) :
    Converts source target size src capacity conversion := by
  obtain ⟨inside, text, tail, rfl, output_eq, ending⟩ := stops
  rw [List.nil_append] at output_eq
  rcases ending with ⟨no_error, rfl⟩ | ⟨position_eq, ⟨truncated, more, more_prefix, full⟩ |
    ⟨bad, some, no_start⟩⟩
  · refine ⟨inside, ⟨text, by rw [if_pos no_error, List.take_length, List.append_nil], output_eq⟩,
      fun bad => absurd ⟨text, List.append_nil _⟩ bad, fun bad => ?_⟩
    rw [no_error] at bad
    exact absurd bad (by decide)
  · have code_ne : conversion.err_code ≠ 0 := by
      rw [truncated]
      decide
    refine ⟨inside, ⟨text, ?_, output_eq⟩, fun _ room => ?_, fun bad => ?_⟩
    · rw [if_neg code_ne, position_eq, Nat.zero_add, Nat.mul_div_cancel _ positive,
        List.take_left]
    · have := room more more_prefix
      rw [List.length_nil, Nat.zero_add] at full
      omega
    · rw [truncated] at bad
      exact absurd bad (by decide)
  · have code_ne : conversion.err_code ≠ 0 := by
      rw [bad]
      decide
    refine ⟨inside, ⟨text, ?_, output_eq⟩, fun _ _ => bad, fun _ good => ?_⟩
    · rw [if_neg code_ne, position_eq, Nat.zero_add, Nat.mul_div_cancel _ positive,
        List.take_left]
    · exact no_start (((prefix_code.wellFormed_encode_append_iff text tail).mp good).starts some)

/-- The part of the source, so many units long, that a conversion says it has read. -/
def Reads (size : Nat) (src : List α) (position : Nat) (conversion : Conversion β) (read : Nat) :
    Prop :=
  (conversion.err_code = 0 → read = src.length) ∧
    (conversion.err_code ≠ 0 → conversion.err_position = (position + read) * size)

/-- What is delivered is not the code of what is read. -/
def Strays (source : Char → List α) (target : Char → List β) (size : Nat) (src : List α)
    (position : Nat) (dst : List β) (conversion : Conversion β) : Prop :=
  ∃ read, Reads size src position conversion read ∧
    ∀ text, src.take read = encode source text → conversion.output ≠ dst ++ encode target text

theorem Reads.append {front : List α} {read : Nat}
    (reads : Reads size src (position + front.length) conversion read) :
    Reads size (front ++ src) position conversion (front.length + read) := by
  refine ⟨fun no_error => ?_, fun error => ?_⟩
  · rw [reads.1 no_error, List.length_append]
  · rw [reads.2 error, Nat.add_assoc]

theorem Strays.cons {c : Char} (prefix_code : IsPrefixCode source)
    (strays : Strays source target size src (position + (source c).length) (dst ++ target c)
      conversion) :
    Strays source target size (source c ++ src) position dst conversion := by
  obtain ⟨read, reads, differs⟩ := strays
  refine ⟨_, reads.append, fun text read_eq output_eq => ?_⟩
  rw [List.take_length_add_append] at read_eq
  cases text with
  | nil => exact prefix_code.nonempty c (List.append_eq_nil_iff.mp read_eq).1
  | cons first text =>
      obtain ⟨rfl, rest_eq⟩ := prefix_code.unique read_eq
      exact differs text rest_eq (by rw [output_eq, encode_cons, List.append_assoc])

theorem Strays.not_converts (positive : 0 < size)
    (strays : Strays source target size src 0 [] conversion) :
    ¬Converts source target size src capacity conversion := by
  obtain ⟨read, reads, differs⟩ := strays
  intro converts
  obtain ⟨text, read_eq, output_eq⟩ := converts.exact
  have same : (if conversion.err_code = 0 then src.length else conversion.err_position / size) =
      read := by
    split
    · exact (reads.1 ‹_›).symm
    · rw [reads.2 ‹_›, Nat.zero_add, Nat.mul_div_cancel _ positive]
  rw [same] at read_eq
  exact differs text read_eq output_eq

end Stops

/-! ## UTF-16 to UTF-8 -/

/-- The bytes of UTF-8. -/
abbrev utf8 : Char → List UInt8 := String.utf8EncodeChar

variable (icu : Icu)

theorem utf8_ascii {c : Char} (small : c.toNat ≤ 0x7F) : utf8 c = [UInt8.ofNat c.toNat] := by
  rw [utf8, String.utf8EncodeChar]
  simp [small]

/-- A unit that ICU takes for no surrogate is a character. -/
theorem utf16_of_not_surrogate {unit : UInt16} (plain : ¬icu.isSurrogate unit.toNat = true) :
    (Char.ofNat unit.toNat).toNat = unit.toNat ∧ utf16 (Char.ofNat unit.toNat) = [unit] := by
  rw [icu.isSurrogate_iff, not_or] at plain
  exact utf16_single plain.1 plain.2

theorem not_surrogate_of_ascii {unit : UInt16} (small : unit.toNat ≤ 0x7F) :
    ¬icu.isSurrogate unit.toNat = true := by
  rw [icu.isSurrogate_iff, IsLead, IsTrail]
  omega

/-- A surrogate that is not the first of a pair is no character. -/
theorem not_starts_surrogate {unit : UInt16} {rest : List UInt16}
    (surrogate : icu.isSurrogate unit.toNat = true)
    (unpaired : ∀ c2 ∈ rest.head?,
      ¬(icu.isSurrogateFirst unit.toNat && icu.isTrail c2.toNat) = true) :
    ¬Starts utf16 (unit :: rest) := by
  rw [icu.isSurrogate_iff] at surrogate
  rcases surrogate with lead | trail
  · apply not_starts_lead lead
    intro c2 member is_trail
    apply unpaired c2 member
    rw [Bool.and_eq_true, icu.isSurrogateFirst_iff _ (Or.inl lead), icu.isTrail_iff]
    exact ⟨lead, is_trail⟩
  · exact not_starts_trail trail

/-- A pair that ICU accepts is a character. -/
theorem utf16_of_pair {lead trail : UInt16} (surrogate : icu.isSurrogate lead.toNat = true)
    (paired : (icu.isSurrogateFirst lead.toNat && icu.isTrail trail.toNat) = true) :
    (Char.ofNat (icu.getPairValue lead.toNat trail.toNat)).toNat =
        icu.getPairValue lead.toNat trail.toNat ∧
      utf16 (Char.ofNat (icu.getPairValue lead.toNat trail.toNat)) = [lead, trail] := by
  rw [icu.isSurrogate_iff] at surrogate
  rw [Bool.and_eq_true, icu.isSurrogateFirst_iff _ surrogate, icu.isTrail_iff] at paired
  rw [icu.getPairValue_eq _ _ paired.1 paired.2]
  exact utf16_pair paired.1 paired.2

/-- What ICU says about the bytes of a code point. -/
theorem u8_of_value {c : Char} {value : Nat} (value_eq : c.toNat = value) :
    icu.u8Length value = (utf8 c).length ∧ icu.u8Append value = utf8 c := by
  subst value_eq
  exact ⟨icu.u8Length_eq c, icu.u8Append_eq c⟩

theorem utf16ToUtf8Loop_stops {dstLen i : Nat} {dst : List UInt8} {err_position : Nat}
    {src : List UInt16} (inside : dst.length ≤ dstLen) :
    Stops utf16 utf8 2 src dstLen i dst
      (utf16ToUtf8Loop icu dstLen i dst err_position src) := by
  induction i, dst, err_position, src using utf16ToUtf8Loop.induct icu dstLen with
  | case1 i dst err_position =>
      rw [utf16ToUtf8Loop]
      exact stops_done inside List.take_length rfl
  | case2 i dst err_position unit rest full =>
      unfold utf16ToUtf8Loop
      rw [if_pos full]
      exact stops_full inside List.take_length rfl rfl (by omega)
  | @case3 i dst err_position unit rest some_room c ascii ih =>
      obtain ⟨value_eq, code_eq⟩ := utf16_of_not_surrogate icu (not_surrogate_of_ascii icu ascii)
      have target_eq : utf8 (Char.ofNat unit.toNat) = [UInt8.ofNat unit.toNat] := by
        rw [utf8_ascii (by rw [value_eq]; exact ascii), value_eq]
      unfold utf16ToUtf8Loop
      rw [if_neg some_room, if_pos ascii, ← List.singleton_append, ← code_eq]
      apply Stops.cons
      rw [code_eq, target_eq]
      exact ih (by rw [List.length_append, List.length_singleton]; omega)
  | @case4 i dst err_position unit some_room c wide surrogate =>
      unfold utf16ToUtf8Loop
      rw [if_neg some_room, if_neg wide, if_pos surrogate]
      exact stops_bad inside List.take_length rfl rfl (List.cons_ne_nil _ _)
        (not_starts_surrogate icu surrogate fun _ member => by cases member)
  | @case5 i dst err_position lead some_room c wide surrogate trail rest paired value fits ih =>
      obtain ⟨value_eq, code_eq⟩ := utf16_of_pair icu surrogate paired
      obtain ⟨length_eq, append_eq⟩ := u8_of_value icu value_eq
      have room : (dst ++ icu.u8Append value).length ≤ dstLen := by
        rw [List.length_append, append_eq, ← length_eq]
        exact (Nat.le_sub_iff_add_le' inside).mp fits
      unfold utf16ToUtf8Loop
      rw [if_neg some_room, if_neg wide, if_pos surrogate]
      simp only
      rw [if_pos paired, if_pos fits]
      have split_eq : lead :: trail :: rest = utf16 (Char.ofNat value) ++ rest := by
        rw [code_eq]
        rfl
      rw [split_eq]
      apply Stops.cons
      rw [code_eq, ← append_eq]
      exact ih room
  | @case6 i dst err_position lead some_room c wide surrogate trail rest paired value full =>
      obtain ⟨value_eq, code_eq⟩ := utf16_of_pair icu surrogate paired
      obtain ⟨length_eq, -⟩ := u8_of_value icu value_eq
      have crowded : dstLen ≤ dst.length + (utf8 (Char.ofNat value)).length := by
        rw [← length_eq]
        exact Nat.le_of_not_le fun small => full ((Nat.le_sub_iff_add_le' inside).mpr small)
      unfold utf16ToUtf8Loop
      rw [if_neg some_room, if_neg wide, if_pos surrogate]
      simp only
      rw [if_pos paired, if_neg full]
      have split_eq : lead :: trail :: rest = utf16 (Char.ofNat value) ++ rest := by
        rw [code_eq]
        rfl
      rw [split_eq]
      exact stops_crowded inside List.take_length rfl rfl crowded
  | @case7 i dst err_position unit some_room c wide surrogate other rest unpaired =>
      unfold utf16ToUtf8Loop
      rw [if_neg some_room, if_neg wide, if_pos surrogate]
      simp only
      rw [if_neg unpaired]
      refine stops_bad inside List.take_length rfl rfl (List.cons_ne_nil _ _)
        (not_starts_surrogate icu surrogate ?_)
      rintro c2 ⟨⟩
      exact unpaired
  | @case8 i dst err_position unit rest some_room c wide plain fits ih =>
      obtain ⟨value_eq, code_eq⟩ := utf16_of_not_surrogate icu plain
      obtain ⟨length_eq, append_eq⟩ := u8_of_value icu value_eq
      have room : (dst ++ icu.u8Append unit.toNat).length ≤ dstLen := by
        rw [List.length_append, append_eq, ← length_eq]
        exact (Nat.le_sub_iff_add_le' inside).mp fits
      unfold utf16ToUtf8Loop
      rw [if_neg some_room, if_neg wide, if_neg plain, if_pos fits, ← List.singleton_append,
        ← code_eq]
      apply Stops.cons
      rw [code_eq, ← append_eq]
      exact ih room
  | @case9 i dst err_position unit rest some_room c wide plain full =>
      obtain ⟨value_eq, code_eq⟩ := utf16_of_not_surrogate icu plain
      obtain ⟨length_eq, -⟩ := u8_of_value icu value_eq
      have crowded : dstLen ≤ dst.length + (utf8 (Char.ofNat unit.toNat)).length := by
        rw [← length_eq]
        exact Nat.le_of_not_le fun small => full ((Nat.le_sub_iff_add_le' inside).mpr small)
      unfold utf16ToUtf8Loop
      rw [if_neg some_room, if_neg wide, if_neg plain, if_neg full, ← List.singleton_append,
        ← code_eq]
      exact stops_crowded inside List.take_length rfl rfl crowded

theorem utf16ToUtf8_converts (src : List UInt16) (dstLen err_position : Nat) :
    Converts utf16 utf8 2 src dstLen (utf16ToUtf8 icu src dstLen err_position) :=
  (utf16ToUtf8Loop_stops icu (Nat.zero_le _)).converts utf16_prefix_code (by decide)

/-! ## UTF-16 to UTF-32 -/

/-- No trail surrogate without its lead is come to while there is room. -/
def TrailsPaired (room : Nat) (src : List UInt16) : Prop :=
  ForReached (fun _ => 1) (fun segment _ => loneTrail segment = false) room
    ((segments src).takeWhile fun segment => !loneLead segment)

theorem trailsPaired_pair {lead trail : UInt16} {rest : List UInt16} {room : Nat}
    (some_room : 0 < room) (is_lead : IsLead lead.toNat) (is_trail : IsTrail trail.toNat) :
    TrailsPaired room (lead :: trail :: rest) ↔ TrailsPaired (room - 1) rest := by
  rw [TrailsPaired, segments_pair is_lead is_trail, List.takeWhile_cons_of_pos rfl,
    forReached_cons some_room]
  exact and_iff_right rfl

theorem trailsPaired_single {unit : UInt16} {rest : List UInt16} {room : Nat}
    (some_room : 0 < room) (no_lead : ¬IsLead unit.toNat) :
    TrailsPaired room (unit :: rest) ↔
      ¬IsTrail unit.toNat ∧ TrailsPaired (room - 1) rest := by
  rw [TrailsPaired, segments_single (absurd · no_lead),
    List.takeWhile_cons_of_pos (by simpa [loneLead] using no_lead), forReached_cons some_room]
  simp only [loneTrail, decide_eq_false_iff_not]
  rfl

theorem trailsPaired_of_lead {unit : UInt16} {rest : List UInt16} {room : Nat}
    (is_lead : IsLead unit.toNat) (unpaired : ∀ next ∈ rest.head?, ¬IsTrail next.toNat) :
    TrailsPaired room (unit :: rest) := by
  rw [TrailsPaired, segments_single fun _ => unpaired,
    List.takeWhile_cons_of_neg (by simpa [loneLead] using is_lead)]
  exact forReached_nil

/-- The value of a unit or a pair in UTF-32. -/
theorem utf32_of_value {c : Char} {value : Nat} (value_eq : c.toNat = value) :
    utf32 c = [UInt32.ofNat value] := by
  rw [utf32, ← value_eq, Char.toNat, UInt32.ofNat_toNat]

/-- The statements behind a loop report the position that the loop has come to. -/
theorem finish_reads (size position : Nat) (dst : List β) (err_code : Nat) (src : List α) :
    Reads size src position (finish dst err_code (position * size) src) 0 := by
  refine ⟨fun no_error => ?_, fun _ => rfl⟩
  cases src with
  | nil => rfl
  | cons unit rest =>
      rw [finish] at no_error
      by_cases clean : err_code = 0
      · rw [if_pos ⟨clean, List.cons_ne_nil _ _⟩] at no_error
        exact absurd no_error (show CS_TRUNCATION_ERROR ≠ 0 by decide)
      · rw [if_neg fun both => clean both.1] at no_error
        exact absurd no_error clean

theorem finish_output (dst : List β) (err_code err_position : Nat) (src : List α) :
    (finish dst err_code err_position src).output = dst := List.take_length

theorem utf16ToUtf32Loop_reads (capacity position : Nat) (dst : List UInt32) (src : List UInt16) :
    ∃ read, Reads 2 src position (utf16ToUtf32Loop icu capacity position dst src) read := by
  induction position, dst, src using utf16ToUtf32Loop.induct icu capacity with
  | case1 position dst =>
      rw [utf16ToUtf32Loop]
      exact ⟨0, finish_reads _ _ _ _ _⟩
  | @case2 position dst unit some_room ch lead =>
      unfold utf16ToUtf32Loop
      rw [if_pos some_room, if_pos lead]
      exact ⟨0, finish_reads _ _ _ _ _⟩
  | @case3 position dst unit some_room ch lead ch2 rest trail ih =>
      unfold utf16ToUtf32Loop
      rw [if_pos some_room, if_pos lead]
      simp only
      rw [if_pos trail]
      obtain ⟨read, reads⟩ := ih
      exact ⟨2 + read, @Reads.append _ _ 2 rest position _ [unit, ch2] read reads⟩
  | @case4 position dst unit some_room ch lead ch2 rest no_trail =>
      unfold utf16ToUtf32Loop
      rw [if_pos some_room, if_pos lead]
      simp only
      rw [if_neg no_trail]
      exact ⟨0, finish_reads _ _ _ _ _⟩
  | @case5 position dst unit rest some_room ch no_lead ih =>
      unfold utf16ToUtf32Loop
      rw [if_pos some_room, if_neg no_lead]
      obtain ⟨read, reads⟩ := ih
      exact ⟨1 + read, @Reads.append _ _ 2 rest position _ [unit] read reads⟩
  | case6 position dst unit rest full =>
      unfold utf16ToUtf32Loop
      rw [if_neg full]
      exact ⟨0, finish_reads _ _ _ _ _⟩

/-- With every trail that it comes to behind its lead, the loop does what a conversion is to do; one
trail without its lead is enough for it to stray. -/
theorem utf16ToUtf32Loop_ends {capacity position : Nat} {dst : List UInt32} {src : List UInt16}
    (inside : dst.length ≤ capacity) :
    (TrailsPaired (capacity - dst.length) src →
      Stops utf16 utf32 2 src capacity position dst
        (utf16ToUtf32Loop icu capacity position dst src)) ∧
    (¬TrailsPaired (capacity - dst.length) src →
      Strays utf16 utf32 2 src position dst (utf16ToUtf32Loop icu capacity position dst src)) := by
  induction position, dst, src using utf16ToUtf32Loop.induct icu capacity with
  | case1 position dst =>
      rw [utf16ToUtf32Loop]
      exact ⟨fun _ => stops_done inside List.take_length rfl,
        fun strays => absurd forReached_nil strays⟩
  | @case2 position dst unit some_room ch lead =>
      have is_lead := (icu.isLead_iff _).mp lead
      unfold utf16ToUtf32Loop
      rw [if_pos some_room, if_pos lead]
      refine ⟨fun _ => stops_bad inside List.take_length rfl rfl (List.cons_ne_nil _ _)
        (not_starts_lead is_lead fun _ member => by cases member),
        fun strays => absurd ?_ strays⟩
      exact trailsPaired_of_lead is_lead fun _ member => by cases member
  | @case3 position dst unit some_room ch lead ch2 rest trail ih =>
      have is_lead := (icu.isLead_iff _).mp lead
      have is_trail := (icu.isTrail_iff _).mp trail
      obtain ⟨value_eq, code_eq⟩ := utf16_pair is_lead is_trail
      have target_eq := utf32_of_value value_eq
      have split_eq : unit :: ch2 :: rest =
          utf16 (Char.ofNat (pairValue unit.toNat ch2.toNat)) ++ rest := by
        rw [code_eq]
        rfl
      have step := ih (by rw [List.length_append]; exact some_room)
      rw [List.length_append, List.length_singleton, ← Nat.sub_sub,
        icu.getPairValue_eq _ _ is_lead is_trail, ← target_eq] at step
      unfold utf16ToUtf32Loop
      rw [if_pos some_room, if_pos lead]
      simp only
      rw [if_pos trail, trailsPaired_pair (Nat.sub_pos_of_lt some_room) is_lead is_trail,
        icu.getPairValue_eq _ _ is_lead is_trail, ← target_eq, split_eq]
      refine ⟨fun paired => Stops.cons ?_, fun stray => Strays.cons utf16_prefix_code ?_⟩
      · rw [code_eq]
        exact step.1 paired
      · rw [code_eq]
        exact step.2 stray
  | @case4 position dst unit some_room ch lead ch2 rest no_trail =>
      have is_lead := (icu.isLead_iff _).mp lead
      have unpaired : ∀ next ∈ (ch2 :: rest).head?, ¬IsTrail next.toNat := by
        rintro next ⟨⟩
        exact mt (icu.isTrail_iff _).mpr no_trail
      unfold utf16ToUtf32Loop
      rw [if_pos some_room, if_pos lead]
      simp only
      rw [if_neg no_trail]
      exact ⟨fun _ => stops_bad inside List.take_length rfl rfl (List.cons_ne_nil _ _)
        (not_starts_lead is_lead unpaired),
        fun strays => absurd (trailsPaired_of_lead is_lead unpaired) strays⟩
  | @case5 position dst unit rest some_room ch no_lead ih =>
      have plain : ¬IsLead unit.toNat := mt (icu.isLead_iff _).mpr no_lead
      have step := ih (by rw [List.length_append]; exact some_room)
      rw [List.length_append, List.length_singleton, ← Nat.sub_sub] at step
      obtain ⟨read, reads⟩ := utf16ToUtf32Loop_reads icu capacity (position + 1)
        (dst ++ [UInt32.ofNat ch]) rest
      unfold utf16ToUtf32Loop
      rw [if_pos some_room, if_neg no_lead, trailsPaired_single (Nat.sub_pos_of_lt some_room) plain]
      by_cases trail : IsTrail unit.toNat
      · refine ⟨fun paired => absurd trail paired.1, fun _ => ⟨1 + read,
          @Reads.append _ _ 2 rest position _ [unit] read reads, fun text text_eq _ => ?_⟩⟩
        rw [Nat.add_comm, List.take_succ_cons] at text_eq
        exact not_starts_trail trail
          (WellFormed.starts ⟨text, text_eq⟩ (List.cons_ne_nil _ _))
      · obtain ⟨value_eq, code_eq⟩ := utf16_single plain trail
        have target_eq := utf32_of_value value_eq
        rw [← target_eq] at step
        rw [and_iff_right trail, ← target_eq, ← List.singleton_append, ← code_eq]
        refine ⟨fun paired => Stops.cons ?_, fun stray => Strays.cons utf16_prefix_code ?_⟩
        · rw [code_eq]
          exact step.1 paired
        · rw [code_eq]
          exact step.2 stray
  | case6 position dst unit rest full =>
      have no_room : capacity - dst.length = 0 := Nat.sub_eq_zero_of_le (Nat.le_of_not_lt full)
      unfold utf16ToUtf32Loop
      rw [if_neg full, no_room]
      exact ⟨fun _ => stops_full inside List.take_length rfl rfl (Nat.le_of_not_lt full),
        fun stray => absurd (forReached_of_full _) stray⟩

theorem utf16ToUtf32_converts_iff (src : List UInt16) (dstLen : Nat) :
    Converts utf16 utf32 2 src (dstLen / 4) (utf16ToUtf32 icu src dstLen) ↔
      TrailsPaired (dstLen / 4) src := by
  have ends := @utf16ToUtf32Loop_ends icu (dstLen / 4) 0 [] src (Nat.zero_le _)
  rw [List.length_nil, Nat.sub_zero] at ends
  constructor
  · intro converts
    by_contra stray
    exact (ends.2 stray).not_converts (by decide) converts
  · intro paired
    exact (ends.1 paired).converts utf16_prefix_code (by decide)

/-! ## UTF-32 to UTF-16 -/

/-- The units of a code in UTF-16. -/
def width (ch : UInt32) : Nat := if ch.toNat ≤ 0xFFFF then 1 else 2

/-- Every code within the range of Unicode that is come to while there is room is a character, and
all of it fits. -/
def CodesFit (room : Nat) (src : List UInt32) : Prop :=
  ForReached width (fun ch left => ¬(IsLead ch.toNat ∨ IsTrail ch.toNat) ∧ width ch ≤ left) room
    (src.takeWhile fun ch => ch.toNat ≤ 0x10FFFF)

theorem codesFit_cons {ch : UInt32} {rest : List UInt32} {room : Nat} (some_room : 0 < room)
    (known : ch.toNat ≤ 0x10FFFF) :
    CodesFit room (ch :: rest) ↔
      (¬(IsLead ch.toNat ∨ IsTrail ch.toNat) ∧ width ch ≤ room) ∧
        CodesFit (room - width ch) rest := by
  rw [CodesFit, List.takeWhile_cons_of_pos (by simpa using known), forReached_cons some_room]
  rfl

/-- A code that is a character. -/
theorem utf32_of_known {ch : UInt32} (known : ch.toNat ≤ 0x10FFFF)
    (plain : ¬(IsLead ch.toNat ∨ IsTrail ch.toNat)) :
    (Char.ofNat ch.toNat).toNat = ch.toNat ∧ utf32 (Char.ofNat ch.toNat) = [ch] := by
  rw [IsLead, IsTrail] at plain
  have value_eq : (Char.ofNat ch.toNat).toNat = ch.toNat :=
    toNat_ofNat (by rw [Nat.isValidChar]; omega)
  refine ⟨value_eq, ?_⟩
  rw [utf32_of_value value_eq, UInt32.ofNat_toNat]

theorem not_starts_of_not_char {ch : UInt32} {rest : List UInt32}
    (strange : 0x10FFFF < ch.toNat ∨ IsLead ch.toNat ∨ IsTrail ch.toNat) :
    ¬Starts utf32 (ch :: rest) := by
  rintro ⟨c, behind, same⟩
  have value_eq : ch.toNat = c.toNat := by
    rw [(List.cons.inj same).1]
    rfl
  have bounds := toNat_bounds c
  rw [IsLead, IsTrail] at strange
  omega

theorem utf32ToUtf16Loop_reads (capacity position : Nat) (dst : List UInt16) (src : List UInt32) :
    ∃ read, Reads 4 src position (utf32ToUtf16Loop icu capacity position dst src) read := by
  induction position, dst, src using utf32ToUtf16Loop.induct icu capacity with
  | case1 position dst =>
      rw [utf32ToUtf16Loop]
      exact ⟨0, finish_reads _ _ _ _ _⟩
  | case2 position dst ch rest some_room short ih =>
      rw [utf32ToUtf16Loop, if_pos some_room, if_pos short]
      obtain ⟨read, reads⟩ := ih
      exact ⟨1 + read, @Reads.append _ _ 4 rest position _ [ch] read reads⟩
  | @case3 position dst ch rest some_room long known dst' more_room ih =>
      rw [utf32ToUtf16Loop, if_pos some_room, if_neg long, if_pos known]
      simp only
      rw [if_pos more_room]
      obtain ⟨read, reads⟩ := ih
      exact ⟨1 + read, @Reads.append _ _ 4 rest position _ [ch] read reads⟩
  | @case4 position dst ch rest some_room long known dst' crowded =>
      rw [utf32ToUtf16Loop, if_pos some_room, if_neg long, if_pos known]
      simp only
      rw [if_neg crowded]
      exact ⟨1, fun no_error => absurd no_error (show CS_TRUNCATION_ERROR ≠ 0 by decide),
        fun _ => rfl⟩
  | case5 position dst ch rest some_room long unknown =>
      rw [utf32ToUtf16Loop, if_pos some_room, if_neg long, if_neg unknown]
      exact ⟨0, finish_reads _ _ _ _ _⟩
  | case6 position dst ch rest full =>
      rw [utf32ToUtf16Loop, if_neg full]
      exact ⟨0, finish_reads _ _ _ _ _⟩

/-- A loop that goes past a code that is no character strays. -/
theorem strays_of_not_char {ch : UInt32} {rest : List UInt32} {position : Nat} {dst : List UInt16}
    {conversion : Conversion UInt16} {read : Nat}
    (reads : Reads 4 rest (position + 1) conversion read)
    (surrogate : IsLead ch.toNat ∨ IsTrail ch.toNat) :
    Strays utf32 utf16 4 (ch :: rest) position dst conversion := by
  refine ⟨1 + read, @Reads.append _ _ 4 rest position _ [ch] read reads, fun text text_eq _ => ?_⟩
  rw [Nat.add_comm, List.take_succ_cons] at text_eq
  exact not_starts_of_not_char (Or.inr surrogate)
    (WellFormed.starts ⟨text, text_eq⟩ (List.cons_ne_nil _ _))

/-- With every code that it comes to a character that fits, the loop does what a conversion is to
do; one code that does not is enough for it to stray. -/
theorem utf32ToUtf16Loop_ends {capacity position : Nat} {dst : List UInt16} {src : List UInt32}
    (inside : dst.length ≤ capacity) :
    (CodesFit (capacity - dst.length) src →
      Stops utf32 utf16 4 src capacity position dst
        (utf32ToUtf16Loop icu capacity position dst src)) ∧
    (¬CodesFit (capacity - dst.length) src →
      Strays utf32 utf16 4 src position dst (utf32ToUtf16Loop icu capacity position dst src)) := by
  induction position, dst, src using utf32ToUtf16Loop.induct icu capacity with
  | case1 position dst =>
      rw [utf32ToUtf16Loop]
      exact ⟨fun _ => stops_done inside List.take_length rfl,
        fun strays => absurd forReached_nil strays⟩
  | case2 position dst ch rest some_room short ih =>
      have width_eq : width ch = 1 := if_pos short
      have step := ih (by rw [List.length_append]; exact some_room)
      rw [List.length_append, List.length_singleton, ← Nat.sub_sub] at step
      obtain ⟨read, reads⟩ := utf32ToUtf16Loop_reads icu capacity (position + 1)
        (dst ++ [UInt16.ofNat ch.toNat]) rest
      rw [utf32ToUtf16Loop, if_pos some_room, if_pos short,
        codesFit_cons (Nat.sub_pos_of_lt some_room) (by omega), width_eq]
      by_cases surrogate : IsLead ch.toNat ∨ IsTrail ch.toNat
      · exact ⟨fun fit => absurd surrogate fit.1.1, fun _ => strays_of_not_char reads surrogate⟩
      · obtain ⟨value_eq, code_eq⟩ := utf32_of_known (by omega) surrogate
        have target_eq : utf16 (Char.ofNat ch.toNat) = [UInt16.ofNat ch.toNat] := by
          rw [utf16, value_eq, if_pos short]
        have fine : ¬(IsLead ch.toNat ∨ IsTrail ch.toNat) ∧ 1 ≤ capacity - dst.length :=
          ⟨surrogate, Nat.sub_pos_of_lt some_room⟩
        rw [← target_eq] at step
        rw [and_iff_right fine, ← target_eq, ← List.singleton_append, ← code_eq]
        refine ⟨fun fit => Stops.cons ?_, fun stray => Strays.cons utf32_prefix_code ?_⟩
        · rw [code_eq]
          exact step.1 fit
        · rw [code_eq]
          exact step.2 stray
  | @case3 position dst ch rest some_room long known dst' more_room ih =>
      have width_eq : width ch = 2 := if_neg long
      have two_units : dst.length + 2 ≤ capacity := by
        rw [List.length_append, List.length_singleton] at more_room
        exact more_room
      have pair_eq : dst' ++ [UInt16.ofNat (icu.trail ch.toNat)] =
          dst ++ [UInt16.ofNat (leadOf ch.toNat), UInt16.ofNat (trailOf ch.toNat)] := by
        have lead_eq := icu.lead_eq ch.toNat (Nat.lt_of_not_le long) known
        have trail_eq := icu.trail_eq ch.toNat (Nat.lt_of_not_le long) known
        rw [← lead_eq, ← trail_eq]
        exact List.append_assoc _ _ _
      rw [pair_eq] at ih
      have step := ih (by rw [List.length_append]; exact two_units)
      rw [List.length_append, List.length_cons, List.length_singleton, ← Nat.sub_sub] at step
      obtain ⟨read, reads⟩ := utf32ToUtf16Loop_reads icu capacity (position + 1)
        (dst ++ [UInt16.ofNat (leadOf ch.toNat), UInt16.ofNat (trailOf ch.toNat)]) rest
      rw [utf32ToUtf16Loop, if_pos some_room, if_neg long, if_pos known]
      simp only
      rw [if_pos more_room, pair_eq, codesFit_cons (Nat.sub_pos_of_lt some_room) known, width_eq]
      by_cases surrogate : IsLead ch.toNat ∨ IsTrail ch.toNat
      · exact ⟨fun fit => absurd surrogate fit.1.1, fun _ => strays_of_not_char reads surrogate⟩
      · obtain ⟨value_eq, code_eq⟩ := utf32_of_known known surrogate
        have target_eq : utf16 (Char.ofNat ch.toNat) =
            [UInt16.ofNat (leadOf ch.toNat), UInt16.ofNat (trailOf ch.toNat)] := by
          rw [utf16, value_eq, if_neg long]
        have fine : ¬(IsLead ch.toNat ∨ IsTrail ch.toNat) ∧ 2 ≤ capacity - dst.length :=
          ⟨surrogate, by omega⟩
        rw [← target_eq] at step
        rw [and_iff_right fine, ← target_eq, ← List.singleton_append, ← code_eq]
        refine ⟨fun fit => Stops.cons ?_, fun stray => Strays.cons utf32_prefix_code ?_⟩
        · rw [code_eq]
          exact step.1 fit
        · rw [code_eq]
          exact step.2 stray
  | @case4 position dst ch rest some_room long known dst' crowded =>
      have width_eq : width ch = 2 := if_neg long
      have one_unit : capacity - dst.length < 2 := by
        rw [List.length_append, List.length_singleton] at crowded
        omega
      rw [utf32ToUtf16Loop, if_pos some_room, if_neg long, if_pos known]
      simp only
      rw [if_neg crowded, codesFit_cons (Nat.sub_pos_of_lt some_room) known, width_eq]
      refine ⟨fun fit => absurd fit.1.2 (Nat.not_le_of_lt one_unit), fun _ => ⟨1,
        ⟨fun no_error => absurd no_error (show CS_TRUNCATION_ERROR ≠ 0 by decide), fun _ => rfl⟩,
        fun text text_eq output_eq => ?_⟩⟩
      -- the lead is taken back, while the source position is behind the character
      have output_dst : (dst ++ [UInt16.ofNat (icu.lead ch.toNat)]).take
          ((dst ++ [UInt16.ofNat (icu.lead ch.toNat)]).length - 1) = dst := by
        rw [List.length_append, List.length_singleton, Nat.add_sub_cancel, List.take_left]
      have nothing : encode utf16 text = [] :=
        List.append_right_eq_self.mp (output_eq.symm.trans output_dst)
      cases text with
      | nil => exact absurd text_eq (List.cons_ne_nil _ _)
      | cons c text => exact utf16_prefix_code.nonempty c (List.append_eq_nil_iff.mp nothing).1
  | case5 position dst ch rest some_room long unknown =>
      rw [utf32ToUtf16Loop, if_pos some_room, if_neg long, if_neg unknown]
      refine ⟨fun _ => stops_bad inside List.take_length rfl rfl (List.cons_ne_nil _ _)
        (not_starts_of_not_char (Or.inl (Nat.lt_of_not_le unknown))),
        fun stray => absurd ?_ stray⟩
      rw [CodesFit, List.takeWhile_cons_of_neg (by simpa using unknown)]
      exact forReached_nil
  | case6 position dst ch rest full =>
      have no_room : capacity - dst.length = 0 := Nat.sub_eq_zero_of_le (Nat.le_of_not_lt full)
      rw [utf32ToUtf16Loop, if_neg full, no_room]
      exact ⟨fun _ => stops_full inside List.take_length rfl rfl (Nat.le_of_not_lt full),
        fun stray => absurd (forReached_of_full _) stray⟩

theorem utf32ToUtf16_converts_iff (src : List UInt32) (dstLen : Nat) :
    Converts utf32 utf16 4 src (dstLen / 2) (utf32ToUtf16 icu src dstLen) ↔
      CodesFit (dstLen / 2) src := by
  have ends := @utf32ToUtf16Loop_ends icu (dstLen / 2) 0 [] src (Nat.zero_le _)
  rw [List.length_nil, Nat.sub_zero] at ends
  constructor
  · intro converts
    by_contra stray
    exact (ends.2 stray).not_converts (by decide) converts
  · intro fit
    exact (ends.1 fit).converts utf32_prefix_code (by decide)

end UnicodeUtil
end Firebird
