import Firebird.Common.UnicodeUtilExact

/-!
# Substrings, and there and back again

`utf16Substring` looks for room for one unit before it stores a character of two.  Texts that are
well formed go from UTF-16 to UTF-32 and come back the same.
-/

namespace Firebird
namespace UnicodeUtil

open CharacterCode Filling

variable (icu : Icu)

/-! ## Substrings -/

/-- The stored units are whole characters of the substring and stay within the destination. -/
structure Cuts (src : List UInt16) (capacity startPos length : Nat) (stored : List UInt16) :
    Prop where
  inside : stored.length ≤ capacity
  whole : ∃ count ≤ length, stored = (((segments src).drop startPos).take count).flatten

/-- All units of every character that is begun while there is room fit. -/
def SegmentsFit (room : Nat) (characters : List (List UInt16)) : Prop :=
  ForReached List.length (fun segment left => segment.length ≤ left) room characters

section Copy

variable {capacity stop pos : Nat} {dst src : List UInt16}

/-- The segment that the loop goes on with behind a unit that is no lead. -/
theorem segments_of_not_lead {unit : UInt16} {rest : List UInt16}
    (no_lead : ¬icu.isLead unit.toNat = true) :
    segments (unit :: rest) = [unit] :: segments rest :=
  segments_single fun is_lead => absurd ((icu.isLead_iff _).mpr is_lead) no_lead

theorem segments_of_not_trail {unit next : UInt16} {rest : List UInt16}
    (no_trail : ¬icu.isTrail next.toNat = true) :
    segments (unit :: next :: rest) = [unit] :: segments (next :: rest) := by
  apply segments_single
  rintro - other ⟨⟩ is_trail
  exact no_trail ((icu.isTrail_iff _).mpr is_trail)

theorem segments_of_pair {unit next : UInt16} {rest : List UInt16}
    (lead : icu.isLead unit.toNat = true) (trail : icu.isTrail next.toNat = true) :
    segments (unit :: next :: rest) = [unit, next] :: segments rest :=
  segments_pair ((icu.isLead_iff _).mp lead) ((icu.isTrail_iff _).mp trail) rest

/-- One segment is put in front of what the rest of the loop stores. -/
theorem whole_step {segment : List UInt16} {others : List (List UInt16)} {stored : List UInt16}
    (more : pos < stop)
    (rest : ∃ count ≤ stop - (pos + 1), stored = dst ++ segment ++ (others.take count).flatten) :
    ∃ count ≤ stop - pos, stored = dst ++ ((segment :: others).take count).flatten := by
  obtain ⟨count, count_le, stored_eq⟩ := rest
  refine ⟨count + 1, by omega, ?_⟩
  rw [stored_eq, List.take_succ_cons, List.flatten_cons, List.append_assoc]

theorem copyCharacters_whole :
    ∃ count ≤ stop - pos, copyCharacters icu capacity stop pos dst src =
      dst ++ ((segments src).take count).flatten := by
  induction pos, dst, src using copyCharacters.induct icu capacity stop with
  | case1 pos dst =>
      rw [copyCharacters]
      exact ⟨0, Nat.zero_le _, (List.append_nil _).symm⟩
  | case2 pos dst unit going lead ih =>
      rw [copyCharacters, if_pos going, if_pos lead]
      exact whole_step going.2 ih
  | case3 pos dst unit going lead next rest trail ih =>
      rw [copyCharacters, if_pos going, if_pos lead, if_pos trail, segments_of_pair icu lead trail]
      rw [List.append_assoc] at ih ⊢
      exact whole_step going.2 ih
  | case4 pos dst unit going lead next rest no_trail ih =>
      rw [copyCharacters, if_pos going, if_pos lead, if_neg no_trail,
        segments_of_not_trail icu no_trail]
      exact whole_step going.2 ih
  | case5 pos dst unit rest going no_lead ih =>
      rw [copyCharacters.eq_def]
      simp only
      rw [if_pos going, if_neg no_lead, segments_of_not_lead icu no_lead]
      exact whole_step going.2 ih
  | case6 pos dst unit rest done =>
      rw [copyCharacters.eq_def]
      simp only
      rw [if_neg done]
      exact ⟨0, Nat.zero_le _, (List.append_nil _).symm⟩

theorem length_le_copyCharacters :
    dst.length ≤ (copyCharacters icu capacity stop pos dst src).length := by
  obtain ⟨count, -, stored_eq⟩ := @copyCharacters_whole icu capacity stop pos dst src
  rw [stored_eq, List.length_append]
  exact Nat.le_add_right _ _

/-- One segment decides on the room for the others, if it fits itself. -/
theorem inside_step {segment : List UInt16} {others : List (List UInt16)} {stored : List UInt16}
    (going : dst.length < capacity ∧ pos < stop) (longer : (dst ++ segment).length ≤ stored.length)
    (rest : (dst ++ segment).length ≤ capacity →
      (stored.length ≤ capacity ↔
        SegmentsFit (capacity - (dst ++ segment).length) (others.take (stop - (pos + 1))))) :
    stored.length ≤ capacity ↔
      SegmentsFit (capacity - dst.length) ((segment :: others).take (stop - pos)) := by
  have turns : stop - pos = stop - (pos + 1) + 1 := by omega
  rw [turns, List.take_succ_cons, SegmentsFit, forReached_cons (Nat.sub_pos_of_lt going.1)]
  rw [List.length_append] at longer rest
  by_cases fits : dst.length + segment.length ≤ capacity
  · have segment_fits : segment.length ≤ capacity - dst.length := by omega
    rw [rest fits, and_iff_right segment_fits, Nat.sub_sub]
    rfl
  · have segment_large : ¬segment.length ≤ capacity - dst.length := by omega
    have stored_large : ¬stored.length ≤ capacity := by omega
    exact iff_of_false stored_large fun both => segment_large both.1

theorem copyCharacters_inside_iff (inside : dst.length ≤ capacity) :
    (copyCharacters icu capacity stop pos dst src).length ≤ capacity ↔
      SegmentsFit (capacity - dst.length) ((segments src).take (stop - pos)) := by
  induction pos, dst, src using copyCharacters.induct icu capacity stop with
  | case1 pos dst =>
      rw [copyCharacters, segments, List.take_nil]
      exact iff_of_true inside forReached_nil
  | case2 pos dst unit going lead ih =>
      rw [copyCharacters, if_pos going, if_pos lead]
      exact inside_step going (length_le_copyCharacters icu) ih
  | case3 pos dst unit going lead next rest trail ih =>
      rw [copyCharacters, if_pos going, if_pos lead, if_pos trail, segments_of_pair icu lead trail]
      rw [List.append_assoc] at ih ⊢
      exact inside_step going (length_le_copyCharacters icu) ih
  | case4 pos dst unit going lead next rest no_trail ih =>
      rw [copyCharacters, if_pos going, if_pos lead, if_neg no_trail,
        segments_of_not_trail icu no_trail]
      exact inside_step going (length_le_copyCharacters icu) ih
  | case5 pos dst unit rest going no_lead ih =>
      rw [copyCharacters.eq_def]
      simp only
      rw [if_pos going, if_neg no_lead, segments_of_not_lead icu no_lead]
      exact inside_step going (length_le_copyCharacters icu) ih
  | case6 pos dst unit rest done =>
      rw [copyCharacters.eq_def]
      simp only
      rw [if_neg done]
      refine iff_of_true inside ?_
      by_cases room : dst.length < capacity
      · have beyond : stop - pos = 0 := by
          have : ¬pos < stop := fun more => done ⟨room, more⟩
          omega
        rw [beyond, List.take_zero]
        exact forReached_nil
      · rw [Nat.sub_eq_zero_of_le (Nat.le_of_not_lt room)]
        exact forReached_of_full _

end Copy

/-- The first loop goes to the character at the start position, or to the end. -/
theorem skipCharacters_spec {capacity startPos pos : Nat} {src : List UInt16}
    (some_room : 0 < capacity) (before : pos ≤ startPos) :
    segments (skipCharacters icu capacity startPos pos src).1 =
        (segments src).drop (startPos - pos) ∧
      ((skipCharacters icu capacity startPos pos src).2 = startPos ∨
        (skipCharacters icu capacity startPos pos src).1 = []) := by
  induction pos, src using skipCharacters.induct icu capacity startPos with
  | case1 pos =>
      rw [skipCharacters]
      exact ⟨List.drop_nil.symm, Or.inr rfl⟩
  | case2 pos unit going lead ih =>
      have turns : startPos - pos = startPos - (pos + 1) + 1 := by omega
      rw [skipCharacters, if_pos going, if_pos lead, turns]
      exact ih (by omega)
  | case3 pos unit going lead next rest trail ih =>
      have turns : startPos - pos = startPos - (pos + 1) + 1 := by omega
      rw [skipCharacters, if_pos going, if_pos lead, if_pos trail,
        segments_of_pair icu lead trail, turns, List.drop_succ_cons]
      exact ih (by omega)
  | case4 pos unit going lead next rest no_trail ih =>
      have turns : startPos - pos = startPos - (pos + 1) + 1 := by omega
      rw [skipCharacters, if_pos going, if_pos lead, if_neg no_trail,
        segments_of_not_trail icu no_trail, turns, List.drop_succ_cons]
      exact ih (by omega)
  | case5 pos unit rest going no_lead ih =>
      have turns : startPos - pos = startPos - (pos + 1) + 1 := by omega
      rw [skipCharacters.eq_def]
      simp only
      rw [if_pos going, if_neg no_lead, segments_of_not_lead icu no_lead, turns,
        List.drop_succ_cons]
      exact ih (by omega)
  | case6 pos unit rest done =>
      have reached : pos = startPos := by omega
      rw [skipCharacters.eq_def]
      simp only
      rw [if_neg done, reached, Nat.sub_self]
      exact ⟨rfl, Or.inl rfl⟩

theorem skipCharacters_no_room (startPos pos : Nat) (src : List UInt16) :
    skipCharacters icu 0 startPos pos src = (src, pos) := by
  cases src with
  | nil => rw [skipCharacters]
  | cons unit rest =>
      rw [skipCharacters.eq_def]
      simp only
      rw [if_neg fun going => absurd going.1 (Nat.lt_irrefl 0)]

theorem copyCharacters_no_room (stop pos : Nat) (src : List UInt16) :
    copyCharacters icu 0 stop pos [] src = [] := by
  cases src with
  | nil => rw [copyCharacters]
  | cons unit rest =>
      rw [copyCharacters.eq_def]
      simp only
      rw [if_neg fun going => absurd going.1 (Nat.lt_irrefl 0)]

/-- The characters that are asked for; the sum of the two numbers is one of 32 bits. -/
def asked (src : List UInt16) (startPos length : UInt32) : List (List UInt16) :=
  ((segments src).drop startPos.toNat).take ((startPos + length).toNat - startPos.toNat)

/-- The substring is whole characters, and keeps within the destination exactly if every character
that it begins fits. -/
theorem utf16Substring_cuts_iff (src : List UInt16) (dstLen : Nat) (startPos length : UInt32) :
    Cuts src (dstLen / 2) startPos.toNat length.toNat
        (utf16Substring icu src dstLen startPos length) ↔
      SegmentsFit (dstLen / 2) (asked src startPos length) := by
  have span_le : (startPos + length).toNat - startPos.toNat ≤ length.toNat := by
    rw [UInt32.toNat_add]
    omega
  have nothing : Cuts src (dstLen / 2) startPos.toNat length.toNat [] :=
    ⟨Nat.zero_le _, 0, Nat.zero_le _, rfl⟩
  by_cases empty : length = 0
  · rw [utf16Substring, if_pos empty, empty, asked, UInt32.add_zero, Nat.sub_self, List.take_zero]
    rw [empty] at nothing
    exact iff_of_true nothing forReached_nil
  · rw [utf16Substring, if_neg empty]
    rcases Nat.eq_zero_or_pos (dstLen / 2) with no_room | some_room
    · rw [no_room] at nothing ⊢
      rw [skipCharacters_no_room]
      simp only
      rw [copyCharacters_no_room]
      exact iff_of_true nothing (forReached_of_full _)
    · obtain ⟨segments_eq, place⟩ := @skipCharacters_spec icu (dstLen / 2) startPos.toNat 0 src
        some_room (Nat.zero_le _)
      simp only
      rcases place with reached | ended
      · have whole := @copyCharacters_whole icu (dstLen / 2) (startPos + length).toNat
          (skipCharacters icu (dstLen / 2) startPos.toNat 0 src).2 []
          (skipCharacters icu (dstLen / 2) startPos.toNat 0 src).1
        have inside_iff := @copyCharacters_inside_iff icu (dstLen / 2) (startPos + length).toNat
          (skipCharacters icu (dstLen / 2) startPos.toNat 0 src).2 []
          (skipCharacters icu (dstLen / 2) startPos.toNat 0 src).1 (Nat.zero_le _)
        rw [segments_eq, reached, Nat.sub_zero] at whole inside_iff
        rw [reached]
        constructor
        · exact fun cuts => inside_iff.mp cuts.inside
        · intro fit
          obtain ⟨count, count_le, stored_eq⟩ := whole
          exact ⟨inside_iff.mpr fit, count, count_le.trans span_le, stored_eq⟩
      · have no_characters : (segments src).drop startPos.toNat = [] := by
          rw [← Nat.sub_zero startPos.toNat, ← segments_eq, ended]
          rfl
        rw [ended, copyCharacters, asked, no_characters, List.take_nil]
        exact iff_of_true nothing forReached_nil

/-! ## There and back again -/

theorem utf16ToUtf32Loop_char {capacity position : Nat} {dst : List UInt32} (c : Char)
    (rest : List UInt16) (room : dst.length < capacity) :
    utf16ToUtf32Loop icu capacity position dst (utf16 c ++ rest) =
      utf16ToUtf32Loop icu capacity (position + (utf16 c).length) (dst ++ utf32 c) rest := by
  rcases utf16_cases c with ⟨unit, code_eq, no_lead, -, value_eq⟩ |
      ⟨lead, trail, code_eq, is_lead, is_trail, value_eq⟩
  · rw [code_eq, List.singleton_append]
    conv_lhs => unfold utf16ToUtf32Loop
    rw [if_pos room, if_neg (mt (icu.isLead_iff _).mp no_lead), utf32_of_value value_eq.symm]
    rfl
  · rw [code_eq]
    conv_lhs => unfold utf16ToUtf32Loop
    simp only [List.cons_append, List.nil_append]
    rw [if_pos room, if_pos ((icu.isLead_iff _).mpr is_lead),
      if_pos ((icu.isTrail_iff _).mpr is_trail), icu.getPairValue_eq _ _ is_lead is_trail,
      utf32_of_value value_eq.symm]
    rfl

theorem utf16ToUtf32Loop_text {capacity position : Nat} {dst : List UInt32} (text : List Char)
    (room : dst.length + text.length ≤ capacity) :
    (utf16ToUtf32Loop icu capacity position dst (encode utf16 text)).err_code = 0 ∧
      (utf16ToUtf32Loop icu capacity position dst (encode utf16 text)).output =
        dst ++ encode utf32 text := by
  induction text generalizing position dst with
  | nil =>
      rw [encode_nil, utf16ToUtf32Loop, finish_output]
      exact ⟨rfl, (List.append_nil _).symm⟩
  | cons c text ih =>
      rw [List.length_cons] at room
      rw [encode_cons, utf16ToUtf32Loop_char icu c _ (by omega), encode_cons, ← List.append_assoc]
      refine ih ?_
      rw [List.length_append, utf32, List.length_singleton]
      omega

theorem utf32ToUtf16Loop_char {capacity position : Nat} {dst : List UInt16} (c : Char)
    (rest : List UInt32) (room : dst.length + (utf16 c).length ≤ capacity) :
    utf32ToUtf16Loop icu capacity position dst (utf32 c ++ rest) =
      utf32ToUtf16Loop icu capacity (position + 1) (dst ++ utf16 c) rest := by
  have value_eq : c.val.toNat = c.toNat := rfl
  have bounds := toNat_bounds c
  rw [utf32, List.singleton_append]
  conv_lhs => unfold utf32ToUtf16Loop
  rw [value_eq]
  rw [utf16] at room ⊢
  by_cases short : c.toNat ≤ 0xFFFF
  · rw [if_pos short, List.length_singleton] at room
    rw [if_pos (by omega), if_pos short, if_pos short]
  · rw [if_neg short, List.length_cons, List.length_singleton] at room
    rw [if_pos (by omega), if_neg short, if_pos (by omega), if_neg short]
    simp only
    rw [if_pos (by rw [List.length_append, List.length_singleton]; omega),
      icu.lead_eq _ (by omega) (by omega), icu.trail_eq _ (by omega) (by omega),
      List.append_assoc]
    rfl

theorem utf32ToUtf16Loop_text {capacity position : Nat} {dst : List UInt16} (text : List Char)
    (room : dst.length + (encode utf16 text).length ≤ capacity) :
    (utf32ToUtf16Loop icu capacity position dst (encode utf32 text)).err_code = 0 ∧
      (utf32ToUtf16Loop icu capacity position dst (encode utf32 text)).output =
        dst ++ encode utf16 text := by
  induction text generalizing position dst with
  | nil =>
      rw [encode_nil, utf32ToUtf16Loop, finish_output]
      exact ⟨rfl, (List.append_nil _).symm⟩
  | cons c text ih =>
      rw [encode_cons, List.length_append] at room
      rw [encode_cons, utf32ToUtf16Loop_char icu c _ (by omega), encode_cons, ← List.append_assoc]
      refine ih ?_
      rw [List.length_append]
      omega

/-- A text goes to UTF-32 and comes back the same. -/
theorem utf16_round_trip (text : List Char) (dstLen backLen : Nat)
    (room : 4 * text.length ≤ dstLen) (back_room : 2 * (encode utf16 text).length ≤ backLen) :
    (utf16ToUtf32 icu (encode utf16 text) dstLen).err_code = 0 ∧
      (utf32ToUtf16 icu (utf16ToUtf32 icu (encode utf16 text) dstLen).output backLen).err_code = 0 ∧
      (utf32ToUtf16 icu (utf16ToUtf32 icu (encode utf16 text) dstLen).output backLen).output =
        encode utf16 text := by
  obtain ⟨no_error, there⟩ := @utf16ToUtf32Loop_text icu (dstLen / 4) 0 [] text
    (by rw [List.length_nil]; omega)
  obtain ⟨no_error_back, back⟩ := @utf32ToUtf16Loop_text icu (backLen / 2) 0 [] text
    (by rw [List.length_nil]; omega)
  rw [utf16ToUtf32, there, utf32ToUtf16]
  exact ⟨no_error, no_error_back, back⟩

/-! ## All four -/

/-- The conversion to UTF-8 always does what it is to do, the other two and the substring for
exactly the sources and destinations named here; and well-formed text comes back from UTF-32. -/
theorem conversions_deliver_iff (icu : Icu) :
    (∀ (src : List UInt16) (dstLen err_position : Nat),
      Converts utf16 utf8 2 src dstLen (utf16ToUtf8 icu src dstLen err_position)) ∧
    (∀ (src : List UInt16) (dstLen : Nat),
      Converts utf16 utf32 2 src (dstLen / 4) (utf16ToUtf32 icu src dstLen) ↔
        TrailsPaired (dstLen / 4) src) ∧
    (∀ (src : List UInt32) (dstLen : Nat),
      Converts utf32 utf16 4 src (dstLen / 2) (utf32ToUtf16 icu src dstLen) ↔
        CodesFit (dstLen / 2) src) ∧
    (∀ (src : List UInt16) (dstLen : Nat) (startPos length : UInt32),
      Cuts src (dstLen / 2) startPos.toNat length.toNat
          (utf16Substring icu src dstLen startPos length) ↔
        SegmentsFit (dstLen / 2) (asked src startPos length)) ∧
    ∀ (text : List Char) (dstLen backLen : Nat), 4 * text.length ≤ dstLen →
      2 * (encode utf16 text).length ≤ backLen →
        (utf16ToUtf32 icu (encode utf16 text) dstLen).err_code = 0 ∧
          (utf32ToUtf16 icu (utf16ToUtf32 icu (encode utf16 text) dstLen).output
            backLen).err_code = 0 ∧
          (utf32ToUtf16 icu (utf16ToUtf32 icu (encode utf16 text) dstLen).output
            backLen).output = encode utf16 text :=
  ⟨utf16ToUtf8_converts icu, utf16ToUtf32_converts_iff icu, utf32ToUtf16_converts_iff icu,
    utf16Substring_cuts_iff icu, fun text dstLen backLen room back_room =>
      utf16_round_trip icu text dstLen backLen room back_room⟩

/-- A surrogate pair is stored in a destination of two bytes. -/
theorem not_conversions_deliver :
    ¬∀ icu : Icu,
      (∀ (src : List UInt16) (dstLen err_position : Nat),
        Converts utf16 utf8 2 src dstLen (utf16ToUtf8 icu src dstLen err_position)) ∧
      (∀ (src : List UInt16) (dstLen : Nat),
        Converts utf16 utf32 2 src (dstLen / 4) (utf16ToUtf32 icu src dstLen)) ∧
      (∀ (src : List UInt32) (dstLen : Nat),
        Converts utf32 utf16 4 src (dstLen / 2) (utf32ToUtf16 icu src dstLen)) ∧
      ∀ (src : List UInt16) (dstLen : Nat) (startPos length : UInt32),
        Cuts src (dstLen / 2) startPos.toNat length.toNat
          (utf16Substring icu src dstLen startPos length) := by
  intro claimed
  have cuts := (claimed default).2.2.2 [0xD83D, 0xDE00] 2 0 1
  have fit := (utf16Substring_cuts_iff default [0xD83D, 0xDE00] 2 0 1).mp cuts
  have pair_fits := fit [] [0xD83D, 0xDE00] [] (by decide) (by decide)
  exact absurd pair_fits (by decide)

end UnicodeUtil
end Firebird
