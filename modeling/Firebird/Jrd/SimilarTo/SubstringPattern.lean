import Firebird.Jrd.SimilarTo.SubstringSplits

/-!
# The pattern that is cut up

The constructor of `SubstringSimilarMatcher` cuts a pattern at its escaped quotes.  It takes the length
of the converted pattern in bytes for one in characters, and goes on in the memory behind it where
canonical characters are wide.
-/

namespace Firebird
namespace SubstringSimilar

/-- There is no escaped quote among these canonical characters, and no escape at their end. -/
def isSegment (escapeChar quote : Nat) : List Nat → Bool
  | [] => true
  | [c] => c ≠ escapeChar
  | c :: d :: rest =>
      if c ≠ escapeChar then isSegment escapeChar quote (d :: rest)
      else if d = quote then false
      else isSegment escapeChar quote rest

section Scan

variable {charSet : CharSet} {escapeChar quote : Nat} {originalPattern : List UInt8}

theorem scanPattern_plain {c : Nat} (plain : c ≠ escapeChar) (rest : List Nat) (p : Nat)
    (segments : Segments) :
    scanPattern charSet escapeChar quote originalPattern (c :: rest) p segments =
      scanPattern charSet escapeChar quote originalPattern rest (p + 1) segments := by
  cases rest with
  | nil => simp only [scanPattern, if_pos plain]
  | cons d rest => simp only [scanPattern, if_pos plain]

theorem scanPattern_escape {d : Nat} (other : d ≠ quote) (rest : List Nat) (p : Nat)
    (segments : Segments) :
    scanPattern charSet escapeChar quote originalPattern (escapeChar :: d :: rest) p segments =
      scanPattern charSet escapeChar quote originalPattern rest (p + 2) segments := by
  rw [scanPattern, if_neg (not_not.mpr rfl), if_neg other]

theorem scanPattern_close {segments : Segments} (room : segments.lengths.length < 2)
    (rest : List Nat) (p : Nat) :
    scanPattern charSet escapeChar quote originalPattern (escapeChar :: quote :: rest) p segments =
      scanPattern charSet escapeChar quote originalPattern rest (p + 2)
        (segments.close charSet originalPattern (p + 1)) := by
  rw [scanPattern, if_neg (not_not.mpr rfl), if_pos rfl, if_neg (not_le.mpr room)]

theorem scanPattern_segment {segment : List Nat} (is_segment : isSegment escapeChar quote segment = true)
    (rest : List Nat) (p : Nat) (segments : Segments) :
    scanPattern charSet escapeChar quote originalPattern (segment ++ rest) p segments =
      scanPattern charSet escapeChar quote originalPattern rest (p + segment.length) segments := by
  induction segment using isSegment.induct escapeChar quote generalizing p with
  | case1 => rfl
  | case2 c =>
      rw [isSegment, decide_eq_true_eq] at is_segment
      exact scanPattern_plain is_segment rest p segments
  | case3 c d tail plain ih =>
      rw [isSegment, if_pos plain] at is_segment
      rw [List.cons_append, scanPattern_plain plain, ih is_segment]
      rw [List.length_cons, List.length_cons, List.length_cons, Nat.add_right_comm, Nat.add_assoc p]
  | case4 c tail escaped =>
      rw [isSegment, if_neg escaped, if_pos rfl] at is_segment
      exact absurd is_segment Bool.false_ne_true
  | case5 c d tail escaped other ih =>
      rw [isSegment, if_neg escaped, if_neg other] at is_segment
      obtain rfl := not_not.mp escaped
      rw [List.cons_append, List.cons_append, scanPattern_escape other, ih is_segment,
        List.length_cons, List.length_cons, Nat.add_assoc p, Nat.add_comm 2]

/-- Behind two escaped quotes only a segment is accepted. -/
theorem scanPattern_last {segments : Segments} (closed : segments.lengths.length = 2)
    (canonical : List Nat) (p : Nat) :
    scanPattern charSet escapeChar quote originalPattern canonical p segments =
      if isSegment escapeChar quote canonical then .ok segments
      else .error .invalid_similar_pattern := by
  induction canonical using isSegment.induct escapeChar quote generalizing p with
  | case1 => rfl
  | case2 c => simp only [scanPattern, isSegment, decide_eq_true_eq]
  | case3 c d tail plain ih => rw [scanPattern_plain plain, ih, isSegment, if_pos plain]
  | case4 c tail escaped =>
      rw [isSegment, if_neg escaped, if_pos rfl, scanPattern, if_neg escaped, if_pos rfl,
        if_pos (Nat.le_of_eq closed.symm)]
      rfl
  | case5 c d tail escaped other ih =>
      obtain rfl := not_not.mp escaped
      rw [scanPattern_escape other, ih, isSegment, if_neg escaped, if_neg other]

end Scan

/-- A pattern of three parts between two escaped quotes. -/
structure Pattern (isChar : List UInt8 → Prop) (canonical : List UInt8 → Nat)
    (escapeChar quote : Nat) where
  R1 : List (List UInt8)
  R2 : List (List UInt8)
  R3 : List (List UInt8)
  escape : List UInt8
  mark : List UInt8
  valid : ∀ c ∈ R1 ++ escape :: mark :: (R2 ++ escape :: mark :: R3), isChar c
  canonical_escape : canonical escape = escapeChar
  canonical_mark : canonical mark = quote
  segment1 : isSegment escapeChar quote (R1.map canonical) = true
  segment2 : isSegment escapeChar quote (R2.map canonical) = true
  segment3 : isSegment escapeChar quote (R3.map canonical) = true

namespace Pattern

variable {isChar : List UInt8 → Prop} {canonical : List UInt8 → Nat} {escapeChar quote : Nat}

/-- The characters of the pattern. -/
def chars (pattern : Pattern isChar canonical escapeChar quote) : List (List UInt8) :=
  pattern.R1 ++ pattern.escape :: pattern.mark ::
    (pattern.R2 ++ pattern.escape :: pattern.mark :: pattern.R3)

/-- The matchers of the three parts, and of the last two together. -/
def matchers (pattern : Pattern isChar canonical escapeChar quote)
    (similarTo : List UInt8 → List UInt8 → Bool) : Matchers where
  r1 := similarTo pattern.R1.flatten
  r2 := similarTo pattern.R2.flatten
  r3 := similarTo pattern.R3.flatten
  r23 := similarTo (pattern.R2.flatten ++ pattern.R3.flatten)

/-- What the loop reads behind the converted pattern: it takes `width` times the characters. -/
def overrun (pattern : Pattern isChar canonical escapeChar quote) (width : Nat)
    (memory : List Nat) : List Nat :=
  memory.take (pattern.chars.length * width - pattern.chars.length)

/-- The variables behind some characters of the pattern. -/
def behind (lengths : List Nat) (newExpr : List UInt8) (done : List (List UInt8)) : Segments :=
  ⟨lengths, newExpr, done.flatten.length, done.length⟩

/-- The end of a segment takes its characters over, and passes the escaped quote. -/
theorem close_eq {charSet : CharSet} (lawful : charSet.Lawful isChar) (lengths : List Nat)
    (newExpr : List UInt8) {done segment tail : List (List UInt8)} {escape mark : List UInt8}
    (valid : ∀ c ∈ done ++ (segment ++ escape :: mark :: tail), isChar c) :
    (behind lengths newExpr done).close charSet (done ++ (segment ++ escape :: mark :: tail)).flatten
        (done.length + segment.length + 1) =
      behind (lengths ++ [segment.flatten.length]) (newExpr ++ segment.flatten)
        (done ++ (segment ++ [escape, mark])) := by
  have rest_valid : ∀ c ∈ segment ++ escape :: mark :: tail, isChar c := fun c member =>
    valid c (List.mem_append_right _ member)
  have tail_valid : ∀ c ∈ escape :: mark :: tail, isChar c := fun c member =>
    rest_valid c (List.mem_append_right _ member)
  have count_eq : done.length + segment.length + 1 - done.length - 1 = segment.length := by omega
  have first : charSet.substring
      ((done ++ (segment ++ escape :: mark :: tail)).flatten.drop done.flatten.length) 0
        segment.length = segment.flatten := by
    rw [List.flatten_append, List.drop_left, lawful.substring_eq _ _ rest_valid, List.take_left]
  have second : charSet.substring
      ((done ++ (segment ++ escape :: mark :: tail)).flatten.drop
        (done.flatten.length + segment.flatten.length)) 0 2 = escape ++ mark := by
    rw [← List.length_append, List.flatten_append, List.flatten_append, ← List.append_assoc,
      List.drop_left, lawful.substring_eq _ 2 tail_valid]
    simp
  simp only [behind, Segments.close, count_eq, first, second]
  simp [Nat.add_assoc]

/-- The characters up to the last segment. -/
def upToLast (pattern : Pattern isChar canonical escapeChar quote) : List (List UInt8) :=
  pattern.R1 ++ [pattern.escape, pattern.mark] ++ (pattern.R2 ++ [pattern.escape, pattern.mark])

theorem upToLast_append (pattern : Pattern isChar canonical escapeChar quote) :
    pattern.upToLast ++ pattern.R3 = pattern.chars := by
  simp [upToLast, chars]

/-- The loop closes the first two segments, and goes through the last one and what is behind it. -/
theorem scanPattern_eq {charSet : CharSet} (lawful : charSet.Lawful isChar)
    (pattern : Pattern isChar canonical escapeChar quote) (more : List Nat) :
    scanPattern charSet escapeChar quote pattern.chars.flatten (pattern.chars.map canonical ++ more) 0
        ⟨[], [], 0, 0⟩ =
      if isSegment escapeChar quote more then
        .ok (behind [pattern.R1.flatten.length, pattern.R2.flatten.length]
          (pattern.R1.flatten ++ pattern.R2.flatten) pattern.upToLast)
      else .error .invalid_similar_pattern := by
  have second_eq : pattern.chars = pattern.R1 ++ [pattern.escape, pattern.mark] ++
      (pattern.R2 ++ pattern.escape :: pattern.mark :: pattern.R3) := by simp [chars]
  have first_valid : ∀ c ∈ [] ++ (pattern.R1 ++ pattern.escape :: pattern.mark ::
      (pattern.R2 ++ pattern.escape :: pattern.mark :: pattern.R3)), isChar c := pattern.valid
  have second_valid := pattern.valid
  rw [← chars, second_eq] at second_valid
  have first := close_eq lawful [] [] first_valid
  have second := close_eq lawful [pattern.R1.flatten.length] pattern.R1.flatten second_valid
  rw [← second_eq] at second
  have canonical_eq : pattern.chars.map canonical ++ more =
      pattern.R1.map canonical ++ escapeChar :: quote :: (pattern.R2.map canonical ++
        escapeChar :: quote :: (pattern.R3.map canonical ++ more)) := by
    simp [chars, pattern.canonical_escape, pattern.canonical_mark]
  have first_place : (behind [] [] []).close charSet pattern.chars.flatten
      (0 + (pattern.R1.map canonical).length + 1) =
      behind [pattern.R1.flatten.length] pattern.R1.flatten
        (pattern.R1 ++ [pattern.escape, pattern.mark]) := by
    rw [List.length_map]
    exact first
  have second_place : (behind [pattern.R1.flatten.length] pattern.R1.flatten
      (pattern.R1 ++ [pattern.escape, pattern.mark])).close charSet pattern.chars.flatten
        (0 + (pattern.R1.map canonical).length + 2 + (pattern.R2.map canonical).length + 1) =
      behind [pattern.R1.flatten.length, pattern.R2.flatten.length]
        (pattern.R1.flatten ++ pattern.R2.flatten) pattern.upToLast := by
    rw [List.length_map, List.length_map, Nat.zero_add]
    rw [List.length_append] at second
    exact second
  have start : (⟨[], [], 0, 0⟩ : Segments) = behind [] [] [] := rfl
  have second_room : (behind [pattern.R1.flatten.length] pattern.R1.flatten
      (pattern.R1 ++ [pattern.escape, pattern.mark])).lengths.length < 2 := Nat.one_lt_two
  rw [canonical_eq, scanPattern_segment pattern.segment1, scanPattern_close (by decide), start,
    first_place, scanPattern_segment pattern.segment2, scanPattern_close second_room,
    second_place, scanPattern_segment pattern.segment3]
  exact scanPattern_last rfl more _

theorem create_eq {charSet : CharSet} (lawful : charSet.Lawful isChar)
    (pattern : Pattern isChar canonical escapeChar quote)
    (similarTo : List UInt8 → List UInt8 → Bool) {width : Nat} (positive : 0 < width)
    (memory : List Nat) :
    create charSet similarTo escapeChar quote pattern.chars.flatten
        (pattern.chars.map canonical ++ memory) (pattern.chars.length * width) =
      if isSegment escapeChar quote (pattern.overrun width memory) then
        .ok (pattern.matchers similarTo)
      else .error .invalid_similar_pattern := by
  have size_le : pattern.chars.length ≤ pattern.chars.length * width :=
    Nat.le_mul_of_pos_right _ positive
  have taken : (pattern.chars.map canonical ++ memory).take (pattern.chars.length * width) =
      pattern.chars.map canonical ++ pattern.overrun width memory := by
    rw [List.take_append, List.take_of_length_le (by rw [List.length_map]; exact size_le),
      List.length_map, overrun]
  rw [create, taken, scanPattern_eq lawful pattern]
  by_cases quiet : isSegment escapeChar quote (pattern.overrun width memory) = true
  · have last_valid : ∀ c ∈ pattern.R3, isChar c := by
      intro c member
      have member : c ∈ pattern.chars := by
        rw [← upToLast_append]
        exact List.mem_append_right _ member
      exact pattern.valid c member
    have last_eq : charSet.substring (pattern.chars.flatten.drop pattern.upToLast.flatten.length) 0
        (pattern.chars.length * width - pattern.upToLast.length) = pattern.R3.flatten := by
      have enough : pattern.R3.length ≤
          pattern.chars.length * width - pattern.upToLast.length := by
        rw [← upToLast_append, List.length_append] at size_le ⊢
        omega
      rw [← upToLast_append pattern, List.flatten_append, List.drop_left,
        lawful.substring_eq _ _ last_valid, List.take_of_length_le]
      rwa [← upToLast_append] at enough
    rw [if_pos quiet, if_pos quiet]
    simp only [bind, Except.bind, behind, last_eq]
    refine congrArg Except.ok ?_
    rw [matchers, ← List.length_append, List.drop_left, List.append_assoc, List.take_left,
      List.drop_left, List.take_left, List.take_length, ← List.length_append, List.take_length]
  · rw [if_neg quiet, if_neg quiet]
    rfl

end Pattern

/-- The matcher of a pattern finds the best split of a string. -/
def FindsBest {isChar : List UInt8 → Prop} {canonical : List UInt8 → Nat} {escapeChar quote : Nat}
    (charSet : CharSet) (pattern : Pattern isChar canonical escapeChar quote)
    (similarTo : List UInt8 → List UInt8 → Bool) (width : Nat) (memory : List Nat)
    (string : List (List UInt8)) : Prop :=
  ∃ matchers,
    create charSet similarTo escapeChar quote pattern.chars.flatten
        (pattern.chars.map canonical ++ memory) (pattern.chars.length * width) = .ok matchers ∧
      ∃ found, result charSet matchers string.flatten = some (found.map (range string)) ∧
        Best (pattern.matchers similarTo) string found

/-- The best split is found if and only if nothing behind the converted pattern looks like an escaped
quote, and the whole of a string that is not empty is not the only first part. -/
theorem findsBest_iff {isChar : List UInt8 → Prop} {canonical : List UInt8 → Nat}
    {escapeChar quote : Nat} {charSet : CharSet} (lawful : charSet.Lawful isChar)
    (pattern : Pattern isChar canonical escapeChar quote)
    (similarTo : List UInt8 → List UInt8 → Bool) {width : Nat} (positive : 0 < width)
    (memory : List Nat) {string : List (List UInt8)} (valid : ∀ c ∈ string, isChar c) :
    FindsBest charSet pattern similarTo width memory string ↔
      isSegment escapeChar quote (pattern.overrun width memory) = true ∧
        ¬OnlyWhole (pattern.matchers similarTo) string := by
  have created := pattern.create_eq lawful similarTo positive memory
  have found_iff := @result_iff charSet isChar (pattern.matchers similarTo) string lawful valid
  rw [FindsBest, created]
  by_cases quiet : isSegment escapeChar quote (pattern.overrun width memory) = true
  · rw [if_pos quiet, ← found_iff]
    constructor
    · rintro ⟨matchers, matchers_eq, finds⟩
      obtain rfl := Except.ok.inj matchers_eq
      exact ⟨quiet, finds⟩
    · rintro ⟨-, finds⟩
      exact ⟨_, rfl, finds⟩
  · rw [if_neg quiet]
    constructor
    · rintro ⟨matchers, matchers_eq, -⟩
      exact absurd matchers_eq nofun
    · rintro ⟨segment, -⟩
      exact absurd segment quiet

/-- A character set of one byte a character. -/
def singleByte : CharSet where
  length := List.length
  substring text start count := (text.drop start).take count

theorem flatten_singleton {chars : List (List UInt8)} (valid : ∀ c ∈ chars, c.length = 1)
    (count : Nat) : (chars.take count).flatten = chars.flatten.take count := by
  induction chars generalizing count with
  | nil => rw [List.take_nil, List.flatten_nil, List.take_nil]
  | cons c chars ih =>
      obtain ⟨byte, rfl⟩ := List.length_eq_one_iff.mp (valid c List.mem_cons_self)
      cases count with
      | zero => rfl
      | succ count =>
          rw [List.take_succ_cons, List.flatten_cons, List.flatten_cons,
            ih (fun d member => valid d (List.mem_cons_of_mem _ member))]
          rfl

theorem singleByte_lawful : singleByte.Lawful (·.length = 1) where
  nonempty c single := by
    rintro rfl
    exact absurd single (by decide)
  length_eq chars valid := by
    have ones : chars.map List.length = List.replicate chars.length 1 :=
      List.map_eq_replicate_iff.mpr valid
    change chars.flatten.length = chars.length
    rw [List.length_flatten, ones]
    simp
  substring_eq chars count valid := (flatten_singleton valid count).symm

/-- The pattern `a#"#"` with the escape `#`. -/
def wholePattern : Pattern (·.length = 1) (fun c => (c.headD 0).toNat) 35 34 where
  R1 := [[97]]
  R2 := []
  R3 := []
  escape := [35]
  mark := [34]
  valid := by decide
  canonical_escape := rfl
  canonical_mark := rfl
  segment1 := by decide
  segment2 := rfl
  segment3 := rfl

/-- The string `ab` has no split, and none is found. -/
theorem findsBest_iff_literal :
    FindsBest singleByte wholePattern (fun pattern text => pattern = text) 1 [] [[97], [98]] := by
  refine (findsBest_iff singleByte_lawful wholePattern _ Nat.one_pos [] (by decide)).mpr
    ⟨by decide, ?_⟩
  rintro ⟨-, ⟨whole, -⟩, -⟩
  exact absurd whole (by decide)

/-- The whole of the string `a` is not tried as a first part. -/
theorem not_findsBest_whole :
    ¬FindsBest singleByte wholePattern (fun pattern text => pattern = text) 1 [] [[97]] := by
  rintro ⟨matchers, created, found, result_eq, best⟩
  have created_eq := wholePattern.create_eq singleByte_lawful (fun pattern text => pattern = text)
    Nat.one_pos []
  have quiet : isSegment 35 34 (wholePattern.overrun 1 []) = true := by decide
  rw [if_pos quiet] at created_eq
  obtain rfl := Except.ok.inj (created.symm.trans created_eq)
  have nothing : result singleByte (wholePattern.matchers fun pattern text => pattern = text)
      [[97]].flatten = some none := by decide
  cases found with
  | none => exact best 1 (Nat.le_refl 1) 0 (Nat.le_refl 0) ⟨by decide, by decide, by decide, by decide⟩
  | some split => exact absurd (result_eq.symm.trans nothing) nofun

end SubstringSimilar
end Firebird
