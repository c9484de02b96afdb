import Firebird.Jrd.SimilarTo.Substring

/-!
# The split that is found

The loops of `SubstringSimilarMatcher` try the splits of a string in order, except for the one whose
first part is the whole of a string that is not empty.
-/

namespace Firebird
namespace SubstringSimilar

/-- What a character set does with well-formed characters. -/
structure CharSet.Lawful (charSet : CharSet) (isChar : List UInt8 → Prop) : Prop where
  nonempty : ∀ c, isChar c → c ≠ []
  length_eq : ∀ chars : List (List UInt8), (∀ c ∈ chars, isChar c) →
    charSet.length chars.flatten = chars.length
  substring_eq : ∀ (chars : List (List UInt8)) (count : Nat), (∀ c ∈ chars, isChar c) →
    charSet.substring chars.flatten 0 count = (chars.take count).flatten

/-- The greatest number up to a bound that passes a test. -/
def Greatest (test : Nat → Prop) (most : Nat) : Option Nat → Prop
  | none => ∀ count ≤ most, ¬test count
  | some found => found ≤ most ∧ test found ∧ ∀ count ≤ most, found < count → ¬test count

section Splits

variable {charSet : CharSet} {isChar : List UInt8 → Prop} (matchers : Matchers)
  (chars : List (List UInt8))

/-- The bytes of the first characters. -/
def front (count : Nat) : List UInt8 := (chars.take count).flatten

/-- The bytes of the characters behind the first ones. -/
def back (count : Nat) : List UInt8 := (chars.drop count).flatten

/-- The second part of this length fits together with the rest. -/
def Fits (second : Nat) : Prop :=
  matchers.r2 (front chars second) = true ∧ matchers.r3 (back chars second) = true

/-- The string splits into a first part and a second part of the given numbers of characters, and the
rest. -/
def Splits (first second : Nat) : Prop :=
  matchers.r1 (front chars first) = true ∧ matchers.r23 (back chars first) = true ∧
    Fits matchers (chars.drop first) second

/-- There is no split with the first part. -/
def Unsplit (first : Nat) : Prop :=
  ∀ second ≤ chars.length - first, ¬Splits matchers chars first second

/-- A split with the shortest first part and then the longest second one, or that there is none. -/
def Best : Option (Nat × Nat) → Prop
  | none => ∀ first ≤ chars.length, Unsplit matchers chars first
  | some (first, second) =>
      first ≤ chars.length ∧ (∀ shorter < first, Unsplit matchers chars shorter) ∧
        Greatest (Splits matchers chars first) (chars.length - first) (some second)

/-- The start and the length of the second part of a split, in bytes. -/
def range (split : Nat × Nat) : Nat × Nat :=
  ((front chars split.1).length, (front (chars.drop split.1) split.2).length)

/-- The variables of the loop that shrinks the second part, at a length. -/
structure Shrunk (count : Nat) (charLen23 : Int) (temp : List UInt8) : Prop where
  count_le : count ≤ chars.length
  counted : charLen23 = -1 ∧ count = chars.length ∨ charLen23 = count
  copied : temp.take (front chars count).length = front chars count

variable {chars}

theorem front_append_back (count : Nat) : front chars count ++ back chars count = chars.flatten := by
  rw [front, back, ← List.flatten_append, List.take_append_drop]

theorem take_front (count : Nat) : chars.flatten.take (front chars count).length = front chars count := by
  rw [← front_append_back count, List.take_left]

theorem drop_front (count : Nat) : chars.flatten.drop (front chars count).length = back chars count := by
  rw [← front_append_back count, List.drop_left]

/-- Every character has a byte. -/
theorem length_le_flatten (lawful : charSet.Lawful isChar) (valid : ∀ c ∈ chars, isChar c) :
    chars.length ≤ chars.flatten.length := by
  induction chars with
  | nil => exact Nat.zero_le _
  | cons c chars ih =>
      have rest := ih fun d member => valid d (List.mem_cons_of_mem _ member)
      have head := List.length_pos_iff.mpr (lawful.nonempty c (valid c List.mem_cons_self))
      rw [List.length_cons, List.flatten_cons, List.length_append]
      omega

variable {matchers}

/-- One round of the loop that shrinks the second part. -/
theorem shrinkLoop_succ (lawful : charSet.Lawful isChar) (valid : ∀ c ∈ chars, isChar c)
    (lead : List UInt8) {count : Nat} {charLen23 : Int} {temp : List UInt8}
    (shrunk : Shrunk chars count charLen23 temp) (rounds : Nat) :
    let loop := shrinkLoop charSet matchers (lead ++ chars.flatten) lead.length
    let p3 := fun count => lead.length + (front chars count).length
    (Fits matchers chars count →
      loop (rounds + 1) (p3 count) charLen23 temp = some (some (front chars count).length)) ∧
    (¬Fits matchers chars count → count = 0 →
      loop (rounds + 1) (p3 count) charLen23 temp = some none) ∧
    (¬Fits matchers chars count → ∀ less, count = less + 1 → ∃ temp',
      Shrunk chars less less temp' ∧
        loop (rounds + 1) (p3 count) charLen23 temp = loop rounds (p3 less) less temp') := by
  obtain ⟨count_le, counted, copied⟩ := shrunk
  have drop_lead : (lead ++ chars.flatten).drop lead.length = chars.flatten := List.drop_left
  have drop_p3 : (lead ++ chars.flatten).drop (lead.length + (front chars count).length) =
      back chars count := by
    rw [← List.drop_drop, drop_lead, drop_front]
  have counted_eq : (if charLen23 = -1 then (charSet.length (front chars count) : Int)
      else charLen23) = count := by
    have taken : ∀ c ∈ chars.take count, isChar c := fun c member =>
      valid c (List.mem_of_mem_take member)
    rw [front, lawful.length_eq _ taken, List.length_take, min_eq_left count_le]
    rcases counted with ⟨rfl, -⟩ | rfl
    · rfl
    · rw [if_neg (by omega)]
  simp only [shrinkLoop, Nat.add_sub_cancel_left, copied, drop_p3, drop_lead, take_front, counted_eq]
  refine ⟨fun fits => ?_, fun misfit zero => ?_, ?_⟩
  · rw [if_pos (by simpa [Fits] using fits)]
  · rw [if_neg (by simpa [Fits] using misfit), if_pos (by rw [zero]; rfl)]
  · rintro misfit less rfl
    have shorter : charSet.substring chars.flatten 0 (((less + 1 : Nat) : Int) - 1).toNat =
        front chars less := by
      have count_eq : (((less + 1 : Nat) : Int) - 1).toNat = less := by omega
      rw [count_eq, lawful.substring_eq chars less valid, front]
    have less_eq : ((less + 1 : Nat) : Int) - 1 = less := by omega
    rw [if_neg (by simpa [Fits] using misfit), if_neg (by omega), shorter, less_eq]
    exact ⟨_, ⟨Nat.le_of_succ_le count_le, Or.inr rfl, List.take_left⟩, rfl⟩

/-- The loop that shrinks the second part finds the longest one that fits together with the rest. -/
theorem shrinkLoop_spec (lawful : charSet.Lawful isChar) (valid : ∀ c ∈ chars, isChar c)
    (lead : List UInt8) {count rounds : Nat} {charLen23 : Int} {temp : List UInt8}
    (enough : count < rounds) (shrunk : Shrunk chars count charLen23 temp) :
    ∃ found : Option Nat,
      shrinkLoop charSet matchers (lead ++ chars.flatten) lead.length rounds
          (lead.length + (front chars count).length) charLen23 temp =
        some (found.map fun second => (front chars second).length) ∧
      Greatest (Fits matchers chars) count found := by
  induction count generalizing rounds charLen23 temp with
  | zero =>
      obtain ⟨rounds, rfl⟩ := Nat.exists_eq_succ_of_ne_zero (Nat.ne_of_gt enough)
      obtain ⟨finds, ends, -⟩ := shrinkLoop_succ lawful valid lead shrunk rounds
      by_cases fits : Fits matchers chars 0
      · exact ⟨some 0, finds fits, Nat.le_refl 0, fits, fun _ small large => by omega⟩
      · refine ⟨none, ends fits rfl, fun count small => ?_⟩
        rwa [Nat.le_zero.mp small]
  | succ count ih =>
      obtain ⟨rounds, rfl⟩ := Nat.exists_eq_succ_of_ne_zero (Nat.ne_zero_of_lt enough)
      obtain ⟨finds, -, goes_on⟩ := shrinkLoop_succ lawful valid lead shrunk rounds
      by_cases fits : Fits matchers chars (count + 1)
      · exact ⟨some (count + 1), finds fits, Nat.le_refl _, fits, fun _ small large => by omega⟩
      · obtain ⟨temp', shrunk', loop_eq⟩ := goes_on fits count rfl
        obtain ⟨found, found_eq, greatest⟩ := ih (Nat.lt_of_succ_lt_succ enough) shrunk'
        refine ⟨found, loop_eq.trans found_eq, ?_⟩
        cases found with
        | none =>
            intro other small
            rcases Nat.le_succ_iff.mp small with below | rfl
            · exact greatest other below
            · exact fits
        | some found =>
            obtain ⟨found_le, found_fits, longest⟩ := greatest
            refine ⟨Nat.le_succ_of_le found_le, found_fits, fun other small large => ?_⟩
            rcases Nat.le_succ_iff.mp small with below | rfl
            · exact longest other below large
            · exact fits

theorem drop_valid (valid : ∀ c ∈ chars, isChar c) (first : Nat) :
    ∀ c ∈ chars.drop first, isChar c := fun c member => valid c (List.mem_of_mem_drop member)

/-- What one round of the outer loop finds. -/
theorem round_spec (lawful : charSet.Lawful isChar) (valid : ∀ c ∈ chars, isChar c) (first : Nat) :
    ∃ found : Option Nat,
      (if matchers.r1 (front chars first) && matchers.r23 (back chars first) then
          shrinkLoop charSet matchers chars.flatten (front chars first).length
            (chars.flatten.length + 1) chars.flatten.length (-1) (back chars first)
        else some none) =
        some (found.map fun second => (front (chars.drop first) second).length) ∧
      Greatest (Splits matchers chars first) (chars.length - first) found := by
  by_cases matched : (matchers.r1 (front chars first) && matchers.r23 (back chars first)) = true
  · have both : matchers.r1 (front chars first) = true ∧ matchers.r23 (back chars first) = true := by
      simpa using matched
    have all : front (chars.drop first) (chars.drop first).length = back chars first := by
      rw [front, List.take_length, back]
    have start : Shrunk (chars.drop first) (chars.drop first).length (-1) (back chars first) := by
      refine ⟨Nat.le_refl _, Or.inl ⟨rfl, rfl⟩, ?_⟩
      rw [all, List.take_length]
    have total := length_le_flatten lawful valid
    have enough : (chars.drop first).length < chars.flatten.length + 1 := by
      rw [List.length_drop]
      omega
    obtain ⟨found, found_eq, greatest⟩ := shrinkLoop_spec lawful (drop_valid valid first)
      (front chars first) enough start
    have whole : front chars first ++ (chars.drop first).flatten = chars.flatten :=
      front_append_back first
    have whole_length : (front chars first).length + (back chars first).length =
        chars.flatten.length := by
      rw [← front_append_back first, List.length_append]
    rw [whole, all, whole_length] at found_eq
    refine ⟨found, (if_pos matched).trans found_eq, ?_⟩
    rw [List.length_drop] at greatest
    cases found with
    | none => exact fun second small splits => greatest second small splits.2.2
    | some found =>
        obtain ⟨found_le, fits, longest⟩ := greatest
        exact ⟨found_le, ⟨both.1, both.2, fits⟩,
          fun second small large splits => longest second small large splits.2.2⟩
  · refine ⟨none, if_neg matched, fun second _ splits => matched ?_⟩
    rw [splits.1, splits.2.1]
    rfl

/-- The cursor advances by one character, and is behind the last one at the end only. -/
theorem advance_eq (lawful : charSet.Lawful isChar) (valid : ∀ c ∈ chars, isChar c) (first : Nat) :
    (front chars first).length + (charSet.substring (back chars first) 0 1).length =
      (front chars (first + 1)).length ∧
    ((front chars (first + 1)).length < chars.flatten.length ↔ first + 1 < chars.length) := by
  have one : charSet.substring (back chars first) 0 1 = ((chars.drop first).take 1).flatten :=
    lawful.substring_eq _ 1 (drop_valid valid first)
  constructor
  · rw [one, ← List.length_append, front, ← List.flatten_append, ← List.take_add, front]
  · have total := congrArg List.length (@front_append_back chars (first + 1))
    have left := length_le_flatten lawful (drop_valid valid (first + 1))
    rw [List.length_append, back] at total
    rw [List.length_drop] at left
    constructor
    · intro before
      by_contra beyond
      rw [List.drop_eq_nil_of_le (not_lt.mp beyond), List.flatten_nil, List.length_nil] at total
      omega
    · intro before
      omega

/-- The outer loop from a first part on finds the best split, if there is one with a first part that
leaves a rest. -/
theorem startLoop_spec (lawful : charSet.Lawful isChar) (valid : ∀ c ∈ chars, isChar c)
    {first rounds : Nat} (enough : chars.length - first < rounds)
    (inside : first < chars.length ∨ first = 0)
    (before : ∀ shorter < first, Unsplit matchers chars shorter) :
    ∃ found : Option (Nat × Nat),
      startLoop charSet matchers chars.flatten rounds (front chars first).length =
        some (found.map (range chars)) ∧
      (∀ split ∈ found, (split.1 < chars.length ∨ chars = []) ∧ Best matchers chars (some split)) ∧
      (found = none → ∀ other, other < chars.length ∨ chars = [] ∧ other = 0 →
        Unsplit matchers chars other) := by
  induction rounds generalizing first with
  | zero => exact absurd enough (Nat.not_lt_zero _)
  | succ rounds ih =>
      have first_le : first ≤ chars.length := by omega
      obtain ⟨second, round_eq, greatest⟩ := @round_spec charSet isChar matchers chars lawful valid first
      have advance := advance_eq lawful valid first
      rw [startLoop]
      simp only [take_front, drop_front, round_eq, advance.1, advance.2]
      cases second with
      | some second =>
          refine ⟨some (first, second), rfl, ?_, nofun⟩
          rintro _ ⟨⟩
          refine ⟨?_, first_le, before, greatest⟩
          rcases inside with inside | rfl
          · exact Or.inl inside
          · exact (Nat.eq_zero_or_pos chars.length).symm.imp_right List.length_eq_zero_iff.mp
      | none =>
          have before_next : ∀ shorter < first + 1, Unsplit matchers chars shorter := by
            intro shorter less
            rcases Nat.lt_succ_iff_lt_or_eq.mp less with earlier | rfl
            · exact before shorter earlier
            · exact greatest
          by_cases further : first + 1 < chars.length
          · obtain ⟨found, found_eq, best, unsplit⟩ := ih (by omega) (Or.inl further) before_next
            exact ⟨found, (if_pos further).trans found_eq, best, unsplit⟩
          · refine ⟨none, if_neg further, nofun, fun _ other inside => ?_⟩
            rcases inside with inside | ⟨rfl, rfl⟩
            · exact before_next other (by omega)
            · exact before_next 0 (Nat.succ_pos _)

/-- The only split has the whole string as its first part, and the string is not empty. -/
def OnlyWhole (matchers : Matchers) (chars : List (List UInt8)) : Prop :=
  chars ≠ [] ∧ Splits matchers chars chars.length 0 ∧
    ∀ first < chars.length, Unsplit matchers chars first

/-- The best split is found, unless only the whole string is a first part. -/
theorem result_iff (lawful : charSet.Lawful isChar) (valid : ∀ c ∈ chars, isChar c) :
    (∃ found, result charSet matchers chars.flatten = some (found.map (range chars)) ∧
      Best matchers chars found) ↔ ¬OnlyWhole matchers chars := by
  have total := length_le_flatten lawful valid
  have start : 0 < chars.length ∨ (0 : Nat) = 0 := Or.inr rfl
  obtain ⟨found, found_eq, best, unsplit⟩ := @startLoop_spec charSet isChar matchers chars lawful
    valid 0 _ (show chars.length - 0 < chars.flatten.length + 1 by omega) start nofun
  have front_zero : (front chars 0).length = 0 := rfl
  rw [front_zero] at found_eq
  rw [result, found_eq]
  constructor
  · rintro ⟨other, other_eq, other_best⟩ ⟨nonempty, splits, unsplit_before⟩
    cases found with
    | some split =>
        obtain ⟨inside, -, -, greatest⟩ := best split rfl
        have before : split.1 < chars.length := inside.resolve_right nonempty
        exact unsplit_before split.1 before split.2 greatest.1 greatest.2.1
    | none =>
        cases other with
        | none => exact other_best chars.length (Nat.le_refl _) 0 (Nat.zero_le _) splits
        | some other => exact absurd (Option.some.inj other_eq) nofun
  · intro not_only
    refine ⟨found, rfl, ?_⟩
    cases found with
    | some split => exact (best split rfl).2
    | none =>
        have unsplit := unsplit rfl
        intro first first_le
        rcases Nat.lt_or_ge first chars.length with before | beyond
        · exact unsplit first (Or.inl before)
        · obtain rfl : first = chars.length := Nat.le_antisymm first_le beyond
          by_cases empty : chars = []
          · exact unsplit _ (Or.inr ⟨empty, by rw [empty]; rfl⟩)
          · intro second second_le splits
            obtain rfl : second = 0 := by omega
            exact not_only ⟨empty, splits, fun first before => unsplit first (Or.inl before)⟩

end Splits

end SubstringSimilar
end Firebird
