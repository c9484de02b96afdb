import Mathlib.Data.List.Infix

/-!
# Prefixes of a pattern at the end of a text

A text that is searched for a pattern is described by the prefixes of the pattern that it ends with.
All shorter ones are decided by a longer one, and the next element decides which ones go on.
-/

namespace Firebird
namespace Borders

variable {α : Type*}

/-- The text ends with the first elements of the pattern. -/
def EndsWith (pattern text : List α) (count : Nat) : Prop :=
  count ≤ pattern.length ∧ pattern.take count <:+ text

variable {pattern text : List α} {count longer : Nat}

theorem endsWith_zero (pattern text : List α) : EndsWith pattern text 0 :=
  ⟨Nat.zero_le _, List.nil_suffix⟩

theorem EndsWith.le_length (ends : EndsWith pattern text count) : count ≤ text.length := by
  have bound := ends.2.length_le
  rwa [List.length_take, Nat.min_eq_left ends.1] at bound

/-- What a longer prefix ends with, the text ends with. -/
theorem EndsWith.iff_take (ends : EndsWith pattern text longer) (shorter : count ≤ longer) :
    EndsWith pattern text count ↔ EndsWith pattern (pattern.take longer) count := by
  refine ⟨fun other => ⟨other.1, ?_⟩, fun other => ⟨other.1, other.2.trans ends.2⟩⟩
  refine List.suffix_of_suffix_length_le other.2 ends.2 ?_
  rw [List.length_take, List.length_take]
  omega

/-- One more element of the text. -/
theorem endsWith_append_singleton {item : α} :
    EndsWith pattern (text ++ [item]) (count + 1) ↔
      EndsWith pattern text count ∧ pattern[count]? = some item := by
  constructor
  · rintro ⟨bound, suffix⟩
    have inside : count < pattern.length := bound
    rw [← List.take_concat_get' pattern count inside, List.suffix_concat_iff] at suffix
    rcases suffix with empty | ⟨front, same, suffix⟩
    · exact absurd empty (List.append_ne_nil_of_right_ne_nil _ (List.cons_ne_nil _ _))
    · obtain ⟨rfl, last⟩ := List.append_inj' same rfl
      rw [List.getElem?_eq_getElem inside]
      exact ⟨⟨inside.le, suffix⟩, congrArg some (List.singleton_inj.mp last)⟩
  · rintro ⟨⟨bound, suffix⟩, item_eq⟩
    obtain ⟨inside, item_eq⟩ := List.getElem?_eq_some_iff.mp item_eq
    refine ⟨inside, ?_⟩
    rw [← List.take_concat_get' pattern count inside, item_eq]
    exact List.suffix_concat_iff.mpr (.inr ⟨_, rfl, suffix⟩)

/-- The whole pattern at the end. -/
theorem endsWith_length : EndsWith pattern text pattern.length ↔ pattern <:+ text := by
  rw [EndsWith, List.take_length]
  exact and_iff_right (Nat.le_refl _)

/-- The greatest number below a limit with a property, or -1 if there is none. -/
structure Greatest (property : Nat → Prop) (limit : Nat) (found : Int) : Prop where
  exists_or_none : found = -1 ∨ ∃ number : Nat, found = number ∧ number < limit ∧ property number
  le_found : ∀ other < limit, property other → (other : Int) ≤ found

theorem Greatest.neg_one_le {property : Nat → Prop} {limit : Nat} {found : Int}
    (greatest : Greatest property limit found) : -1 ≤ found := by
  rcases greatest.exists_or_none with rfl | ⟨number, rfl, -⟩
  · exact Int.le_refl _
  · omega

/-- The prefixes that go on with the next element. -/
theorem Greatest.next {limit : Nat} {found : Int} {item : α}
    (greatest : Greatest (fun count => EndsWith pattern text count ∧ pattern[count]? = some item) limit
      found) : Greatest (EndsWith pattern (text ++ [item])) (limit + 1) (found + 1) := by
  constructor
  · right
    rcases greatest.exists_or_none with rfl | ⟨number, rfl, below, goes_on⟩
    · exact ⟨0, rfl, Nat.succ_pos _, endsWith_zero _ _⟩
    · exact ⟨number + 1, rfl, Nat.succ_lt_succ below, endsWith_append_singleton.mpr goes_on⟩
  · intro other below ends
    have bound := greatest.neg_one_le
    cases other with
    | zero => omega
    | succ other =>
        have least := greatest.le_found other (Nat.lt_of_succ_lt_succ below)
          (endsWith_append_singleton.mp ends)
        omega

/-- Where a search goes on when an element does not fit: every prefix that is skipped has the same
next element. -/
def Failure (pattern : List α) (position : Nat) (next : Int) : Prop :=
  (next = -1 ∨ ∃ number : Nat, next = number ∧ number < position ∧
    EndsWith pattern (pattern.take position) number) ∧
  ∀ other < position, next < (other : Int) → EndsWith pattern (pattern.take position) other →
    pattern[other]? = pattern[position]?

theorem failure_zero (pattern : List α) : Failure pattern 0 (-1) :=
  ⟨.inl rfl, fun _ below => absurd below (Nat.not_lt_zero _)⟩

/-- The failure at a position from the longest border in front of it. -/
theorem Failure.of_greatest [DecidableEq α] {position number : Nat} {next : Int}
    (greatest : Greatest (EndsWith pattern (pattern.take position)) position number)
    (failure : Failure pattern number next) :
    Failure pattern position (if pattern[position]? = pattern[number]? then next else number) := by
  have bounds : number < position ∧ EndsWith pattern (pattern.take position) number := by
    rcases greatest.exists_or_none with none | ⟨other, same, below, ends⟩
    · omega
    · obtain rfl := Int.ofNat_inj.mp same
      exact ⟨below, ends⟩
  split
  · rename_i same
    constructor
    · rcases failure.1 with none | ⟨other, next_eq, below, ends⟩
      · exact .inl none
      · exact .inr ⟨other, next_eq, below.trans bounds.1, (bounds.2.iff_take below.le).mpr ends⟩
    · intro other below skipped ends
      have least := Int.ofNat_le.mp (greatest.le_found other below ends)
      rcases Nat.lt_or_eq_of_le least with shorter | rfl
      · rw [same]
        exact failure.2 other shorter skipped ((bounds.2.iff_take shorter.le).mp ends)
      · exact same.symm
  · refine ⟨.inr ⟨number, rfl, bounds⟩, fun other below skipped ends => ?_⟩
    exact absurd (greatest.le_found other below ends) (by omega)

/-- One step of a search: where the next element does not fit, the failure is tried. -/
theorem Greatest.fail {limit number : Nat} {next : Int} {item : Option α}
    (ends : EndsWith pattern text number) (below : number < limit)
    (tried : ∀ other < limit, EndsWith pattern text other → (number : Int) < other →
      pattern[other]? ≠ item)
    (unfit : pattern[number]? ≠ item) (failure : Failure pattern number next) :
    (next = -1 ∨ ∃ other : Nat, next = other ∧ other < number ∧ EndsWith pattern text other) ∧
      ∀ other < limit, EndsWith pattern text other → next < (other : Int) → pattern[other]? ≠ item := by
  constructor
  · rcases failure.1 with none | ⟨other, next_eq, shorter, border⟩
    · exact .inl none
    · exact .inr ⟨other, next_eq, shorter, (ends.iff_take shorter.le).mpr border⟩
  · intro other inside other_ends skipped
    rcases Nat.lt_trichotomy other number with shorter | rfl | longer
    · rw [failure.2 other shorter skipped ((ends.iff_take shorter.le).mp other_ends)]
      exact unfit
    · exact unfit
    · exact tried other inside other_ends (Int.ofNat_lt.mpr longer)

end Borders
end Firebird
