import Mathlib.Algebra.Order.Group.Nat
import Mathlib.Data.List.Lex
import Mathlib.Data.List.Infix
import Mathlib.Tactic.Ring
import Mathlib.Tactic.Linarith

/-!
# Digits and numbers

The number that a list of digits denotes, most significant digit first.  Lists of one length compare
as their numbers, and so do lists without zeros at the end once they are filled up to one length.
-/

namespace Firebird
namespace Positional

variable {base : Nat}

/-- The number with the given digits. -/
def number (base : Nat) (digits : List Nat) : Nat :=
  digits.foldl (fun value digit => value * base + digit) 0

theorem foldl_number (start : Nat) (digits : List Nat) :
    digits.foldl (fun value digit => value * base + digit) start =
      start * base ^ digits.length + number base digits := by
  induction digits generalizing start with
  | nil => simp [number]
  | cons digit rest ih =>
      rw [number, List.foldl_cons, List.foldl_cons, ih, ih (0 * base + digit), List.length_cons]
      ring

@[simp]
theorem number_nil : number base [] = 0 := rfl

theorem number_cons (digit : Nat) (rest : List Nat) :
    number base (digit :: rest) = digit * base ^ rest.length + number base rest := by
  rw [number, List.foldl_cons, foldl_number, Nat.zero_mul, Nat.zero_add]

theorem number_append (front back : List Nat) :
    number base (front ++ back) = number base front * base ^ back.length + number base back := by
  rw [number, List.foldl_append, foldl_number]
  rfl

theorem number_concat (front : List Nat) (digit : Nat) :
    number base (front ++ [digit]) = number base front * base + digit := by
  rw [number_append, number_cons, List.length_singleton, List.length_nil, pow_one, pow_zero,
    Nat.mul_one, number_nil, Nat.add_zero]

@[simp]
theorem number_replicate_zero (count : Nat) : number base (List.replicate count 0) = 0 := by
  induction count with
  | zero => rfl
  | succ count ih => rw [List.replicate_succ, number_cons, ih, Nat.zero_mul]

theorem number_append_zeros (front : List Nat) (count : Nat) :
    number base (front ++ List.replicate count 0) = number base front * base ^ count := by
  rw [number_append, number_replicate_zero, List.length_replicate, Nat.add_zero]

theorem number_zeros_append (count : Nat) (back : List Nat) :
    number base (List.replicate count 0 ++ back) = number base back := by
  rw [number_append, number_replicate_zero, Nat.zero_mul, Nat.zero_add]

/-- All digits are digits of the base. -/
def Digits (base : Nat) (digits : List Nat) : Prop := ∀ digit ∈ digits, digit < base

theorem Digits.of_append_left {front back : List Nat} (digits : Digits base (front ++ back)) :
    Digits base front := fun _ member => digits _ (List.mem_append_left _ member)

theorem Digits.append_zeros (positive : 0 < base) {front : List Nat} (digits : Digits base front)
    (count : Nat) : Digits base (front ++ List.replicate count 0) := by
  intro digit member
  rcases List.mem_append.mp member with inside | zero
  · exact digits digit inside
  · rw [List.eq_of_mem_replicate zero]
    exact positive

theorem number_lt {digits : List Nat} (good : Digits base digits) :
    number base digits < base ^ digits.length := by
  induction digits with
  | nil => simp
  | cons digit rest ih =>
      have head_lt : digit + 1 ≤ base := good digit List.mem_cons_self
      have rest_lt := ih fun other member => good other (List.mem_cons_of_mem _ member)
      have head_mul := Nat.mul_le_mul_right (base ^ rest.length) head_lt
      rw [number_cons, List.length_cons, Nat.pow_succ']
      linarith

/-- A list whose first digit is not zero has the full size of its length. -/
theorem pow_le_number {digit : Nat} (positive : 0 < digit) (rest : List Nat) :
    base ^ rest.length ≤ number base (digit :: rest) := by
  have head_mul := Nat.mul_le_mul_right (base ^ rest.length) positive
  rw [number_cons]
  omega

theorem number_lt_of_lt {first second : List Nat} (good : Digits base first)
    (same : first.length = second.length) (less : first < second) :
    number base first < number base second := by
  induction first generalizing second with
  | nil =>
      obtain rfl := List.length_eq_zero_iff.mp same.symm
      exact absurd less (List.not_lt_nil _)
  | cons digit rest ih =>
      cases second with
      | nil => exact absurd less (List.not_lt_nil _)
      | cons other others =>
          have rest_good : Digits base rest := fun _ member =>
            good _ (List.mem_cons_of_mem _ member)
          have rest_same : rest.length = others.length := Nat.succ.inj same
          rw [number_cons, number_cons, ← rest_same]
          rcases List.cons_lt_cons_iff.mp less with head_less | ⟨rfl, rest_less⟩
          · have rest_lt := number_lt rest_good
            have head_mul := Nat.mul_le_mul_right (base ^ rest.length) head_less
            rw [Nat.succ_mul] at head_mul
            omega
          · exact Nat.add_lt_add_left (ih rest_good rest_same rest_less) _

/-- Lists of one length compare as their numbers. -/
theorem lt_iff_number_lt {first second : List Nat} (good_first : Digits base first)
    (good_second : Digits base second) (same : first.length = second.length) :
    first < second ↔ number base first < number base second := by
  refine ⟨number_lt_of_lt good_first same, fun less => ?_⟩
  rcases lt_trichotomy first second with before | rfl | after
  · exact before
  · exact absurd less (lt_irrefl _)
  · exact absurd less (number_lt_of_lt good_second same.symm after).not_gt

/-- Taking every digit from the greatest one takes the number from the greatest one. -/
theorem number_complement {digits : List Nat} (good : Digits base digits) :
    number base (digits.map fun digit => base - 1 - digit) + number base digits + 1 =
      base ^ digits.length := by
  induction digits with
  | nil => rfl
  | cons digit rest ih =>
      have head_lt := good digit List.mem_cons_self
      have rest_eq := ih fun other member => good other (List.mem_cons_of_mem _ member)
      have head_eq : (base - 1 - digit) + digit + 1 = base := by omega
      rw [List.map_cons, number_cons, number_cons, List.length_map, List.length_cons,
        Nat.pow_succ']
      calc (base - 1 - digit) * base ^ rest.length +
            number base (rest.map fun digit => base - 1 - digit) +
            (digit * base ^ rest.length + number base rest) + 1
          = ((base - 1 - digit) + digit) * base ^ rest.length +
            (number base (rest.map fun digit => base - 1 - digit) + number base rest + 1) := by ring
        _ = ((base - 1 - digit) + digit + 1) * base ^ rest.length := by rw [rest_eq]; ring
        _ = base * base ^ rest.length := by rw [head_eq]

/-! ## Words of several digits -/

/-- The numbers of `count` groups of `width` digits. -/
def words (base width : Nat) : Nat → List Nat → List Nat
  | 0, _ => []
  | count + 1, digits =>
      number base (digits.take width) :: words base width count (digits.drop width)

theorem length_words (width count : Nat) (digits : List Nat) :
    (words base width count digits).length = count := by
  induction count generalizing digits with
  | zero => rfl
  | succ count ih => rw [words, List.length_cons, ih]

theorem words_nil (width count : Nat) :
    words base width count [] = List.replicate count 0 := by
  induction count with
  | zero => rfl
  | succ count ih =>
      rw [words, List.take_nil, List.drop_nil, ih, number_nil, List.replicate_succ]

/-- The leading part decides, and the rest only between equal leading parts. -/
theorem mul_add_lt_iff {size first second firstRest secondRest : Nat} (first_lt : firstRest < size)
    (second_lt : secondRest < size) :
    first * size + firstRest < second * size + secondRest ↔
      first < second ∨ first = second ∧ firstRest < secondRest := by
  rcases lt_trichotomy first second with less | rfl | more
  · have head_mul := Nat.mul_le_mul_right size less
    rw [Nat.succ_mul] at head_mul
    exact ⟨fun _ => Or.inl less, fun _ => by omega⟩
  · constructor
    · intro less
      exact Or.inr ⟨rfl, Nat.lt_of_add_lt_add_left less⟩
    · rintro (less | ⟨-, less⟩)
      · exact absurd less (lt_irrefl _)
      · exact Nat.add_lt_add_left less _
  · have head_mul := Nat.mul_le_mul_right size more
    rw [Nat.succ_mul] at head_mul
    constructor
    · intro less
      omega
    · rintro (less | ⟨rfl, -⟩)
      · exact absurd less more.not_gt
      · exact absurd more (lt_irrefl _)

theorem words_lt_iff {width count : Nat} {first second : List Nat} (good_first : Digits base first)
    (good_second : Digits base second) (same : first.length = second.length)
    (fits : first.length ≤ width * count) :
    words base width count first < words base width count second ↔
      number base first < number base second := by
  induction count generalizing first second with
  | zero =>
      obtain rfl : first = [] := List.length_eq_zero_iff.mp (Nat.le_zero.mp fits)
      obtain rfl : second = [] := List.length_eq_zero_iff.mp same.symm
      exact ⟨fun less => absurd less (lt_irrefl _), fun less => absurd less (lt_irrefl _)⟩
  | succ count ih =>
      have drop_first : Digits base (first.drop width) := fun _ member =>
        good_first _ (List.mem_of_mem_drop member)
      have drop_second : Digits base (second.drop width) := fun _ member =>
        good_second _ (List.mem_of_mem_drop member)
      have drop_same : (first.drop width).length = (second.drop width).length := by
        rw [List.length_drop, List.length_drop, same]
      have drop_fits : (first.drop width).length ≤ width * count := by
        rw [Nat.mul_succ] at fits
        rw [List.length_drop]
        omega
      have first_lt := number_lt drop_first
      have second_lt := number_lt drop_second
      rw [← drop_same] at second_lt
      have first_eq := @number_append base (first.take width) (first.drop width)
      have second_eq := @number_append base (second.take width) (second.drop width)
      rw [List.take_append_drop] at first_eq second_eq
      rw [words, words, List.cons_lt_cons_iff, ih drop_first drop_second drop_same drop_fits,
        first_eq, second_eq, ← drop_same, mul_add_lt_iff first_lt second_lt]

/-- Words are the same as soon as the numbers are. -/
theorem number_injective {first second : List Nat} (good_first : Digits base first)
    (good_second : Digits base second) (same : first.length = second.length)
    (equal : number base first = number base second) : first = second := by
  rcases lt_trichotomy first second with less | eq | more
  · exact absurd equal (number_lt_of_lt good_first same less).ne
  · exact eq
  · exact absurd equal (number_lt_of_lt good_second same.symm more).ne'

/-- One more digit goes to the word it falls into. -/
theorem words_take_succ {width count index : Nat} (wide : 0 < width) {digits : List Nat}
    (inside : index < digits.length) (fits : index < width * count) :
    words base width count (digits.take (index + 1)) =
      (words base width count (digits.take index)).modify (index / width)
        fun word => word * base + digits[index] := by
  induction count generalizing digits index with
  | zero => omega
  | succ count ih =>
      rw [words, words]
      rcases Nat.lt_or_ge index width with first | later
      · have taken : digits.take (index + 1) = digits.take index ++ [digits[index]] :=
          List.take_succ_eq_append_getElem inside
        have drop_nil {size : Nat} (small : size ≤ width) : (digits.take size).drop width = [] :=
          List.drop_eq_nil_of_le ((List.length_take_le _ _).trans small)
        rw [Nat.div_eq_of_lt first, List.modify_zero_cons, drop_nil first, drop_nil first.le,
          List.take_of_length_le ((List.length_take_le _ _).trans (Nat.succ_le_of_lt first)),
          List.take_of_length_le ((List.length_take_le _ _).trans first.le), taken, number_concat]
      · have div_eq : index / width = (index - width) / width + 1 := by
          rw [← Nat.add_div_right _ wide, Nat.sub_add_cancel later]
        have rest_inside : index - width < (digits.drop width).length := by
          rw [List.length_drop]
          omega
        have rest := ih rest_inside (by rw [Nat.mul_succ] at fits; omega)
        have digit_eq : (digits.drop width)[index - width] = digits[index] := by
          rw [List.getElem_drop]
          congr 1
          omega
        have succ_eq : index + 1 - width = index - width + 1 := by omega
        rw [digit_eq] at rest
        rw [div_eq, List.modify_succ_cons, List.drop_take, List.drop_take, succ_eq, rest,
          List.take_take, List.take_take, min_eq_left (by omega), min_eq_left later]

/-! ## Lists without zeros at the end -/

/-- The last digit is not zero. -/
def Trimmed (digits : List Nat) : Prop := digits.getLast? ≠ some 0

theorem trimmed_nil : Trimmed [] := by
  rw [Trimmed, List.getLast?_nil]
  exact nofun

theorem Trimmed.of_cons {digit : Nat} {rest : List Nat} (trimmed : Trimmed (digit :: rest)) :
    Trimmed rest := by
  cases rest with
  | nil => exact trimmed_nil
  | cons next rest => rwa [Trimmed, List.getLast?_cons_cons] at trimmed

/-- A list that is not empty denotes more than zero when no zero ends it. -/
theorem Trimmed.number_pos {digits : List Nat} (trimmed : Trimmed digits)
    (nonempty : digits ≠ []) : 0 < number base digits := by
  rcases List.eq_nil_or_concat' digits with rfl | ⟨front, digit, rfl⟩
  · exact absurd rfl nonempty
  · rw [Trimmed, List.getLast?_concat] at trimmed
    rw [number_concat]
    have digit_ne : digit ≠ 0 := fun zero => trimmed (congrArg some zero)
    omega

/-- The number of a list filled up with zeros. -/
def filled (base length : Nat) (digits : List Nat) : Nat :=
  number base digits * base ^ (length - digits.length)

theorem filled_cons {length digit : Nat} {rest : List Nat} (fits : rest.length ≤ length) :
    filled base (length + 1) (digit :: rest) =
      digit * base ^ length + filled base length rest := by
  rw [filled, filled, number_cons, List.length_cons, Nat.add_sub_add_right, Nat.add_mul,
    Nat.mul_assoc, ← Nat.pow_add, Nat.add_sub_cancel' fits]

theorem filled_lt {length : Nat} {digits : List Nat} (good : Digits base digits)
    (positive : 0 < base) (fits : digits.length ≤ length) :
    filled base length digits < base ^ length := by
  have pow_eq : base ^ length = base ^ digits.length * base ^ (length - digits.length) := by
    rw [← Nat.pow_add, Nat.add_sub_cancel' fits]
  rw [filled, pow_eq]
  exact Nat.mul_lt_mul_of_pos_right (number_lt good) (Nat.pow_pos positive)

theorem filled_pos {length : Nat} {digits : List Nat} (positive : 0 < base)
    (trimmed : Trimmed digits) (nonempty : digits ≠ []) : 0 < filled base length digits :=
  Nat.mul_pos (trimmed.number_pos nonempty) (Nat.pow_pos positive)

/-- Lists without zeros at the end compare as the numbers they are filled up to. -/
theorem Trimmed.lt_iff (positive : 0 < base) {length : Nat} {first second : List Nat}
    (good_first : Digits base first) (good_second : Digits base second)
    (trimmed_first : Trimmed first) (trimmed_second : Trimmed second)
    (fits_first : first.length ≤ length) (fits_second : second.length ≤ length) :
    first < second ↔ filled base length first < filled base length second := by
  induction first generalizing second length with
  | nil =>
      have zero : filled base length [] = 0 := Nat.zero_mul _
      cases second with
      | nil => exact ⟨fun less => absurd less (lt_irrefl _), fun less => absurd less (lt_irrefl _)⟩
      | cons digit rest =>
          rw [zero]
          exact ⟨fun _ => filled_pos positive trimmed_second (List.cons_ne_nil _ _),
            fun _ => List.nil_lt_cons _ _⟩
  | cons digit rest ih =>
      cases second with
      | nil =>
          have zero : filled base length [] = 0 := Nat.zero_mul _
          rw [zero]
          exact ⟨fun less => absurd less (List.not_lt_nil _),
            fun less => absurd less (Nat.not_lt_zero _)⟩
      | cons other others =>
          cases length with
          | zero => exact absurd fits_first (Nat.not_succ_le_zero _)
          | succ length =>
              have rest_good : Digits base rest := fun _ member =>
                good_first _ (List.mem_cons_of_mem _ member)
              have others_good : Digits base others := fun _ member =>
                good_second _ (List.mem_cons_of_mem _ member)
              have rest_fits : rest.length ≤ length := Nat.le_of_succ_le_succ fits_first
              have others_fits : others.length ≤ length := Nat.le_of_succ_le_succ fits_second
              rw [List.cons_lt_cons_iff, filled_cons rest_fits, filled_cons others_fits,
                mul_add_lt_iff (filled_lt rest_good positive rest_fits)
                  (filled_lt others_good positive others_fits),
                ih rest_good others_good trimmed_first.of_cons trimmed_second.of_cons rest_fits
                  others_fits]

end Positional
end Firebird
