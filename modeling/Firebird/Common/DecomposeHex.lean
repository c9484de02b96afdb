import Mathlib
import Firebird.Common.DecomposeDecimal

/-!
# Literals and the texts that are accepted

Hexadecimal literals, and the texts that `CVT_decompose` accepts: literals and nothing else.
-/

namespace Firebird
namespace Cvt

open Positional

/-! ## Hexadecimal literals -/

/-- A hexadecimal literal. -/
structure Hex where
  leading : Nat
  marker : Char
  digits : List Char
  trailing : Nat
  marker_x : upper marker = 'X'
  hex_digits : ∀ c ∈ digits, isHexDigit c = true

namespace Hex

/-- The text behind `0x`. -/
def body (literal : Hex) : List Char := literal.digits ++ List.replicate literal.trailing ' '

def text (literal : Hex) : List Char :=
  List.replicate literal.leading ' ' ++ '0' :: literal.marker :: literal.body

/-- The number of the digits. -/
def number (literal : Hex) : Nat := Positional.number 16 (literal.digits.map hexDigit)

/-- What the literal denotes: a number of 32 bits if it has no more than eight digits, else one of 64
bits. -/
def value (literal : Hex) : Int :=
  if literal.digits.length ≤ 8 then ExactType.long.wrap literal.number
  else ExactType.int64.wrap literal.number

/-- The literal stays clear of the slips: it has digits, the spaces behind it are counted among the
characters allowed, and the digits end where the text does. -/
structure Regular (literal : Hex) (memory : List Char) : Prop where
  nonempty : literal.digits ≠ []
  room : literal.digits.length ≤ 16 → literal.digits.length + literal.trailing ≤ 16
  ends : literal.trailing = 0 → ∀ c ∈ memory.head?, isHexDigit c = false

/-- No more than 16 digits, and a value of the type. -/
def Admissible (dtype : ExactType) (literal : Hex) : Prop :=
  literal.digits.length ≤ 16 ∧ dtype.Fits literal.value

end Hex

theorem hexDigit_lt {c : Char} (is_digit : isHexDigit c = true) : hexDigit c < 16 := by
  rw [isHexDigit, Bool.or_eq_true, Bool.and_eq_true, decide_eq_true_eq, decide_eq_true_eq] at is_digit
  rw [hexDigit]
  generalize upper c = e at is_digit ⊢
  have letter_a : 'A'.toNat = 65 := rfl
  have zero : '0'.toNat = 48 := rfl
  rcases is_digit with decimal | ⟨above, below⟩
  · have digit_le := digit_le decimal
    have digit_eq := toNat_eq decimal
    have small : ¬e ≥ 'A' := by
      intro above
      have above_nat : 'A'.toNat ≤ e.toNat := above
      omega
    rw [if_neg small]
    omega
  · have below_nat : e.toNat ≤ 'F'.toNat := below
    have letter_f : 'F'.toNat = 70 := rfl
    rw [if_pos above]
    omega

/-- Wrapping once is enough. -/
theorem wrap_shift (value : Int) (byte : Nat) :
    ExactType.int64.wrap (ExactType.int64.wrap value * 2 ^ 8 + byte) =
      ExactType.int64.wrap (value * 2 ^ 8 + byte) := by
  simp only [ExactType.wrap, ExactType.bits]
  omega

/-- The digits taken in so far, a pending nibble included. -/
def pending (value byte : Nat) (nibble : Bool) : Nat := if nibble then value * 16 + byte else value

/-- The loop takes in all digits when it starts at a nibble of their parity. -/
theorem hexLoop_digits {digits rest : List Char} (is_digits : ∀ c ∈ digits, isHexDigit c = true)
    (stops : ∀ c ∈ rest.head?, isHexDigit c = false) {value byte : Nat} {nibble : Bool}
    (byte_lt : nibble = true → byte < 16) (parity : nibble = decide (digits.length % 2 = 1)) :
    hexLoop (digits ++ rest) (ExactType.int64.wrap value) byte nibble =
      (ExactType.int64.wrap
        ((digits.map hexDigit).foldl (fun value digit => value * 16 + digit)
          (pending value byte nibble) : ℕ), rest) := by
  induction digits generalizing value byte nibble with
  | nil =>
      obtain rfl : nibble = false := parity
      rw [List.nil_append, List.map_nil, List.foldl_nil, pending]
      cases rest with
      | nil => rfl
      | cons c rest =>
          have stop := stops c rfl
          rw [hexLoop, stop]
          rfl
  | cons c digits ih =>
      have is_digit := is_digits c List.mem_cons_self
      have digit_lt := hexDigit_lt is_digit
      have rest_digits : ∀ d ∈ digits, isHexDigit d = true := fun d member =>
        is_digits d (List.mem_cons_of_mem _ member)
      rw [List.length_cons] at parity
      rw [List.cons_append, hexLoop, if_pos is_digit, List.map_cons, List.foldl_cons]
      cases nibble with
      | false =>
          have next_parity : true = decide (digits.length % 2 = 1) := by
            simp only [Bool.false_eq, Bool.true_eq, decide_eq_false_iff_not, decide_eq_true_eq]
              at parity ⊢
            omega
          exact ih rest_digits (fun _ => digit_lt) next_parity
      | true =>
          have byte_lt := byte_lt rfl
          have next_parity : false = decide (digits.length % 2 = 1) := by
            simp only [Bool.false_eq, Bool.true_eq, decide_eq_false_iff_not, decide_eq_true_eq]
              at parity ⊢
            omega
          have whole : (byte * 2 ^ 4 + hexDigit c) % 2 ^ 8 = byte * 16 + hexDigit c := by omega
          have next_value : (value : Int) * 2 ^ 8 + ((byte * 16 + hexDigit c : ℕ) : Int) =
              ((value * 16 + byte) * 16 + hexDigit c : ℕ) := by
            push_cast
            ring
          have no_byte : false = true → byte * 16 + hexDigit c < 16 := nofun
          simp only [if_true, whole, wrap_shift, next_value]
          rw [ih rest_digits no_byte next_parity, pending, pending]
          simp only [Bool.false_eq_true, if_false, if_true]

theorem hex_to_value_digits {digits rest : List Char} (is_digits : ∀ c ∈ digits, isHexDigit c = true)
    (stops : ∀ c ∈ rest.head?, isHexDigit c = false) :
    hex_to_value (digits ++ rest) digits.length =
      (ExactType.int64.wrap (number 16 (digits.map hexDigit)), rest) := by
  have zero_byte : decide (digits.length % 2 = 1) = true → 0 < 16 := fun _ => by decide
  have start : ExactType.int64.wrap (0 : ℕ) = 0 := by decide
  have looped := @hexLoop_digits digits rest is_digits stops 0 0 _ zero_byte rfl
  have none_pending : pending 0 0 (decide (digits.length % 2 = 1)) = 0 := by
    rw [pending]
    split <;> rfl
  rw [none_pending] at looped
  rw [hex_to_value, ← start]
  exact looped

theorem not_hexDigit_space : isHexDigit ' ' = false := by decide

/-- The characters in front of the first space are the digits. -/
theorem span_digits {digits : List Char} (is_digits : ∀ c ∈ digits, isHexDigit c = true)
    (count : Nat) :
    (digits ++ List.replicate count ' ').takeWhile (fun c => c ≠ '\x00' ∧ c ≠ ' ') = digits ∧
      (digits ++ List.replicate count ' ').dropWhile (fun c => c ≠ '\x00' ∧ c ≠ ' ') =
        List.replicate count ' ' := by
  have goes_on : ∀ c ∈ digits, decide (c ≠ '\x00' ∧ c ≠ ' ') = true := by
    intro c member
    have is_digit := is_digits c member
    rw [decide_eq_true_eq]
    constructor
    · rintro rfl
      exact absurd is_digit (by decide)
    · rintro rfl
      exact absurd is_digit (by decide)
  constructor
  · rw [List.takeWhile_append_of_pos goes_on]
    cases count with
    | zero => simp
    | succ count => simp [List.replicate_succ]
  · rw [List.dropWhile_append_of_pos goes_on]
    cases count with
    | zero => rfl
    | succ count => simp [List.replicate_succ]

namespace Hex

theorem number_lt (literal : Hex) : literal.number < 16 ^ literal.digits.length := by
  have small : Digits 16 (literal.digits.map hexDigit) := by
    intro d member
    obtain ⟨c, c_mem, rfl⟩ := List.mem_map.mp member
    exact hexDigit_lt (literal.hex_digits c c_mem)
  have less := Positional.number_lt small
  rwa [List.length_map] at less

/-- Only the low 32 bits count when there are no more than eight digits. -/
theorem narrow_eq (literal : Hex) :
    (if literal.digits.length ≤ 8 then
        ExactType.long.wrap (ExactType.int64.wrap literal.number)
      else ExactType.int64.wrap literal.number) = literal.value := by
  rw [value]
  by_cases short : literal.digits.length ≤ 8
  · have less : literal.number < 16 ^ 8 :=
      literal.number_lt.trans_le (Nat.pow_le_pow_right (by decide) short)
    have fits : ExactType.int64.Fits literal.number := by
      simp only [ExactType.Fits, ExactType.bits]
      omega
    rw [if_pos short, if_pos short, ExactType.wrap_of_fits fits]
  · rw [if_neg short, if_neg short]

theorem value_fits_int64 (literal : Hex) : ExactType.int64.Fits literal.value := by
  rw [value]
  split <;> simp only [ExactType.Fits, ExactType.wrap, ExactType.bits] <;> omega

theorem decomposeHex_body {dtype : ExactType} (wide : dtype ≠ .short) {literal : Hex}
    {memory : List Char} (regular : literal.Regular memory) :
    (literal.Admissible dtype → decomposeHex dtype literal.body memory = .ok (literal.value, 0)) ∧
    (¬literal.Admissible dtype →
      ∃ error, decomposeHex dtype literal.body memory = .error error) := by
  have stops : ∀ c ∈ (List.replicate literal.trailing ' ' ++ memory).head?, isHexDigit c = false := by
    rcases count_eq : literal.trailing with _ | count
    · exact regular.ends count_eq
    · intro c member
      obtain rfl : ' ' = c := by simpa [List.replicate_succ] using member
      exact not_hexDigit_space
  have span := span_digits literal.hex_digits literal.trailing
  have looped := hex_to_value_digits literal.hex_digits stops
  have skipped : skipSpaces (List.replicate literal.trailing ' ') = [] := by
    have skipped := skipSpaces_replicate literal.trailing []
    rwa [List.append_nil] at skipped
  have body_length : literal.body.length = literal.digits.length + literal.trailing := by
    rw [body, List.length_append, List.length_replicate]
  have digits_pos := List.length_pos_iff.mpr regular.nonempty
  rw [decomposeHex, body_length]
  simp only [body, span.1, span.2, skipped, List.append_assoc]
  by_cases small : literal.digits.length ≤ 16
  · have room := regular.room small
    have stops_at : (List.replicate literal.trailing ' ' ++ memory).length + literal.digits.length =
        literal.digits.length + literal.trailing + memory.length := by
      rw [List.length_append, List.length_replicate]
      omega
    have allowed : ¬(([] : List Char) ≠ [] ∨ literal.digits.length + literal.trailing = 0 ∨
        literal.digits.length + literal.trailing > 16) := by
      rintro (filled | zero | long)
      · exact filled rfl
      · omega
      · omega
    rw [if_neg allowed, looped]
    simp only [stops_at, ne_eq, not_true, if_false]
    rw [← number, narrow_eq, Admissible]
    have fits64 := literal.value_fits_int64
    by_cases outside : dtype = .long ∧ (literal.value < -2147483648 ∨ literal.value > 2147483647)
    · rw [if_pos outside]
      refine ⟨fun admissible => ?_, fun _ => ⟨_, rfl⟩⟩
      have fits := admissible.2
      simp only [outside.1, ExactType.Fits, ExactType.bits] at fits
      omega
    · rw [if_neg outside]
      refine ⟨fun _ => rfl, fun other => absurd ⟨small, ?_⟩ other⟩
      cases dtype with
      | short => exact absurd rfl wide
      | long =>
          simp only [true_and, not_or, not_lt] at outside
          simp only [ExactType.Fits, ExactType.bits]
          omega
      | int64 => exact fits64
  · rw [if_pos (by omega)]
    exact ⟨fun admissible => absurd admissible.1 small, fun _ => ⟨_, rfl⟩⟩

theorem decompose_text {dtype : ExactType} (wide : dtype ≠ .short) {literal : Hex}
    {memory : List Char} (regular : literal.Regular memory) :
    (literal.Admissible dtype → decompose dtype literal.text memory = .ok (literal.value, 0)) ∧
    (¬literal.Admissible dtype → ∃ error, decompose dtype literal.text memory = .error error) := by
  have skipped : skipSpaces literal.text = '0' :: literal.marker :: literal.body := by
    rw [text, skipSpaces_replicate]
    exact skipSpaces_of_head (by simp)
  have body_ne : literal.body ≠ [] := List.append_ne_nil_of_left_ne_nil regular.nonempty _
  have prefixed : hexPrefix ('0' :: literal.marker :: literal.body) = true := by
    have body_pos := List.length_pos_iff.mpr body_ne
    simp [hexPrefix, literal.marker_x, body_pos]
  rw [decompose, skipped]
  simp only [prefixed, if_true]
  exact decomposeHex_body wide regular

end Hex

/-! ## Nothing but literals -/

/-- The text behind the digits ends in spaces, or goes on with an exponent. -/
def Ends (tail rest : List Char) : Prop :=
  (rest = [] ∧ ∃ count, tail = List.replicate count ' ') ∨
    ∃ marker more, (marker = 'e' ∨ marker = 'E') ∧ tail = marker :: more ∧ rest = tail

theorem eq_spaces_of_skipSpaces {text : List Char} (skipped : skipSpaces text = []) :
    text = List.replicate text.length ' ' := by
  rw [skipSpaces, List.dropWhile_eq_nil_iff] at skipped
  rw [List.eq_replicate_iff]
  exact ⟨rfl, fun c member => by simpa using skipped c member⟩

theorem push_flags {dtype : ExactType} {state next : Mantissa} {c : Char}
    (pushed : state.push dtype c = .ok next) :
    next.digit_seen = true ∧ next.sign = state.sign ∧ next.fraction = state.fraction := by
  rw [Mantissa.push] at pushed
  split_ifs at pushed <;>
    obtain rfl := Except.ok.inj pushed <;>
    exact ⟨rfl, rfl, rfl⟩

theorem scanMantissa_fraction {dtype : ExactType} {text rest : List Char} {state last : Mantissa}
    (behind : state.fraction = true)
    (scan : scanMantissa dtype text state = .ok (last, rest)) :
    ∃ digits tail, text = digits ++ tail ∧ IsDigits digits ∧ Ends tail rest ∧
      (last.digit_seen = true → state.digit_seen = true ∨ digits ≠ []) := by
  induction text generalizing state with
  | nil =>
      obtain ⟨rfl, rfl⟩ := Prod.mk.inj (Except.ok.inj scan)
      exact ⟨[], [], rfl, nofun, Or.inl ⟨rfl, 0, rfl⟩, Or.inl⟩
  | cons c text ih =>
      rw [scanMantissa] at scan
      by_cases is_digit : isDigit c = true
      · rw [if_pos is_digit] at scan
        rcases pushed : state.push dtype c with error | next
        · rw [pushed] at scan
          cases scan
        · rw [pushed, ok_bind] at scan
          obtain ⟨-, -, fraction_eq⟩ := push_flags pushed
          obtain ⟨digits, tail, rfl, is_digits, ends, -⟩ := ih (fraction_eq.trans behind) scan
          refine ⟨c :: digits, tail, rfl, ?_, ends, fun _ => Or.inr (List.cons_ne_nil _ _)⟩
          exact List.forall_mem_cons.mpr ⟨is_digit, is_digits⟩
      · rw [if_neg is_digit, behind] at scan
        simp only [if_true, Bool.not_true, Bool.false_eq_true, and_false, if_false] at scan
        split_ifs at scan with point exponent space spaces
        · obtain ⟨rfl, rfl⟩ := Prod.mk.inj (Except.ok.inj scan)
          exact ⟨[], c :: text, rfl, nofun, Or.inr ⟨c, text, exponent, rfl, rfl⟩, Or.inl⟩
        · obtain ⟨rfl, rfl⟩ := Prod.mk.inj (Except.ok.inj scan)
          refine ⟨[], c :: text, rfl, nofun, Or.inl ⟨rfl, text.length + 1, ?_⟩, Or.inl⟩
          rw [space, List.replicate_succ, ← eq_spaces_of_skipSpaces spaces]

/-- What a loop over a mantissa has read, from a state before the point on. -/
theorem scanMantissa_whole {dtype : ExactType} {text rest : List Char} {state last : Mantissa}
    (before : state.fraction = false)
    (scan : scanMantissa dtype text state = .ok (last, rest)) :
    ∃ (sign : Sign) (whole : List Char) (fraction : Option (List Char)) (tail : List Char),
      text = sign.text ++ (whole ++ (fraction.elim [] ('.' :: ·) ++ tail)) ∧
        IsDigits whole ∧ IsDigits (fraction.getD []) ∧ Ends tail rest ∧
        (last.digit_seen = true →
          state.digit_seen = true ∨ whole ++ fraction.getD [] ≠ []) ∧
        (sign ≠ .absent → state.digit_seen = false ∧ state.sign = 0) := by
  induction text generalizing state with
  | nil =>
      obtain ⟨rfl, rfl⟩ := Prod.mk.inj (Except.ok.inj scan)
      exact ⟨.absent, [], none, [], rfl, nofun, nofun, Or.inl ⟨rfl, 0, rfl⟩, Or.inl,
        fun signed => absurd rfl signed⟩
  | cons c text ih =>
      rw [scanMantissa] at scan
      by_cases is_digit : isDigit c = true
      · rw [if_pos is_digit] at scan
        rcases pushed : state.push dtype c with error | next
        · rw [pushed] at scan
          cases scan
        · rw [pushed, ok_bind] at scan
          obtain ⟨seen, -, fraction_eq⟩ := push_flags pushed
          obtain ⟨sign, whole, fraction, tail, rfl, whole_digits, fraction_digits, ends, -, signed⟩ :=
            ih (fraction_eq.trans before) scan
          obtain rfl : sign = .absent := by
            by_contra other
            rw [seen] at signed
            exact absurd (signed other).1 (by decide)
          exact ⟨.absent, c :: whole, fraction, tail, rfl,
            List.forall_mem_cons.mpr ⟨is_digit, whole_digits⟩, fraction_digits, ends,
            fun _ => Or.inr (List.cons_ne_nil _ _), fun signed => absurd rfl signed⟩
      · rw [if_neg is_digit, before] at scan
        split_ifs at scan with point no minus plus exponent space spaces
        · obtain ⟨digits, tail, rfl, is_digits, ends, seen⟩ := scanMantissa_fraction rfl scan
          exact ⟨.absent, [], some digits, tail, by rw [point]; rfl, nofun, is_digits, ends, seen,
            fun signed => absurd rfl signed⟩
        · obtain ⟨minus_eq, unseen, unsigned, -⟩ := minus
          obtain ⟨sign, whole, fraction, tail, rfl, whole_digits, fraction_digits, ends, seen, signed⟩ :=
            ih rfl scan
          obtain rfl : sign = .absent := by
            by_contra other
            exact absurd (signed other).2 (by simp)
          exact ⟨.minus, whole, fraction, tail, by rw [minus_eq]; rfl, whole_digits, fraction_digits,
            ends, seen, fun _ => ⟨by simpa using unseen, unsigned⟩⟩
        · obtain ⟨plus_eq, unseen, unsigned, -⟩ := plus
          obtain ⟨sign, whole, fraction, tail, rfl, whole_digits, fraction_digits, ends, seen, signed⟩ :=
            ih rfl scan
          obtain rfl : sign = .absent := by
            by_contra other
            exact absurd (signed other).2 (by simp)
          exact ⟨.plus, whole, fraction, tail, by rw [plus_eq]; rfl, whole_digits, fraction_digits,
            ends, seen, fun _ => ⟨by simpa using unseen, unsigned⟩⟩
        · obtain ⟨rfl, rfl⟩ := Prod.mk.inj (Except.ok.inj scan)
          exact ⟨.absent, [], none, c :: text, rfl, nofun, nofun,
            Or.inr ⟨c, text, exponent, rfl, rfl⟩, Or.inl, fun signed => absurd rfl signed⟩
        · obtain ⟨rfl, rfl⟩ := Prod.mk.inj (Except.ok.inj scan)
          refine ⟨.absent, [], none, c :: text, rfl, nofun, nofun,
            Or.inl ⟨rfl, text.length + 1, ?_⟩, Or.inl, fun signed => absurd rfl signed⟩
          rw [space, List.replicate_succ, ← eq_spaces_of_skipSpaces spaces]

/-- What the loop over an exponent has read. -/
theorem scanExponent_text {text : List Char} {state last : Exponent}
    (scan : scanExponent text state = .ok last) :
    ∃ (sign : Sign) (digits : List Char) (count : Nat),
      text = sign.text ++ (digits ++ List.replicate count ' ') ∧ IsDigits digits ∧
        (last.digit_seen = true → state.digit_seen = true ∨ digits ≠ []) ∧
        (sign ≠ .absent → state.digit_seen = false ∧ state.sign = 0) := by
  induction text generalizing state with
  | nil =>
      obtain rfl := Except.ok.inj scan
      exact ⟨.absent, [], 0, rfl, nofun, Or.inl, fun signed => absurd rfl signed⟩
  | cons c text ih =>
      rw [scanExponent] at scan
      by_cases is_digit : isDigit c = true
      · rw [if_pos is_digit] at scan
        simp only at scan
        split_ifs at scan with large
        obtain ⟨sign, digits, count, rfl, is_digits, -, signed⟩ := ih scan
        obtain rfl : sign = .absent := by
          by_contra other
          exact absurd (signed other).1 (by simp)
        exact ⟨.absent, c :: digits, count, rfl, List.forall_mem_cons.mpr ⟨is_digit, is_digits⟩,
          fun _ => Or.inr (List.cons_ne_nil _ _), fun signed => absurd rfl signed⟩
      · rw [if_neg is_digit] at scan
        split_ifs at scan with minus plus space spaces
        · obtain ⟨minus_eq, unseen, unsigned⟩ := minus
          obtain ⟨sign, digits, count, rfl, is_digits, seen, signed⟩ := ih scan
          obtain rfl : sign = .absent := by
            by_contra other
            exact absurd (signed other).2 (by simp)
          exact ⟨.minus, digits, count, by rw [minus_eq]; rfl, is_digits, seen,
            fun _ => ⟨by simpa using unseen, unsigned⟩⟩
        · obtain ⟨plus_eq, unseen, unsigned⟩ := plus
          obtain ⟨sign, digits, count, rfl, is_digits, seen, signed⟩ := ih scan
          obtain rfl : sign = .absent := by
            by_contra other
            exact absurd (signed other).2 (by simp)
          exact ⟨.plus, digits, count, by rw [plus_eq]; rfl, is_digits, seen,
            fun _ => ⟨by simpa using unseen, unsigned⟩⟩
        · obtain rfl := Except.ok.inj scan
          refine ⟨.absent, [], text.length + 1, ?_, nofun, Or.inl, fun signed => absurd rfl signed⟩
          rw [space, List.replicate_succ, ← eq_spaces_of_skipSpaces spaces]
          rfl

/-- A text that is accepted as a decimal number is a decimal literal. -/
theorem exists_decimal {dtype : ExactType} {p : List Char} {result : Int × Int}
    (accepted : decomposeDecimal dtype p = .ok result) (leading : Nat) :
    ∃ literal : Decimal, literal.text = List.replicate leading ' ' ++ p := by
  rw [decomposeDecimal] at accepted
  rcases scan : scanMantissa dtype p ⟨0, 0, 0, false, false⟩ with error | ⟨last, rest⟩
  · rw [scan] at accepted
    cases accepted
  · rw [scan, ok_bind] at accepted
    obtain ⟨sign, whole, fraction, tail, rfl, whole_digits, fraction_digits, ends, seen, -⟩ :=
      scanMantissa_whole rfl scan
    simp only at accepted
    by_cases unseen : (!last.digit_seen) = true
    · rw [if_pos unseen] at accepted
      cases accepted
    rw [if_neg unseen] at accepted
    generalize (if last.sign = -1 ∧ last.value ≠ lower_limit dtype then -last.value
      else last.value) = value at accepted
    have digit_seen : whole ++ fraction.getD [] ≠ [] :=
      (seen (by simpa using unseen)).resolve_left (by simp)
    rcases ends with ⟨rfl, count, rfl⟩ | ⟨marker, more, marker_e, rfl, rfl⟩
    · exact ⟨⟨leading, sign, whole, fraction, none, count, whole_digits, fraction_digits, digit_seen⟩,
        rfl⟩
    · simp only [applyExponent] at accepted
      rcases scanned : scanExponent more ⟨0, 0, false⟩ with error | exponent
      · rw [scanned] at accepted
        cases accepted
      · rw [scanned, ok_bind] at accepted
        obtain ⟨exponent_sign, digits, count, rfl, is_digits, exponent_seen, -⟩ :=
          scanExponent_text scanned
        by_cases unseen : (!exponent.digit_seen) = true
        · rw [if_pos unseen] at accepted
          cases accepted
        · have nonempty := (exponent_seen (by simpa using unseen)).resolve_left (by simp)
          refine ⟨⟨leading, sign, whole, fraction,
            some ⟨marker, exponent_sign, digits, marker_e, is_digits, nonempty⟩, count, whole_digits,
            fraction_digits, digit_seen⟩, ?_⟩
          simp [Decimal.text, Decimal.body, Decimal.tail, ExponentText.text]

/-- The characters that the loop takes in are hexadecimal digits. -/
theorem hexLoop_left (text : List Char) (value : Int) (byte : Nat) (nibble : Bool) :
    ∃ digits, text = digits ++ (hexLoop text value byte nibble).2 ∧
      ∀ c ∈ digits, isHexDigit c = true := by
  induction text generalizing value byte nibble with
  | nil => exact ⟨[], rfl, nofun⟩
  | cons c text ih =>
      rw [hexLoop]
      by_cases is_digit : isHexDigit c = true
      · rw [if_pos is_digit]
        cases nibble with
        | false =>
            obtain ⟨digits, text_eq, is_digits⟩ := ih value (hexDigit c) true
            exact ⟨c :: digits, congrArg (c :: ·) text_eq,
              List.forall_mem_cons.mpr ⟨is_digit, is_digits⟩⟩
        | true =>
            obtain ⟨digits, text_eq, is_digits⟩ := ih
              (ExactType.int64.wrap (value * 2 ^ 8 + ((byte * 2 ^ 4 + hexDigit c) % 2 ^ 8 : ℕ)))
              ((byte * 2 ^ 4 + hexDigit c) % 2 ^ 8) false
            exact ⟨c :: digits, congrArg (c :: ·) text_eq,
              List.forall_mem_cons.mpr ⟨is_digit, is_digits⟩⟩
      · rw [if_neg is_digit]
        exact ⟨[], rfl, nofun⟩

/-- A text that is accepted as a hexadecimal number is a hexadecimal literal. -/
theorem exists_hex {dtype : ExactType} {p memory : List Char} {result : Int × Int}
    (accepted : decomposeHex dtype p memory = .ok result) :
    ∃ digits count, p = digits ++ List.replicate count ' ' ∧
      ∀ c ∈ digits, isHexDigit c = true := by
  rw [decomposeHex] at accepted
  have p_eq := List.takeWhile_append_dropWhile (p := fun c => c ≠ '\x00' ∧ c ≠ ' ') (l := p)
  simp only at accepted
  generalize p.takeWhile (fun c => c ≠ '\x00' ∧ c ≠ ' ') = digits at p_eq accepted
  generalize p.dropWhile (fun c => c ≠ '\x00' ∧ c ≠ ' ') = behind at p_eq accepted
  by_cases malformed : skipSpaces behind ≠ [] ∨ p.length = 0 ∨ p.length > 16
  · rw [if_pos malformed] at accepted
    exact absurd accepted nofun
  rw [if_neg malformed] at accepted
  by_cases moved : (hex_to_value (p ++ memory) digits.length).2.length + digits.length ≠
      p.length + memory.length
  · rw [if_pos moved] at accepted
    exact absurd accepted nofun
  have spaces := eq_spaces_of_skipSpaces (not_not.mp (not_or.mp malformed).1)
  obtain ⟨read, memory_eq, is_digits⟩ := hexLoop_left (p ++ memory) 0 0 (digits.length % 2 = 1)
  have length_eq : read.length = digits.length := by
    have total := congrArg List.length memory_eq
    rw [List.length_append, List.length_append] at total
    have stopped := not_not.mp moved
    rw [hex_to_value] at stopped
    omega
  rw [← p_eq, List.append_assoc] at memory_eq
  obtain rfl := List.append_inj_left memory_eq length_eq.symm
  exact ⟨digits, behind.length, by rw [← p_eq, ← spaces], is_digits⟩

theorem eq_spaces_append (text : List Char) :
    ∃ leading, text = List.replicate leading ' ' ++ skipSpaces text := by
  have spaces := List.takeWhile_append_dropWhile (p := (· = ' ')) (l := text)
  have all : text.takeWhile (· = ' ') = List.replicate (text.takeWhile (· = ' ')).length ' ' := by
    rw [List.eq_replicate_iff]
    exact ⟨rfl, fun c member => by simpa using List.mem_takeWhile_imp member⟩
  refine ⟨(text.takeWhile (· = ' ')).length, ?_⟩
  rw [← all, skipSpaces, spaces]

/-! ## The literals that are accepted -/

theorem exists_marker {p : List Char} (prefixed : hexPrefix p = true) :
    ∃ marker body, p = '0' :: marker :: body ∧ upper marker = 'X' := by
  rcases p with _ | ⟨first, _ | ⟨marker, body⟩⟩
  · exact absurd prefixed (by decide)
  · simp [hexPrefix] at prefixed
  · have parts : (0 < body.length ∧ first = '0') ∧ upper marker = 'X' := by
      simpa [hexPrefix] using prefixed
    exact ⟨marker, body, by rw [parts.1.2], parts.2⟩

/-- A numeric literal. -/
inductive Literal where
  | decimal (literal : Decimal)
  | hex (literal : Hex)

namespace Literal

def text : Literal → List Char
  | decimal literal => literal.text
  | hex literal => literal.text

/-- The number that a literal denotes. -/
def value : Literal → ℚ
  | decimal literal => literal.value
  | hex literal => literal.value

/-- The literal stays clear of the slips of the code, with the memory behind its text. -/
def Regular (dtype : ExactType) (memory : List Char) : Literal → Prop
  | decimal literal => literal.Regular dtype
  | hex literal => literal.Regular memory

/-- The mantissa fits the type, and the exponent or the number of digits is not too large. -/
def Admissible (dtype : ExactType) : Literal → Prop
  | decimal literal => literal.Admissible dtype
  | hex literal => literal.Admissible dtype

end Literal

/-- A regular literal is accepted if and only if it is admissible, and then for the number that it
denotes; nothing else than a literal is accepted. -/
theorem decompose_accepts {dtype : ExactType} (wide : dtype = .long ∨ dtype = .int64)
    (memory : List Char) :
    (∀ literal : Literal, literal.Regular dtype memory →
      (literal.Admissible dtype → ∃ value scale,
        decompose dtype literal.text memory = .ok (value, scale) ∧
          (value : ℚ) * 10 ^ scale = literal.value) ∧
      (¬literal.Admissible dtype →
        ∃ error, decompose dtype literal.text memory = .error error)) ∧
    ∀ text, (∀ literal : Literal, literal.text ≠ text) →
      ∃ error, decompose dtype text memory = .error error := by
  have wide : dtype ≠ .short := by
    rcases wide with rfl | rfl <;> decide
  constructor
  · intro literal regular
    cases literal with
    | decimal literal =>
        obtain ⟨accepts, rejects⟩ := literal.decompose_text wide regular memory
        exact ⟨fun admissible => ⟨_, _, accepts admissible, rfl⟩,
          fun other => ⟨_, rejects other⟩⟩
    | hex literal =>
        obtain ⟨accepts, rejects⟩ := literal.decompose_text wide regular
        exact ⟨fun admissible => ⟨_, _, accepts admissible, by rw [zpow_zero, mul_one]; rfl⟩,
          rejects⟩
  · intro text other
    rcases result_eq : decompose dtype text memory with error | result
    · exact ⟨error, rfl⟩
    · exfalso
      obtain ⟨leading, text_eq⟩ := eq_spaces_append text
      rw [decompose] at result_eq
      by_cases prefixed : hexPrefix (skipSpaces text) = true
      · simp only [prefixed, if_true] at result_eq
        obtain ⟨marker, body, p_eq, marker_x⟩ := exists_marker prefixed
        rw [p_eq] at result_eq text_eq
        obtain ⟨digits, count, rfl, is_digits⟩ := exists_hex result_eq
        exact other (.hex ⟨leading, marker, digits, count, marker_x, is_digits⟩) text_eq.symm
      · simp only [prefixed] at result_eq
        obtain ⟨literal, literal_eq⟩ := exists_decimal result_eq leading
        exact other (.decimal literal) (literal_eq.trans text_eq.symm)

/-- The least value of 64 bits is accepted. -/
theorem decompose_accepts_least :
    let literal : Decimal := ⟨1, .minus, "9223372036854775808".toList, none, none, 2,
      by decide, nofun, by decide⟩
    ∃ value scale, decompose .int64 (Literal.decimal literal).text ['7'] = .ok (value, scale) ∧
      (value : ℚ) * 10 ^ scale = (Literal.decimal literal).value := by
  intro literal
  have fits : digitsNumber ([] ++ literal.digits) ≤ bound .int64 literal.sign := by decide
  have regular : literal.Regular .int64 := ⟨.of_fits fits, by decide, fun _ => by decide⟩
  have admissible : literal.Admissible .int64 := ⟨by decide, nofun⟩
  exact ((decompose_accepts (Or.inr rfl) ['7']).1 (.decimal literal) regular).1 admissible

/-- A literal whose mantissa fits is refused for its exponent. -/
theorem not_decompose_accepts_exponent :
    ¬∀ literal : Decimal, literal.whole ≠ [] → literal.fraction ≠ some [] →
      ExactType.int64.Fits literal.mantissa →
        ∃ result, decompose .int64 literal.text [] = .ok result := by
  intro accepts
  let exponent : ExponentText := ⟨'e', .minus, "3276".toList, by decide, by decide, by decide⟩
  obtain ⟨result, accepted⟩ := accepts
    ⟨0, .absent, ['1'], none, some exponent, 0, by decide, nofun, by decide⟩ (by decide) (by decide)
    (by decide)
  have refused : decompose .int64 "1e-3276".toList [] = .error .outOfRange := by decide
  exact absurd (accepted.symm.trans refused) nofun

end Cvt
end Firebird
