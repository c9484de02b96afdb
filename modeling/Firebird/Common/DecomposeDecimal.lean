import Firebird.Common.Decompose

/-!
# Decimal literals

What a decimal literal is, how the loops of `CVT_decompose` go through one, and that they come to an
end without an error on nothing else.
-/

namespace Firebird
namespace Cvt

open Positional

/-- An optional sign. -/
inductive Sign where
  | absent
  | plus
  | minus
  deriving DecidableEq, Repr

namespace Sign

def text : Sign → List Char
  | absent => []
  | plus => ['+']
  | minus => ['-']

/-- The value of the variable `sign`. -/
def code : Sign → Int
  | absent => 0
  | plus => 1
  | minus => -1

/-- The number with the sign in front. -/
def apply (sign : Sign) (number : Nat) : Int := if sign = minus then -number else number

end Sign

/-- A text of digits only. -/
def IsDigits (text : List Char) : Prop := ∀ c ∈ text, isDigit c = true

instance (text : List Char) : Decidable (IsDigits text) :=
  decidable_of_iff (text.all isDigit = true) List.all_eq_true

/-- The number that digits denote. -/
def digitsNumber (text : List Char) : Nat := number 10 (text.map digit)

/-- An exponent behind its `e`. -/
structure ExponentText where
  marker : Char
  sign : Sign
  digits : List Char
  marker_e : marker = 'e' ∨ marker = 'E'
  is_digits : IsDigits digits
  nonempty : digits ≠ []

namespace ExponentText

def text (exponent : ExponentText) : List Char :=
  exponent.marker :: (exponent.sign.text ++ exponent.digits)

def value (exponent : ExponentText) : Int := exponent.sign.apply (digitsNumber exponent.digits)

end ExponentText

/-- A decimal literal: a sign, digits with a point before, between or behind them, an exponent. -/
structure Decimal where
  leading : Nat
  sign : Sign
  whole : List Char
  fraction : Option (List Char)
  exponent : Option ExponentText
  trailing : Nat
  whole_digits : IsDigits whole
  fraction_digits : IsDigits (fraction.getD [])
  digit_seen : whole ++ fraction.getD [] ≠ []

namespace Decimal

/-- The text behind the digits. -/
def tail (literal : Decimal) : List Char :=
  (literal.exponent.elim [] ExponentText.text) ++ List.replicate literal.trailing ' '

/-- The text behind the leading spaces. -/
def body (literal : Decimal) : List Char :=
  literal.sign.text ++ (literal.whole ++ (literal.fraction.elim [] ('.' :: ·) ++ literal.tail))

def text (literal : Decimal) : List Char :=
  List.replicate literal.leading ' ' ++ literal.body

/-- The digits of the mantissa. -/
def digits (literal : Decimal) : List Char := literal.whole ++ literal.fraction.getD []

/-- The literal without its point and exponent. -/
def mantissa (literal : Decimal) : Int := literal.sign.apply (digitsNumber literal.digits)

/-- The power of ten that the mantissa is to be multiplied with. -/
def scale (literal : Decimal) : Int :=
  literal.exponent.elim 0 ExponentText.value - (literal.fraction.getD []).length

/-- The number that the literal denotes. -/
def value (literal : Decimal) : ℚ := literal.mantissa * 10 ^ literal.scale

/-- The exponent passes the test against `SHORT_LIMIT`. -/
def ShortExponent (literal : Decimal) : Prop :=
  ∀ exponent ∈ literal.exponent, (digitsNumber exponent.digits : Int) < short_limit

end Decimal

/-! ## Digits -/

theorem digit_le {c : Char} (is_digit : isDigit c = true) : digit c ≤ 9 := by
  rw [isDigit, Bool.and_eq_true, decide_eq_true_eq, decide_eq_true_eq] at is_digit
  have upper : c.toNat ≤ '9'.toNat := is_digit.2
  have nine : '9'.toNat = 57 := rfl
  have zero : '0'.toNat = 48 := rfl
  rw [digit]
  omega

theorem toNat_eq {c : Char} (is_digit : isDigit c = true) : c.toNat = digit c + 48 := by
  rw [isDigit, Bool.and_eq_true, decide_eq_true_eq, decide_eq_true_eq] at is_digit
  have lower : '0'.toNat ≤ c.toNat := is_digit.1
  have zero : '0'.toNat = 48 := rfl
  rw [digit]
  omega

theorem digitsNumber_concat (text : List Char) (c : Char) :
    digitsNumber (text ++ [c]) = digitsNumber text * 10 + digit c := by
  rw [digitsNumber, List.map_append, List.map_singleton, number_concat, digitsNumber]

theorem digitsNumber_le_append (front back : List Char) :
    digitsNumber front ≤ digitsNumber (front ++ back) := by
  rw [digitsNumber, digitsNumber, List.map_append, number_append]
  exact (Nat.le_mul_of_pos_right _ (Nat.pow_pos (by decide))).trans (Nat.le_add_right _ _)

/-- One more digit makes at least ten times the number. -/
theorem ten_mul_digitsNumber_le (front back : List Char) (nonempty : back ≠ []) :
    digitsNumber front * 10 ≤ digitsNumber (front ++ back) := by
  obtain ⟨c, rest, rfl⟩ := List.exists_cons_of_ne_nil nonempty
  have one := digitsNumber_concat front c
  have more := digitsNumber_le_append (front ++ [c]) rest
  rw [List.append_assoc, List.singleton_append] at more
  omega

/-! ## The loop over the mantissa -/

theorem ok_bind {α β : Type} (value : α) (next : α → Except CvtError β) :
    ((Except.ok value : Except CvtError α) >>= next) = next value := rfl

/-- The greatest number that fits the type behind a sign. -/
def bound (dtype : ExactType) (sign : Sign) : Nat :=
  if sign = .minus then 2 ^ (dtype.bits - 1) else 2 ^ (dtype.bits - 1) - 1

theorem fits_apply_iff (dtype : ExactType) (sign : Sign) (number : Nat) :
    dtype.Fits (sign.apply number) ↔ number ≤ bound dtype sign := by
  cases dtype <;> cases sign <;>
    simp only [ExactType.Fits, ExactType.bits, Sign.apply, bound, reduceCtorEq, if_true, if_false] <;>
    omega

/-- The variables behind a sign and digits, of which the given number are behind a point. -/
def Mantissa.reading (sign : Sign) (digits : List Char) (fraction : Option Nat) : Mantissa where
  value := ExactType.int64.wrap (digitsNumber digits)
  scale := -(fraction.getD 0 : Nat)
  sign := sign.code
  digit_seen := !digits.isEmpty
  fraction := fraction.isSome

/-- The value has not reached the least one of 64 bits, where the test lets every digit pass. -/
def Clear (dtype : ExactType) (sign : Sign) (digits : List Char) : Prop :=
  dtype = .int64 → sign = .minus → digitsNumber digits ≠ 2 ^ 63

theorem pushed_eq {sign : Sign} {digits : List Char} {fraction : Option Nat} {c : Char}
    (is_digit : isDigit c = true)
    (value_eq : ExactType.int64.wrap (digitsNumber digits) = digitsNumber digits)
    (room : fraction.getD 0 < 2 ^ 15) :
    let state := Mantissa.reading sign digits fraction
    { state with
      digit_seen := true
      value := ExactType.int64.wrap (state.value * 10 + c.toNat - '0'.toNat)
      scale := if state.fraction then ExactType.short.wrap (state.scale - 1) else state.scale } =
      Mantissa.reading sign (digits ++ [c]) (fraction.map (· + 1)) := by
  have zero : '0'.toNat = 48 := rfl
  have number_eq : (digitsNumber digits : Int) * 10 + c.toNat - '0'.toNat =
      digitsNumber (digits ++ [c]) := by
    rw [digitsNumber_concat, toNat_eq is_digit]
    push_cast
    omega
  simp only [Mantissa.reading, value_eq, number_eq, Mantissa.mk.injEq, true_and]
  cases fraction with
  | none => simp
  | some count =>
      have count_lt : count < 2 ^ 15 := room
      have fits : ExactType.short.Fits (-(count : Int) - 1) := by
        simp only [ExactType.Fits, ExactType.bits]
        omega
      have scale_eq : -(count : Int) - 1 = -((count + 1 : Nat) : Int) := by omega
      simp only [Option.getD_some, Option.isSome_some, if_true, Option.map_some,
        ExactType.wrap_of_fits fits]
      simp [scale_eq]

/-- A digit is taken in if the number still fits. -/
theorem push_reading {dtype : ExactType} (wide : dtype ≠ .short) {sign : Sign} {digits : List Char}
    {fraction : Option Nat} {c : Char} (is_digit : isDigit c = true)
    (fits : digitsNumber digits ≤ bound dtype sign) (clear : Clear dtype sign digits)
    (room : fraction.getD 0 < 2 ^ 15) :
    (Mantissa.reading sign digits fraction).push dtype c =
      if digitsNumber (digits ++ [c]) ≤ bound dtype sign then
        .ok (Mantissa.reading sign (digits ++ [c]) (fraction.map (· + 1)))
      else .error .outOfRange := by
  have value_eq : ExactType.int64.wrap (digitsNumber digits) = digitsNumber digits := by
    apply ExactType.wrap_of_fits
    cases dtype <;> cases sign <;>
      simp only [ExactType.Fits, ExactType.bits, bound, Clear, reduceCtorEq, if_true, if_false,
        forall_const, ne_eq] at * <;>
      omega
  have digit_le := digit_le is_digit
  have above {e : Char} : c > e ↔ e.toNat < digit c + 48 := by
    rw [← toNat_eq is_digit]
    rfl
  have eight : '8'.toNat = 56 := rfl
  have seven : '7'.toNat = 55 := rfl
  simp only [Mantissa.push, pushed_eq is_digit value_eq room, above, digitsNumber_concat, eight, seven]
  simp only [Mantissa.reading, value_eq]
  generalize digitsNumber digits = number at *
  cases dtype with
  | short => exact absurd rfl wide
  | long =>
      cases sign <;>
        simp only [bound, limit_by_10, upper_limit, ExactType.bits, Sign.code, reduceCtorEq, if_true,
          if_false, and_true, ne_eq, not_true, not_false_eq_true, and_false, or_false, false_or]
            at * <;>
        split_ifs <;> first | rfl | omega
  | int64 =>
      cases sign <;>
        simp only [bound, limit_by_10, upper_limit, ExactType.bits, Sign.code, reduceCtorEq, if_true,
          if_false, and_true, ne_eq, not_true, not_false_eq_true, and_false, or_false, false_or]
            at * <;>
        split_ifs <;> first | rfl | omega

/-- No digit is read behind the least value of 64 bits. -/
def Runs (dtype : ExactType) (sign : Sign) (seen digits : List Char) : Prop :=
  ∀ front back, digits = front ++ back → back ≠ [] → Clear dtype sign (seen ++ front)

theorem Runs.head {dtype : ExactType} {sign : Sign} {seen rest : List Char} {c : Char}
    (runs : Runs dtype sign seen (c :: rest)) : Clear dtype sign seen := by
  have clear := runs [] (c :: rest) rfl (List.cons_ne_nil _ _)
  rwa [List.append_nil] at clear

theorem Runs.tail {dtype : ExactType} {sign : Sign} {seen rest : List Char} {c : Char}
    (runs : Runs dtype sign seen (c :: rest)) : Runs dtype sign (seen ++ [c]) rest := by
  intro front back split nonempty
  have clear := runs (c :: front) back (by rw [split, List.cons_append]) nonempty
  rwa [List.append_assoc, List.singleton_append]

/-- A number that fits never goes past the least value. -/
theorem Runs.of_fits {dtype : ExactType} {sign : Sign} {seen digits : List Char}
    (fits : digitsNumber (seen ++ digits) ≤ bound dtype sign) : Runs dtype sign seen digits := by
  rintro front back rfl nonempty rfl rfl least
  have greater := ten_mul_digitsNumber_le (seen ++ front) back nonempty
  rw [List.append_assoc] at greater
  simp only [bound, ExactType.bits, if_true] at fits
  omega

theorem scanMantissa_digits {dtype : ExactType} (wide : dtype ≠ .short) {sign : Sign}
    {seen digits : List Char} {fraction : Option Nat} (is_digits : IsDigits digits)
    (fits : digitsNumber seen ≤ bound dtype sign) (runs : Runs dtype sign seen digits)
    (room : ∀ count ∈ fraction, count + digits.length ≤ 2 ^ 15) (rest : List Char) :
    scanMantissa dtype (digits ++ rest) (.reading sign seen fraction) =
      if digitsNumber (seen ++ digits) ≤ bound dtype sign then
        scanMantissa dtype rest
          (.reading sign (seen ++ digits) (fraction.map (· + digits.length)))
      else .error .outOfRange := by
  induction digits generalizing seen fraction with
  | nil =>
      rw [List.append_nil, if_pos fits, List.nil_append, List.length_nil]
      cases fraction <;> rfl
  | cons c digits ih =>
      have is_digit := is_digits c List.mem_cons_self
      have below : fraction.getD 0 < 2 ^ 15 := by
        cases fraction with
        | none => decide
        | some count =>
            have count_le := room count rfl
            rw [List.length_cons] at count_le
            rw [Option.getD_some]
            omega
      have step := push_reading wide is_digit fits runs.head below
      rw [List.cons_append, scanMantissa, if_pos is_digit, step]
      have split : seen ++ c :: digits = seen ++ [c] ++ digits := by simp
      by_cases fits_next : digitsNumber (seen ++ [c]) ≤ bound dtype sign
      · have rest_digits : IsDigits digits := fun d member =>
          is_digits d (List.mem_cons_of_mem _ member)
        have rest_room : ∀ count ∈ fraction.map (· + 1), count + digits.length ≤ 2 ^ 15 := by
          intro count member
          obtain ⟨before, before_mem, rfl⟩ := Option.mem_map.mp member
          have before_le := room before before_mem
          rw [List.length_cons] at before_le
          omega
        have rest_eq := ih rest_digits fits_next runs.tail rest_room
        rw [if_pos fits_next, split, List.length_cons]
        have counts : (fraction.map (· + 1)).map (· + digits.length) =
            fraction.map (· + (digits.length + 1)) := by
          cases fraction with
          | none => rfl
          | some count => exact congrArg some (Nat.add_right_comm count 1 digits.length)
        rw [counts] at rest_eq
        rw [ok_bind, rest_eq]
      · have grows := digitsNumber_le_append (seen ++ [c]) digits
        rw [if_neg fits_next, split, if_neg (fun fits => fits_next (grows.trans fits))]
        rfl

@[simp]
theorem scanMantissa_sign (dtype : ExactType) (sign : Sign) (rest : List Char) :
    scanMantissa dtype (sign.text ++ rest) (.reading .absent [] none) =
      scanMantissa dtype rest (.reading sign [] none) := by
  cases sign with
  | absent => rfl
  | plus => rfl
  | minus => rfl

theorem scanMantissa_point (dtype : ExactType) (sign : Sign) (seen rest : List Char) :
    scanMantissa dtype ('.' :: rest) (.reading sign seen none) =
      scanMantissa dtype rest (.reading sign seen (some 0)) := rfl

theorem skipSpaces_replicate (count : Nat) (rest : List Char) :
    skipSpaces (List.replicate count ' ' ++ rest) = skipSpaces rest := by
  induction count with
  | zero => rfl
  | succ count ih =>
      rw [List.replicate_succ, List.cons_append, skipSpaces, List.dropWhile_cons_of_pos (by decide)]
      exact ih

theorem scanMantissa_spaces (dtype : ExactType) (state : Mantissa) (count : Nat) :
    scanMantissa dtype (List.replicate count ' ') state = .ok (state, []) := by
  cases count with
  | zero => rfl
  | succ count =>
      have skipped := skipSpaces_replicate count []
      rw [List.append_nil] at skipped
      have is_digit : ¬isDigit ' ' = true := by decide
      rw [List.replicate_succ, scanMantissa, if_neg is_digit]
      simp only [skipped, Char.reduceEq, false_and, if_false, false_or]
      rfl

theorem scanMantissa_exponent (dtype : ExactType) (state : Mantissa) (exponent : ExponentText)
    (rest : List Char) :
    scanMantissa dtype (exponent.text ++ rest) state = .ok (state, exponent.text ++ rest) := by
  obtain ⟨marker, sign, digits, marker_e, is_digits, nonempty⟩ := exponent
  rcases marker_e with rfl | rfl
  · simp [ExponentText.text, scanMantissa, isDigit]
  · simp [ExponentText.text, scanMantissa, isDigit]

namespace Decimal

/-- What the loop over the mantissa leaves of the text. -/
def rest (literal : Decimal) : List Char := literal.exponent.elim [] fun _ => literal.tail

/-- The variables behind the mantissa. -/
def read (literal : Decimal) : Mantissa :=
  .reading literal.sign literal.digits (literal.fraction.map List.length)

theorem scanMantissa_tail (literal : Decimal) (dtype : ExactType) (state : Mantissa) :
    scanMantissa dtype literal.tail state = .ok (state, literal.rest) := by
  rw [tail, rest]
  rcases exponent_eq : literal.exponent with _ | exponent
  · exact scanMantissa_spaces dtype state literal.trailing
  · rw [Option.elim_some, Option.elim_some, tail, exponent_eq, Option.elim_some]
    exact scanMantissa_exponent dtype state exponent _

theorem scanMantissa_body {dtype : ExactType} (wide : dtype ≠ .short) (literal : Decimal)
    (runs : Runs dtype literal.sign [] literal.digits)
    (room : (literal.fraction.getD []).length ≤ 2 ^ 15) :
    scanMantissa dtype literal.body ⟨0, 0, 0, false, false⟩ =
      if digitsNumber literal.digits ≤ bound dtype literal.sign then
        .ok (literal.read, literal.rest)
      else .error .outOfRange := by
  have start : (⟨0, 0, 0, false, false⟩ : Mantissa) = .reading .absent [] none := rfl
  have whole_runs : Runs dtype literal.sign [] literal.whole := by
    rintro front back whole_eq nonempty
    refine runs front (back ++ literal.fraction.getD []) ?_ (by simp [nonempty])
    rw [digits, whole_eq, List.append_assoc]
  have no_count : ∀ count ∈ (none : Option Nat), count + literal.whole.length ≤ 2 ^ 15 := nofun
  have whole_scan := scanMantissa_digits wide literal.whole_digits (Nat.zero_le _) whole_runs
    no_count (literal.fraction.elim [] ('.' :: ·) ++ literal.tail)
  rw [List.nil_append] at whole_scan
  rw [start, body, scanMantissa_sign, whole_scan, digits, read, digits]
  rcases fraction_eq : literal.fraction with _ | fraction
  · rw [Option.getD_none, List.append_nil]
    split_ifs
    · exact literal.scanMantissa_tail dtype _
    · rfl
  · have fraction_runs : Runs dtype literal.sign literal.whole fraction := by
      rintro front back split nonempty
      refine runs (literal.whole ++ front) back ?_ nonempty
      rw [digits, fraction_eq, Option.getD_some, split, List.append_assoc]
    have fraction_digits := literal.fraction_digits
    rw [fraction_eq, Option.getD_some] at fraction_digits room
    by_cases whole_fits : digitsNumber literal.whole ≤ bound dtype literal.sign
    · have zero_count : ∀ count ∈ some 0, count + fraction.length ≤ 2 ^ 15 := by
        intro count member
        obtain rfl := Option.mem_some.mp member
        rwa [Nat.zero_add]
      have scan := scanMantissa_digits wide fraction_digits whole_fits fraction_runs zero_count
        literal.tail
      rw [if_pos whole_fits, Option.elim_some, List.cons_append]
      refine (scanMantissa_point ..).trans (scan.trans ?_)
      rw [scanMantissa_tail, Option.getD_some, Option.map_some, Option.map_some, Nat.zero_add]
    · have grows := digitsNumber_le_append literal.whole fraction
      rw [if_neg whole_fits, Option.getD_some, if_neg (fun fits => whole_fits (grows.trans fits))]

end Decimal

/-- The sign is put in front of the value, unless it is the least one already. -/
theorem signed_eq {dtype : ExactType} (wide : dtype ≠ .short) {sign : Sign} {number : Nat}
    (fits : number ≤ bound dtype sign) :
    (if sign.code = -1 ∧ ExactType.int64.wrap number ≠ lower_limit dtype then
        -ExactType.int64.wrap number
      else ExactType.int64.wrap number) = sign.apply number := by
  have bound_le : bound dtype sign ≤ if sign = .minus then 2 ^ 63 else 2 ^ 63 - 1 := by
    cases dtype <;> cases sign <;> decide
  have lower_neg : lower_limit dtype < 0 := by cases dtype <;> decide
  by_cases least : number = 2 ^ 63
  · have minus : sign = .minus := by
      by_contra other
      rw [if_neg other] at bound_le
      omega
    have int64 : dtype = .int64 := by
      cases dtype with
      | short => exact absurd rfl wide
      | long =>
          rw [minus, least] at fits
          exact absurd fits (by decide)
      | int64 => rfl
    rw [least, minus, int64]
    decide
  · have fits64 : ExactType.int64.Fits number := by
      simp only [ExactType.Fits, ExactType.bits]
      split at bound_le <;> omega
    rw [ExactType.wrap_of_fits fits64]
    have not_lower : (number : Int) ≠ lower_limit dtype := by omega
    cases sign with
    | absent => simp [Sign.code, Sign.apply]
    | plus => simp [Sign.code, Sign.apply]
    | minus => simp [Sign.code, Sign.apply, not_lower]

/-! ## The loop over the exponent -/

/-- The variables behind a sign and digits of the exponent. -/
def Exponent.reading (sign : Sign) (digits : List Char) : Exponent where
  exp := digitsNumber digits
  sign := sign.code
  digit_seen := !digits.isEmpty

theorem scanExponent_digits {sign : Sign} {seen digits : List Char} (is_digits : IsDigits digits)
    (short : (digitsNumber seen : Int) < short_limit) (rest : List Char) :
    scanExponent (digits ++ rest) (.reading sign seen) =
      if (digitsNumber (seen ++ digits) : Int) < short_limit then
        scanExponent rest (.reading sign (seen ++ digits))
      else .error .outOfRange := by
  induction digits generalizing seen with
  | nil => rw [List.append_nil, if_pos short, List.nil_append]
  | cons c digits ih =>
      have is_digit := is_digits c List.mem_cons_self
      have rest_digits : IsDigits digits := fun d member =>
        is_digits d (List.mem_cons_of_mem _ member)
      have digit_le := digit_le is_digit
      have zero : '0'.toNat = 48 := rfl
      have limit_eq : short_limit = 3276 := rfl
      have exp_eq : (digitsNumber seen : Int) * 10 + c.toNat - '0'.toNat =
          digitsNumber (seen ++ [c]) := by
        rw [digitsNumber_concat, toNat_eq is_digit]
        push_cast
        omega
      have fits : ExactType.short.Fits (digitsNumber (seen ++ [c])) := by
        rw [digitsNumber_concat]
        simp only [ExactType.Fits, ExactType.bits]
        omega
      have split : seen ++ c :: digits = seen ++ [c] ++ digits := by simp
      rw [List.cons_append, scanExponent, if_pos is_digit]
      simp only [Exponent.reading, exp_eq, ExactType.wrap_of_fits fits]
      by_cases next_short : (digitsNumber (seen ++ [c]) : Int) < short_limit
      · have rest_eq := ih rest_digits next_short
        have seen_flag : (!(seen ++ [c]).isEmpty) = true := by simp
        rw [Exponent.reading, seen_flag] at rest_eq
        rw [if_neg (not_le.mpr next_short), split]
        exact rest_eq
      · have grows := digitsNumber_le_append (seen ++ [c]) digits
        rw [if_pos (not_lt.mp next_short), split, if_neg (by omega)]

theorem scanExponent_sign (sign : Sign) (rest : List Char) :
    scanExponent (sign.text ++ rest) ⟨0, 0, false⟩ = scanExponent rest (.reading sign []) := by
  cases sign with
  | absent => rfl
  | plus => rfl
  | minus => rfl

theorem scanExponent_spaces (state : Exponent) (count : Nat) :
    scanExponent (List.replicate count ' ') state = .ok state := by
  cases count with
  | zero => rfl
  | succ count =>
      have skipped := skipSpaces_replicate count []
      rw [List.append_nil] at skipped
      have is_digit : ¬isDigit ' ' = true := by decide
      rw [List.replicate_succ, scanExponent, if_neg is_digit]
      simp only [skipped, Char.reduceEq, false_and, if_false]
      rfl

/-- The scale with the exponent, where it fits. -/
theorem applyExponent_text (scale : Int) (exponent : ExponentText) (count : Nat)
    (fits : (digitsNumber exponent.digits : Int) < short_limit →
      ExactType.short.Fits (scale + exponent.value)) :
    applyExponent scale (exponent.sign.text ++ exponent.digits ++ List.replicate count ' ') =
      if (digitsNumber exponent.digits : Int) < short_limit then .ok (scale + exponent.value)
      else .error .outOfRange := by
  have zero_short : (digitsNumber [] : Int) < short_limit := by decide
  have digits_scan := @scanExponent_digits exponent.sign [] exponent.digits exponent.is_digits
    zero_short (List.replicate count ' ')
  rw [applyExponent, List.append_assoc, scanExponent_sign, digits_scan, List.nil_append]
  by_cases short : (digitsNumber exponent.digits : Int) < short_limit
  · have signed : (if exponent.sign.code = -1 then scale - digitsNumber exponent.digits
        else scale + digitsNumber exponent.digits) = scale + exponent.value := by
      rw [ExponentText.value]
      cases exponent.sign <;> simp [Sign.code, Sign.apply, Int.sub_eq_add_neg]
    have digit_seen : (!exponent.digits.isEmpty) = true := by
      simp [exponent.nonempty]
    rw [if_pos short, if_pos short, scanExponent_spaces, ok_bind]
    simp only [Exponent.reading, signed, ExactType.wrap_of_fits (fits short), digit_seen]
    rfl
  · rw [if_neg short, if_neg short]
    rfl

/-! ## The literal -/

namespace Decimal

/-- The literal stays clear of the slips: no digit follows the least value of 64 bits, and the scale
fits its variable before and behind the exponent. -/
structure Regular (dtype : ExactType) (literal : Decimal) : Prop where
  runs : Runs dtype literal.sign [] literal.digits
  fraction_fits : (literal.fraction.getD []).length ≤ 2 ^ 15
  scale_fits : literal.ShortExponent → ExactType.short.Fits literal.scale

/-- The mantissa fits the type, and the exponent passes its test. -/
def Admissible (dtype : ExactType) (literal : Decimal) : Prop :=
  dtype.Fits literal.mantissa ∧ literal.ShortExponent

theorem decomposeDecimal_body {dtype : ExactType} (wide : dtype ≠ .short) {literal : Decimal}
    (regular : literal.Regular dtype) :
    (literal.Admissible dtype →
      decomposeDecimal dtype literal.body = .ok (literal.mantissa, literal.scale)) ∧
    (¬literal.Admissible dtype → decomposeDecimal dtype literal.body = .error .outOfRange) := by
  have scan := literal.scanMantissa_body wide regular.runs regular.fraction_fits
  have digit_seen : literal.read.digit_seen = true := by
    have nonempty : literal.digits ≠ [] := literal.digit_seen
    simp [read, Mantissa.reading, nonempty]
  rw [decomposeDecimal, scan, Admissible, mantissa, fits_apply_iff]
  by_cases fits : digitsNumber literal.digits ≤ bound dtype literal.sign
  · have signed := signed_eq wide fits
    have read_scale : literal.read.scale = -((literal.fraction.getD []).length : Int) := by
      rw [read, Mantissa.reading]
      cases literal.fraction <;> rfl
    rw [if_pos fits, ok_bind]
    simp only [digit_seen, Bool.not_true, Bool.false_eq_true, if_false]
    rcases exponent_eq : literal.exponent with _ | exponent
    · have short : literal.ShortExponent := by simp [ShortExponent, exponent_eq]
      have scale_eq : literal.read.scale = literal.scale := by
        rw [read_scale, scale, exponent_eq, Option.elim_none, Int.zero_sub]
      refine ⟨fun _ => ?_, fun other => absurd ⟨fits, short⟩ other⟩
      simp only [rest, exponent_eq, Option.elim_none, scale_eq]
      exact congrArg (fun value => Except.ok (value, literal.scale)) signed
    · have short_iff : literal.ShortExponent ↔ (digitsNumber exponent.digits : Int) < short_limit := by
        simp [ShortExponent, exponent_eq]
      have scale_eq : literal.read.scale + exponent.value = literal.scale := by
        rw [read_scale, scale, exponent_eq, Option.elim_some]
        ring
      have applied := applyExponent_text literal.read.scale exponent literal.trailing
        (fun short => scale_eq ▸ regular.scale_fits (short_iff.mpr short))
      have rest_eq : literal.rest = exponent.marker ::
          (exponent.sign.text ++ exponent.digits ++ List.replicate literal.trailing ' ') := by
        rw [rest, exponent_eq, Option.elim_some, tail, exponent_eq, Option.elim_some]
        rfl
      simp only [rest_eq, applied, scale_eq]
      constructor
      · rintro ⟨-, short⟩
        rw [if_pos (short_iff.mp short)]
        exact congrArg (fun value => Except.ok (value, literal.scale)) signed
      · intro other
        rw [if_neg (fun short => other ⟨fits, short_iff.mpr short⟩)]
        rfl
  · rw [if_neg fits]
    exact ⟨fun admissible => absurd admissible.1 fits, fun _ => rfl⟩

end Decimal

/-! ## The start of the text -/

theorem skipSpaces_of_head {text : List Char} (head : text.head? ≠ some ' ') :
    skipSpaces text = text := by
  cases text with
  | nil => rfl
  | cons c rest =>
      rw [skipSpaces, List.dropWhile_cons_of_neg]
      simpa using head

/-- The characters of a decimal literal. -/
def IsPlain (c : Char) : Prop :=
  isDigit c = true ∨ c = '+' ∨ c = '-' ∨ c = '.' ∨ c = 'e' ∨ c = 'E' ∨ c = ' '

theorem IsPlain.upper_ne {c : Char} (plain : IsPlain c) : upper c ≠ 'X' := by
  rcases plain with is_digit | rfl | rfl | rfl | rfl | rfl | rfl
  · have digit_le := digit_le is_digit
    have digit_eq := toNat_eq is_digit
    have not_lower : ¬('a' ≤ c ∧ c ≤ 'z') := by
      rintro ⟨above, -⟩
      have above_nat : 'a'.toNat ≤ c.toNat := above
      have letter : 'a'.toNat = 97 := rfl
      omega
    rw [upper, if_neg not_lower]
    rintro rfl
    exact absurd is_digit (by decide)
  all_goals decide

theorem hexPrefix_of_plain {text : List Char} (plain : ∀ c ∈ text, IsPlain c) :
    hexPrefix text = false := by
  rw [hexPrefix]
  rcases second : text[1]? with _ | c
  · simp
  · have member : c ∈ text := List.mem_of_getElem? second
    have upper_ne := (plain c member).upper_ne
    simp [upper_ne]

namespace Decimal

theorem body_plain (literal : Decimal) : ∀ c ∈ literal.body, IsPlain c := by
  have digit_plain {digits : List Char} (is_digits : IsDigits digits) : ∀ c ∈ digits, IsPlain c :=
    fun c member => Or.inl (is_digits c member)
  have sign_plain (sign : Sign) : ∀ c ∈ sign.text, IsPlain c := by
    cases sign <;> simp [Sign.text, IsPlain]
  have exponent_plain (exponent : ExponentText) : ∀ c ∈ exponent.text, IsPlain c := by
    intro c member
    rcases List.mem_cons.mp member with rfl | member
    · rcases exponent.marker_e with marker | marker <;> simp [IsPlain, marker]
    · rcases List.mem_append.mp member with member | member
      · exact sign_plain _ c member
      · exact digit_plain exponent.is_digits c member
  intro c member
  simp only [body, tail, List.mem_append] at member
  rcases member with member | member | member | member | member
  · exact sign_plain _ c member
  · exact digit_plain literal.whole_digits c member
  · have fraction_digits := literal.fraction_digits
    rcases fraction_eq : literal.fraction with _ | fraction
    · simp [fraction_eq] at member
    · rw [fraction_eq, Option.elim_some] at member
      rw [fraction_eq, Option.getD_some] at fraction_digits
      rcases List.mem_cons.mp member with rfl | member
      · simp [IsPlain]
      · exact digit_plain fraction_digits c member
  · rcases exponent_eq : literal.exponent with _ | exponent
    · simp [exponent_eq] at member
    · rw [exponent_eq, Option.elim_some] at member
      exact exponent_plain exponent c member
  · obtain rfl := List.eq_of_mem_replicate member
    simp [IsPlain]

theorem body_head (literal : Decimal) : literal.body.head? ≠ some ' ' := by
  have digit_seen := literal.digit_seen
  have digit_ne {c : Char} (is_digit : isDigit c = true) : c ≠ ' ' := by
    rintro rfl
    exact absurd is_digit (by decide)
  rw [body]
  rcases sign_eq : literal.sign with _ | _ | _
  · rcases whole_eq : literal.whole with _ | ⟨c, whole⟩
    · rcases fraction_eq : literal.fraction with _ | fraction
      · simp [whole_eq, fraction_eq] at digit_seen
      · simp [Sign.text]
    · have is_digit := literal.whole_digits c (by simp [whole_eq])
      simpa [Sign.text] using digit_ne is_digit
  · simp [Sign.text]
  · simp [Sign.text]

/-- A regular literal is accepted if and only if it is admissible, and then for what it denotes. -/
theorem decompose_text {dtype : ExactType} (wide : dtype ≠ .short) {literal : Decimal}
    (regular : literal.Regular dtype) (memory : List Char) :
    (literal.Admissible dtype →
      decompose dtype literal.text memory = .ok (literal.mantissa, literal.scale)) ∧
    (¬literal.Admissible dtype → decompose dtype literal.text memory = .error .outOfRange) := by
  have skipped : skipSpaces literal.text = literal.body := by
    rw [text, skipSpaces_replicate, skipSpaces_of_head literal.body_head]
  have not_hex := hexPrefix_of_plain literal.body_plain
  rw [decompose, skipped]
  simp only [not_hex, Bool.false_eq_true, if_false]
  exact decomposeDecimal_body wide regular

end Decimal

end Cvt
end Firebird
