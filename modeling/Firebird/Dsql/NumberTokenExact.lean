import Firebird.Dsql.NumberToken

/-!
# Which numbers are exact

A numeric literal goes through the loop in three parts: the digits of the mantissa, which decide on
the overflow flags, then the point, then the exponent, which leaves the flags of the mantissa alone.
-/

namespace Firebird
namespace Parser

open Cvt

/-- A numeric literal: digits with a point before, between or behind them, and an exponent. -/
structure NumericLiteral where
  whole : List Char
  fraction : Option (List Char)
  exponent : Option ExponentText
  whole_digits : IsDigits whole
  fraction_digits : IsDigits (fraction.getD [])
  digit_seen : whole ++ fraction.getD [] ≠ []

namespace NumericLiteral

/-- The text of the mantissa. -/
def mantissaText (literal : NumericLiteral) : List Char :=
  literal.whole ++ literal.fraction.elim [] ('.' :: ·)

def text (literal : NumericLiteral) : List Char :=
  literal.mantissaText ++ literal.exponent.elim [] ExponentText.text

/-- The digits of the mantissa. -/
def digits (literal : NumericLiteral) : List Char := literal.whole ++ literal.fraction.getD []

/-- The digit string taken as an integer. -/
def number (literal : NumericLiteral) : Nat := digitsNumber literal.digits

/-- The number of digits behind the point, as a negative power of ten. -/
def scale (literal : NumericLiteral) : Int := -((literal.fraction.getD []).length : Int)

/-- The scale fits a signed byte. -/
def ScaleFits (literal : NumericLiteral) : Prop := -128 ≤ literal.scale ∧ literal.scale ≤ 127

instance (literal : NumericLiteral) : Decidable literal.ScaleFits :=
  inferInstanceAs (Decidable (_ ∧ _))

/-- What follows does not go on with the literal. -/
def Ends (literal : NumericLiteral) (rest : List Char) : Prop :=
  ∀ c ∈ rest.head?, isDigit c = false ∧
    (literal.exponent = none → c ≠ '.' ∧ c ≠ 'e' ∧ c ≠ 'E')

end NumericLiteral

/-- An integer or scaled integer with the digits and the scale of the literal. -/
def Token.Carries (literal : NumericLiteral) : Token → Prop
  | .number int32Val => int32Val = literal.number ∧ literal.scale = 0
  | .number64Bit value scale => value = literal.number ∧ scale = literal.scale
  | .scaledInt value scale => value = literal.number ∧ scale = literal.scale
  | _ => False

/-- The token of `2 ^ 63`, which is an integer of 64 bits behind a minus sign only. -/
def Token.IsLimit64 (literal : NumericLiteral) : Token → Prop
  | .limit64Int text => text = literal.text ∧ literal.scale = 0
  | .limit64Number text scale => text = literal.text ∧ scale = literal.scale
  | _ => False

/-- A float or decimal token with the text of the literal. -/
def Token.HoldsText (literal : NumericLiteral) : Token → Prop
  | .float text => text = literal.text
  | .decimal text => text = literal.text
  | _ => False

/-! ## One digit -/

section Digit

variable {scan : Scan} {c : Char}

theorem eight_le_iff (is_digit : isDigit c = true) : '8' ≤ c ↔ 8 ≤ digit c := by
  have value := toNat_eq is_digit
  have eight : '8'.toNat = 56 := rfl
  rw [Char.le_def, UInt32.le_iff_toNat_le]
  change '8'.toNat ≤ c.toNat ↔ _
  omega

theorem eq_eight_iff (is_digit : isDigit c = true) : c = '8' ↔ digit c = 8 := by
  have value := toNat_eq is_digit
  constructor
  · rintro rfl
    rfl
  · intro eight
    apply Char.toNat_inj.mp
    rw [value, eight]
    rfl

/-- The test of the loop foresees the overflow. -/
theorem overflows_iff (is_digit : isDigit c = true) :
    limit_by_10 ≤ scan.number ∧ (limit_by_10 < scan.number ∨ '8' ≤ c) ↔
      2 ^ 63 ≤ scan.number.toNat * 10 + digit c := by
  have limit_eq : limit_by_10.toNat = 922337203685477580 := rfl
  have small := digit_le is_digit
  rw [eight_le_iff is_digit, UInt64.le_iff_toNat_le, UInt64.lt_iff_toNat_lt, limit_eq]
  omega

theorem reaches_limit_iff (is_digit : isDigit c = true) :
    scan.number = limit_by_10 ∧ c = '8' ↔ scan.number.toNat * 10 + digit c = 2 ^ 63 := by
  have limit_eq : limit_by_10.toNat = 922337203685477580 := rfl
  have small := digit_le is_digit
  rw [eq_eight_iff is_digit, ← UInt64.toNat_inj, limit_eq]
  omega

theorem toNat_accumulated {number : UInt64} {digit : Nat}
    (small : number.toNat * 10 + digit < 2 ^ 63) :
    (number * 10 + UInt64.ofNat digit).toNat = number.toNat * 10 + digit := by
  have ten : (10 : UInt64).toNat = 10 := rfl
  rw [UInt64.toNat_add, UInt64.toNat_mul, UInt64.toNat_ofNat', ten]
  omega

end Digit

/-! ## The mantissa -/

/-- The loop is behind some digits of a mantissa, so many of them behind a point. -/
structure Mantissa (scan : Scan) (digits : List Char) (places : Nat) (pointed : Bool) : Prop where
  overflow : scan.have_overflow = decide (2 ^ 63 ≤ digitsNumber digits)
  positive : scan.positive_overflow = decide (digitsNumber digits = 2 ^ 63)
  number : digitsNumber digits < 2 ^ 63 → scan.number.toNat = digitsNumber digits
  seen : digits ≠ [] → scan.have_digit = true
  decimal : scan.have_decimal = pointed
  scale : scan.scale = -(places : Int)
  no_error : scan.have_error = false
  no_exp : scan.have_exp = false
  no_exp_sign : scan.have_exp_sign = false
  no_exp_digit : scan.have_exp_digit = false
  expVal : scan.expVal = 0
  expSign : scan.expSign = 1

theorem mantissa_start : Mantissa {} [] 0 false := by
  constructor <;> simp [digitsNumber]

variable {scan : Scan} {digits : List Char} {places : Nat} {pointed : Bool}

/-- A digit before the overflow: the number is exact, or the overflow is seen. -/
theorem pushDigit_before {c : Char} (is_digit : isDigit c = true)
    (room : scan.have_overflow = false) :
    scan.pushDigit c =
      { scan with
        have_digit := true
        have_overflow := decide (2 ^ 63 ≤ scan.number.toNat * 10 + digit c)
        positive_overflow :=
          decide (scan.number.toNat * 10 + digit c = 2 ^ 63) || scan.positive_overflow
        number :=
          if 2 ^ 63 ≤ scan.number.toNat * 10 + digit c then scan.number
          else scan.number * 10 + UInt64.ofNat (digit c)
        scale := if scan.have_decimal then scan.scale - 1 else scan.scale } := by
  have overflows := @overflows_iff scan c is_digit
  have reaches := @reaches_limit_iff scan c is_digit
  rw [Scan.pushDigit, Scan.checkOverflow, room]
  by_cases over_limit : 2 ^ 63 ≤ scan.number.toNat * 10 + digit c
  · simp only [Bool.not_false, if_true, if_pos (overflows.mpr over_limit), Scan.accumulate,
      Bool.not_true, Bool.false_eq_true, if_false, if_pos over_limit, decide_eq_true over_limit]
    by_cases exact_limit : scan.number.toNat * 10 + digit c = 2 ^ 63
    · simp only [if_pos (reaches.mpr exact_limit), decide_eq_true exact_limit, Bool.true_or]
      split <;> rfl
    · simp only [if_neg (mt reaches.mp exact_limit), decide_eq_false exact_limit, Bool.false_or]
      split <;> rfl
  · have below : ¬scan.number.toNat * 10 + digit c = 2 ^ 63 := by omega
    simp only [Bool.not_false, if_true, if_neg (mt overflows.mp over_limit), Scan.accumulate,
      if_neg over_limit, decide_eq_false over_limit, decide_eq_false below, Bool.false_or]
    split <;> rfl

/-- A digit behind the overflow: the number is not the limit any more. -/
theorem pushDigit_behind {c : Char} (full : scan.have_overflow = true) :
    scan.pushDigit c =
      { scan with
        positive_overflow := false
        scale := if scan.have_decimal then scan.scale - 1 else scan.scale } := by
  rw [Scan.pushDigit, Scan.checkOverflow, full]
  simp only [Bool.not_true, Bool.false_eq_true, if_false, Scan.accumulate]
  split <;> rfl

theorem Mantissa.pushDigit {c : Char} (mantissa : Mantissa scan digits places pointed)
    (is_digit : isDigit c = true) :
    Mantissa (scan.pushDigit c) (digits ++ [c]) (if pointed then places + 1 else places)
      pointed := by
  have value := digitsNumber_concat digits c
  have scale_eq : (if scan.have_decimal then scan.scale - 1 else scan.scale) =
      -((if pointed then places + 1 else places : Nat) : Int) := by
    rw [mantissa.decimal, mantissa.scale]
    split <;> omega
  by_cases full : 2 ^ 63 ≤ digitsNumber digits
  · have overflow : scan.have_overflow = true := by rw [mantissa.overflow, decide_eq_true full]
    rw [pushDigit_behind overflow]
    exact {
      overflow := by rw [overflow, decide_eq_true (by omega)]
      positive := (decide_eq_false (by omega)).symm
      number := fun small => by omega
      seen := fun _ => mantissa.seen (by rintro rfl; exact absurd full (by decide))
      decimal := mantissa.decimal
      scale := scale_eq
      no_error := mantissa.no_error
      no_exp := mantissa.no_exp
      no_exp_sign := mantissa.no_exp_sign
      no_exp_digit := mantissa.no_exp_digit
      expVal := mantissa.expVal
      expSign := mantissa.expSign }
  · have room : scan.have_overflow = false := by rw [mantissa.overflow, decide_eq_false full]
    have number_eq := mantissa.number (by omega)
    have negative : scan.positive_overflow = false := by
      rw [mantissa.positive, decide_eq_false (by omega)]
    rw [pushDigit_before is_digit room, number_eq, ← value, negative]
    exact {
      overflow := rfl
      positive := Bool.or_false _
      number := fun small => by
        rw [value] at small ⊢
        rw [← number_eq] at small ⊢
        rw [if_neg (by omega)]
        exact toNat_accumulated small
      seen := fun _ => rfl
      decimal := mantissa.decimal
      scale := scale_eq
      no_error := mantissa.no_error
      no_exp := mantissa.no_exp
      no_exp_sign := mantissa.no_exp_sign
      no_exp_digit := mantissa.no_exp_digit
      expVal := mantissa.expVal
      expSign := mantissa.expSign }

theorem Mantissa.turn_digit {c : Char} (mantissa : Mantissa scan digits places pointed)
    (is_digit : isDigit c = true) : scan.turn c = .next (scan.pushDigit c) := by
  have no_point : c ≠ '.' := by
    rintro rfl
    exact absurd is_digit (by decide)
  simp only [Scan.turn, mantissa.no_exp_digit, mantissa.no_exp_sign, mantissa.no_exp,
    Bool.false_and, Bool.false_eq_true, if_false, if_neg no_point, is_digit, if_true]

/-- The loop goes through digits. -/
theorem Mantissa.run_digits (mantissa : Mantissa scan digits places pointed) {more : List Char}
    (is_digits : IsDigits more) :
    ∃ scan', Mantissa scan' (digits ++ more) (if pointed then places + more.length else places)
        pointed ∧
      ∀ rest, scan.run (more ++ rest) = scan'.run rest := by
  induction more generalizing scan digits places with
  | nil =>
      refine ⟨scan, ?_, fun _ => rfl⟩
      rw [List.append_nil, List.length_nil, Nat.add_zero, ite_self]
      exact mantissa
  | cons c more ih =>
      have is_digit : isDigit c = true := is_digits c List.mem_cons_self
      obtain ⟨scan', behind, runs⟩ := ih (mantissa.pushDigit is_digit)
        fun other member => is_digits other (List.mem_cons_of_mem _ member)
      refine ⟨scan', ?_, fun rest => ?_⟩
      · have places_eq : (if pointed then (if pointed then places + 1 else places) + more.length
            else if pointed then places + 1 else places) =
            if pointed then places + (c :: more).length else places := by
          rw [List.length_cons]
          cases pointed <;> simp only [Bool.false_eq_true, if_false, if_true]
          omega
        rw [List.append_assoc, places_eq] at behind
        exact behind
      · rw [List.cons_append, Scan.run, mantissa.turn_digit is_digit]
        exact runs rest

theorem Mantissa.run_point (mantissa : Mantissa scan digits 0 false) :
    ∃ scan', Mantissa scan' digits 0 true ∧ ∀ rest, scan.run ('.' :: rest) = scan'.run rest := by
  refine ⟨{ scan with have_decimal := true }, ?_, fun rest => ?_⟩
  · exact {
      overflow := mantissa.overflow
      positive := mantissa.positive
      number := mantissa.number
      seen := mantissa.seen
      decimal := rfl
      scale := mantissa.scale
      no_error := mantissa.no_error
      no_exp := mantissa.no_exp
      no_exp_sign := mantissa.no_exp_sign
      no_exp_digit := mantissa.no_exp_digit
      expVal := mantissa.expVal
      expSign := mantissa.expSign }
  · have turn_eq : scan.turn '.' = .next { scan with have_decimal := true } := by
      simp only [Scan.turn, mantissa.no_exp_digit, mantissa.no_exp_sign, mantissa.no_exp,
        Bool.false_and, Bool.false_eq_true, if_false, if_true, mantissa.decimal, Bool.not_false]
    rw [Scan.run, turn_eq]

/-- The loop goes through the mantissa of a literal. -/
theorem run_mantissa (literal : NumericLiteral) :
    ∃ scan, Mantissa scan literal.digits (literal.fraction.getD []).length
        literal.fraction.isSome ∧
      ∀ rest, Scan.run {} (literal.mantissaText ++ rest) = scan.run rest := by
  obtain ⟨whole, behind_whole, runs_whole⟩ := mantissa_start.run_digits literal.whole_digits
  rw [List.nil_append] at behind_whole
  cases fraction_eq : literal.fraction with
  | none =>
      refine ⟨whole, ?_, fun rest => ?_⟩
      · rw [NumericLiteral.digits, fraction_eq]
        simpa using behind_whole
      · rw [NumericLiteral.mantissaText, fraction_eq]
        simpa using runs_whole rest
  | some fraction =>
      have fraction_digits : IsDigits fraction := by
        simpa [fraction_eq] using literal.fraction_digits
      obtain ⟨point, behind_point, runs_point⟩ := behind_whole.run_point
      obtain ⟨scan, behind, runs⟩ := behind_point.run_digits fraction_digits
      refine ⟨scan, ?_, fun rest => ?_⟩
      · rw [NumericLiteral.digits, fraction_eq]
        simpa using behind
      · have text_eq : literal.mantissaText ++ rest =
            literal.whole ++ ('.' :: (fraction ++ rest)) := by
          rw [NumericLiteral.mantissaText, fraction_eq]
          simp
        rw [text_eq, runs_whole, runs_point, runs]

/-- What follows a literal without an exponent ends the loop. -/
theorem Mantissa.run_end {rest : List Char} (mantissa : Mantissa scan digits places pointed)
    (ends : ∀ c ∈ rest.head?, isDigit c = false ∧ c ≠ '.' ∧ c ≠ 'e' ∧ c ≠ 'E') :
    scan.run rest = (scan, rest) := by
  cases rest with
  | nil => rfl
  | cons c rest =>
      obtain ⟨no_digit, no_point, no_small, no_capital⟩ := ends c rfl
      have no_exponent : ¬((c = 'E' ∨ c = 'e') ∧ scan.have_digit = true) := by
        rintro ⟨rfl | rfl, _⟩
        · exact no_capital rfl
        · exact no_small rfl
      have turn_eq : scan.turn c = .stop scan := by
        simp only [Scan.turn, mantissa.no_exp_digit, mantissa.no_exp_sign, mantissa.no_exp,
          Bool.false_and, Bool.false_eq_true, if_false, if_neg no_point, no_digit,
          if_neg no_exponent]
      rw [Scan.run, turn_eq]

/-! ## The exponent -/

/-- The loop is in the exponent of a literal; what the mantissa left is still there. -/
structure InExponent (scan behind : Scan) (digit_seen : Bool) : Prop where
  positive : behind.positive_overflow = scan.positive_overflow
  scale : behind.scale = scan.scale
  no_error : behind.have_error = false
  exp : behind.have_exp = true
  exp_digit : behind.have_exp_digit = digit_seen
  frozen : scan.have_overflow = true →
    behind.have_overflow = true ∧ behind.expVal = scan.expVal

variable {behind : Scan} {digit_seen : Bool}

theorem InExponent.run_digits (inside : InExponent scan behind digit_seen) {more : List Char}
    (is_digits : IsDigits more) :
    ∃ last, InExponent scan last (digit_seen || !more.isEmpty) ∧
      ∀ rest, behind.run (more ++ rest) = last.run rest := by
  induction more generalizing behind digit_seen with
  | nil =>
      refine ⟨behind, ?_, fun _ => rfl⟩
      simpa using inside
  | cons c more ih =>
      have is_digit : isDigit c = true := is_digits c List.mem_cons_self
      have pushed : InExponent scan (behind.pushExponent c) true := by
        rw [Scan.pushExponent]
        dsimp only
        cases full : behind.have_overflow with
        | true =>
            exact ⟨inside.positive, inside.scale, inside.no_error, inside.exp, rfl,
              fun overflow => ⟨rfl, (inside.frozen overflow).2⟩⟩
        | false =>
            exact ⟨inside.positive, inside.scale, inside.no_error, inside.exp, rfl,
              fun overflow => absurd (inside.frozen overflow).1 (by simp [full])⟩
      obtain ⟨last, inside_last, runs⟩ := ih pushed
        fun other member => is_digits other (List.mem_cons_of_mem _ member)
      refine ⟨last, by simpa using inside_last, fun rest => ?_⟩
      have no_sign : ¬(c = '-' ∨ c = '+') := by
        rintro (rfl | rfl) <;> exact absurd is_digit (by decide)
      have turn_eq : behind.turn c = .next (behind.pushExponent c) := by
        simp only [Scan.turn, is_digit, Bool.not_true, Bool.and_false, Bool.false_eq_true, if_false,
          inside.exp, if_true, if_neg no_sign]
      rw [List.cons_append, Scan.run, turn_eq]
      exact runs rest

theorem Mantissa.run_exponent (mantissa : Mantissa scan digits places pointed)
    (nonempty : digits ≠ []) (exponent : ExponentText) :
    ∃ last, InExponent scan last true ∧
      ∀ rest, scan.run (exponent.text ++ rest) = last.run rest := by
  have marked : InExponent scan { scan with have_exp := true } false :=
    ⟨rfl, rfl, mantissa.no_error, rfl, mantissa.no_exp_digit, fun full => ⟨full, rfl⟩⟩
  have marker_turn : scan.turn exponent.marker = .next { scan with have_exp := true } := by
    have seen := mantissa.seen nonempty
    rcases exponent.marker_e with marker | marker <;> rw [marker] <;>
      simp [Scan.turn, mantissa.no_exp_digit, mantissa.no_exp_sign, mantissa.no_exp, seen, isDigit]
  have signed : ∃ behind, InExponent scan behind false ∧
      ∀ rest, Scan.run { scan with have_exp := true } (exponent.sign.text ++ rest) =
        behind.run rest := by
    have sign_turn : ∀ c, c = '-' ∨ c = '+' →
        Scan.turn { scan with have_exp := true } c =
          .next (Scan.pushSign { scan with have_exp := true } c) := by
      rintro c (rfl | rfl) <;>
        simp [Scan.turn, mantissa.no_exp_digit, mantissa.no_exp_sign]
    cases exponent.sign with
    | absent => exact ⟨_, marked, fun _ => rfl⟩
    | plus =>
        refine ⟨Scan.pushSign { scan with have_exp := true } '+',
          ⟨rfl, rfl, mantissa.no_error, rfl, mantissa.no_exp_digit, fun full => ⟨full, rfl⟩⟩,
          fun rest => ?_⟩
        rw [Sign.text, List.singleton_append, Scan.run, sign_turn '+' (Or.inr rfl)]
    | minus =>
        refine ⟨Scan.pushSign { scan with have_exp := true } '-',
          ⟨rfl, rfl, mantissa.no_error, rfl, mantissa.no_exp_digit, fun full => ⟨full, rfl⟩⟩,
          fun rest => ?_⟩
        rw [Sign.text, List.singleton_append, Scan.run, sign_turn '-' (Or.inl rfl)]
  obtain ⟨behind, inside, runs_sign⟩ := signed
  obtain ⟨last, inside_last, runs⟩ := inside.run_digits exponent.is_digits
  have digits_seen : (false || !exponent.digits.isEmpty) = true := by
    simpa using exponent.nonempty
  rw [digits_seen] at inside_last
  refine ⟨last, inside_last, fun rest => ?_⟩
  rw [ExponentText.text, List.cons_append, List.append_assoc, Scan.run, marker_turn]
  exact (runs_sign _).trans (runs rest)

/-- The first character that is no digit ends the exponent. -/
theorem InExponent.run_end {rest : List Char} (inside : InExponent scan behind true)
    (ends : ∀ c ∈ rest.head?, isDigit c = false) : behind.run rest = (behind, rest) := by
  cases rest with
  | nil => rfl
  | cons c rest =>
      have turn_eq : behind.turn c = .stop behind := by
        simp [Scan.turn, inside.exp_digit, ends c rfl]
      rw [Scan.run, turn_eq]

/-! ## The kind of token -/

variable {tooLarge : UInt64 → Int → Bool} {client_dialect : Nat} {text : List Char}

/-- Whatever the exponent does, a limit that the mantissa has not reached is not reached, and one
out of the range of the scale is dropped. -/
theorem settle_positive (no_limit : scan.positive_overflow = true →
    scan.scale < -128 ∨ 127 < scan.scale) :
    (scan.settle tooLarge).positive_overflow = false := by
  rw [Scan.settle]
  cases positive : scan.positive_overflow with
  | true =>
      simp only [if_true, if_pos (no_limit positive), Bool.not_true, Bool.false_eq_true, false_and,
        if_false]
  | false =>
      simp only [Bool.false_eq_true, if_false]
      by_cases unfit : scan.scale < -128 ∨ 127 < scan.scale
      · simp only [if_pos unfit, Bool.not_true, Bool.false_eq_true, false_and, if_false]
      · simp only [if_neg unfit]
        split
        · split
          · rfl
          · exact positive
        · exact positive

/-- A limit that the mantissa has reached is kept, for the exponent is not looked at any more. -/
theorem settle_keeps_limit (positive : scan.positive_overflow = true)
    (fits : ¬(scan.scale < -128 ∨ 127 < scan.scale)) (unread : ¬-scan.scale < scan.expVal) :
    (scan.settle tooLarge).positive_overflow = true ∧
      (scan.settle tooLarge).scale = scan.scale := by
  rw [Scan.settle, positive]
  simp only [if_true, if_neg fits, Bool.not_false, unread, and_false, if_false, and_self]

theorem settle_exp_digit : (scan.settle tooLarge).have_exp_digit = scan.have_exp_digit := by
  rw [Scan.settle]
  dsimp only
  split_ifs <;> rfl

theorem token_of_exp_digit (exp_digit : scan.have_exp_digit = true)
    (no_limit : scan.positive_overflow = false) :
    scan.token client_dialect text = some (.decimal text, false) ∨
      scan.token client_dialect text = some (.float text, false) := by
  rw [Scan.token, if_pos (Or.inl exp_digit), no_limit]
  cases scan.have_overflow with
  | true => exact Or.inl rfl
  | false => exact Or.inr rfl

/-- The flags of a literal without an exponent, settled. -/
theorem Mantissa.settle_eq (mantissa : Mantissa scan digits places pointed) :
    scan.settle tooLarge =
      { scan with
        have_overflow := decide (2 ^ 63 < digitsNumber digits ∨ 128 < places)
        positive_overflow := decide (digitsNumber digits = 2 ^ 63 ∧ places ≤ 128) } := by
  have scale := mantissa.scale
  have unfit_iff : scan.scale < -128 ∨ 127 < scan.scale ↔ 128 < places := by omega
  have no_exponent : ¬(-scan.scale < scan.expVal) := by
    rw [mantissa.expVal]
    omega
  rw [Scan.settle]
  by_cases unfit : 128 < places
  · have dropped : ¬(digitsNumber digits = 2 ^ 63 ∧ places ≤ 128) := by omega
    have settled : scan.scale < -128 ∨ 127 < scan.scale := unfit_iff.mpr unfit
    simp only [decide_eq_true (Or.inr unfit : 2 ^ 63 < digitsNumber digits ∨ 128 < places),
      decide_eq_false dropped]
    cases scan.positive_overflow with
    | true =>
        simp only [if_true, if_pos settled, Bool.not_true, Bool.false_eq_true, false_and, if_false]
    | false =>
        simp only [Bool.false_eq_true, if_false, if_pos settled, Bool.not_true, false_and]
  · have settled : ¬(scan.scale < -128 ∨ 127 < scan.scale) := mt unfit_iff.mp unfit
    have places_le : places ≤ 128 := Nat.le_of_not_lt unfit
    by_cases limit : digitsNumber digits = 2 ^ 63
    · have positive : scan.positive_overflow = true := by
        rw [mantissa.positive, decide_eq_true limit]
      simp only [positive, if_true, if_neg settled, no_exponent, and_false, if_false]
      simp [limit, places_le, unfit]
    · have positive : scan.positive_overflow = false := by
        rw [mantissa.positive, decide_eq_false limit]
      have overflow : decide (2 ^ 63 < digitsNumber digits ∨ 128 < places) =
          scan.have_overflow := by
        rw [mantissa.overflow]
        exact decide_eq_decide.mpr (by omega)
      simp only [positive, Bool.false_eq_true, if_false, if_neg settled, no_exponent, and_false,
        overflow, limit, false_and, decide_false]
      rw [← positive]

/-! ## A literal in front of other text -/

theorem startsNumber_text (literal : NumericLiteral) (rest : List Char) :
    startsNumber (literal.text ++ rest) = true := by
  rw [NumericLiteral.text, NumericLiteral.mantissaText]
  cases whole_eq : literal.whole with
  | cons c whole =>
      have is_digit : isDigit c = true :=
        literal.whole_digits c (by rw [whole_eq]; exact List.mem_cons_self)
      simp [startsNumber, is_digit]
  | nil =>
      cases fraction_eq : literal.fraction with
      | none => exact absurd (by rw [whole_eq, fraction_eq]; rfl) literal.digit_seen
      | some fraction =>
          cases fraction with
          | nil => exact absurd (by rw [whole_eq, fraction_eq]; rfl) literal.digit_seen
          | cons c fraction =>
              have is_digit : isDigit c = true :=
                literal.fraction_digits c (by rw [fraction_eq]; exact List.mem_cons_self)
              simp [startsNumber, is_digit]

theorem take_text (text rest : List Char) :
    (text ++ rest).take ((text ++ rest).length - rest.length) = text := by
  rw [List.length_append, Nat.add_sub_cancel, List.take_left]

variable {literal : NumericLiteral} {rest : List Char}

/-- A literal without an exponent. -/
theorem yylexNumber_plain (no_exponent : literal.exponent = none) (ends : literal.Ends rest) :
    ∃ scan, Mantissa scan literal.digits (literal.fraction.getD []).length
        literal.fraction.isSome ∧
      yylexNumber client_dialect tooLarge (literal.text ++ rest) =
        ((scan.settle tooLarge).token client_dialect literal.text).map
          fun (token, warned) => ⟨token, rest, warned⟩ := by
  obtain ⟨scan, mantissa, runs⟩ := run_mantissa literal
  refine ⟨scan, mantissa, ?_⟩
  have text_eq : literal.text = literal.mantissaText := by
    rw [NumericLiteral.text, no_exponent]
    exact List.append_nil _
  have run_eq : Scan.run {} (literal.text ++ rest) = (scan, rest) := by
    rw [text_eq, runs]
    exact mantissa.run_end fun c member => ⟨(ends c member).1, (ends c member).2 no_exponent⟩
  rw [yylexNumber, if_pos (startsNumber_text literal rest), run_eq]
  dsimp only
  rw [mantissa.no_error, if_neg Bool.false_ne_true, take_text]

/-- A literal with an exponent. -/
theorem yylexNumber_exponent {exponent : ExponentText}
    (exponent_eq : literal.exponent = some exponent)
    (ends : literal.Ends rest) :
    ∃ scan last, Mantissa scan literal.digits (literal.fraction.getD []).length
        literal.fraction.isSome ∧ InExponent scan last true ∧
      yylexNumber client_dialect tooLarge (literal.text ++ rest) =
        ((last.settle tooLarge).token client_dialect literal.text).map
          fun (token, warned) => ⟨token, rest, warned⟩ := by
  obtain ⟨scan, mantissa, runs⟩ := run_mantissa literal
  obtain ⟨last, inside, runs_exponent⟩ := mantissa.run_exponent literal.digit_seen exponent
  refine ⟨scan, last, mantissa, inside, ?_⟩
  have text_eq : literal.text = literal.mantissaText ++ exponent.text := by
    rw [NumericLiteral.text, exponent_eq]
    rfl
  have run_eq : Scan.run {} (literal.text ++ rest) = (last, rest) := by
    rw [text_eq, List.append_assoc, runs, runs_exponent]
    exact inside.run_end fun c member => (ends c member).1
  rw [yylexNumber, if_pos (startsNumber_text literal rest), run_eq]
  dsimp only
  rw [inside.no_error, if_neg Bool.false_ne_true, take_text]

/-! ## No step wraps -/

theorem number_pushDigit {c : Char} (is_digit : isDigit c = true)
    (room : (scan.pushDigit c).have_overflow = false) :
    (scan.pushDigit c).number.toNat = scan.number.toNat * 10 + digit c := by
  cases full : scan.have_overflow with
  | true =>
      rw [pushDigit_behind full] at room
      exact absurd (full.symm.trans room) (by decide)
  | false =>
      rw [pushDigit_before is_digit full] at room ⊢
      have small : ¬2 ^ 63 ≤ scan.number.toNat * 10 + digit c := of_decide_eq_false room
      dsimp only
      rw [if_neg small]
      exact toNat_accumulated (Nat.lt_of_not_le small)

/-! ## The literal and its token -/

theorem scaleFits_iff : literal.ScaleFits ↔ (literal.fraction.getD []).length ≤ 128 := by
  rw [NumericLiteral.ScaleFits, NumericLiteral.scale]
  omega

/-- What the scanner is to make of a literal.  A client of dialect 1 has no exact numbers but the
integers of 32 bits. -/
def Token.Fits (client_dialect : Nat) (literal : NumericLiteral) (token : Token) : Prop :=
  (token.Carries literal ↔ literal.exponent = none ∧ literal.number ≤ 2 ^ 63 - 1 ∧
    literal.ScaleFits ∧
      (2 ≤ client_dialect ∨ literal.fraction = none ∧ literal.number ≤ 2147483647)) ∧
  (token.IsLimit64 literal ↔ literal.exponent = none ∧ literal.number = 2 ^ 63 ∧
    literal.ScaleFits) ∧
  (token.Carries literal ∨ token.IsLimit64 literal ∨ token.HoldsText literal)

theorem fits_of_exponent {exponent : ExponentText} {token : Token}
    (exponent_eq : literal.exponent = some exponent)
    (text_eq : token = .decimal literal.text ∨ token = .float literal.text) :
    token.Fits client_dialect literal := by
  have present : literal.exponent ≠ none := by rw [exponent_eq]; exact Option.some_ne_none _
  rcases text_eq with rfl | rfl <;>
    simp [Token.Fits, Token.Carries, Token.IsLimit64, Token.HoldsText, present]

theorem token_of_overflow (overflow : scan.have_overflow = true)
    (no_limit : scan.positive_overflow = false) :
    scan.token client_dialect text = some (.decimal text, false) := by
  rw [Scan.token, if_pos (Or.inr (Or.inl overflow)), no_limit, if_neg (by simp), if_neg (by simp),
    if_pos overflow]

theorem token_of_limit (limit : scan.positive_overflow = true) :
    scan.token client_dialect text =
      some (if scan.scale ≠ 0 then .limit64Number text scan.scale else .limit64Int text,
        false) := by
  rw [Scan.token, if_pos (Or.inr (Or.inr limit))]
  by_cases scaled : scan.scale ≠ 0
  · rw [if_pos ⟨limit, scaled⟩, if_pos scaled]
  · rw [if_neg fun both => scaled both.2, if_pos limit, if_neg scaled]

theorem token_of_integer (no_exp_digit : scan.have_exp_digit = false)
    (no_exp : scan.have_exp = false) (no_overflow : scan.have_overflow = false)
    (no_limit : scan.positive_overflow = false) :
    scan.token client_dialect text =
      if scan.have_decimal = false ∧ scan.number ≤ 2147483647 then
        some (.number scan.number.toNat, false)
      else if client_dialect < 2 then some (.float text, false)
      else if scan.have_decimal then
        some (.scaledInt scan.number.toNat scan.scale, client_dialect = 2)
      else some (.number64Bit scan.number.toNat scan.scale, client_dialect = 2) := by
  rw [Scan.token, no_exp_digit, no_exp, no_overflow, no_limit, if_neg (by simp), if_pos (by simp)]
  simp only [Bool.not_eq_true']

/-- An integer that fits, in each of the three places a literal of it can go to. -/
theorem Mantissa.token_of_fits
    (mantissa : Mantissa scan literal.digits (literal.fraction.getD []).length
      literal.fraction.isSome) (no_exponent : literal.exponent = none)
    (small : literal.number ≤ 2 ^ 63 - 1) (fits : literal.ScaleFits) :
    ∃ token warned,
      (scan.settle tooLarge).token client_dialect literal.text = some (token, warned) ∧
        token.Fits client_dialect literal := by
  have no_limit : literal.number ≠ 2 ^ 63 := by omega
  have places_le := scaleFits_iff.mp fits
  have large : ¬(2 ^ 63 < literal.number ∨ 128 < (literal.fraction.getD []).length) := by omega
  have limit : ¬(literal.number = 2 ^ 63 ∧ (literal.fraction.getD []).length ≤ 128) :=
    fun both => no_limit both.1
  have value_eq : scan.number.toNat = literal.number :=
    mantissa.number (show literal.number < 2 ^ 63 by omega)
  have in_long : scan.number ≤ 2147483647 ↔ literal.number ≤ 2147483647 := by
    rw [UInt64.le_iff_toNat_le, value_eq]
    rfl
  have scale_eq : scan.scale = literal.scale := mantissa.scale
  have integer := @token_of_integer
    { scan with have_overflow := false, positive_overflow := false } client_dialect literal.text
    mantissa.no_exp_digit mantissa.no_exp rfl rfl
  rw [mantissa.settle_eq, show digitsNumber literal.digits = literal.number from rfl,
    decide_eq_false large, decide_eq_false limit, integer]
  dsimp only
  rw [value_eq, scale_eq, mantissa.decimal]
  by_cases short : literal.fraction = none ∧ literal.number ≤ 2147483647
  · have scale_zero : literal.scale = 0 := by
      rw [NumericLiteral.scale, short.1]
      rfl
    rw [if_pos ⟨by rw [short.1]; rfl, in_long.mpr short.2⟩]
    exact ⟨_, _, rfl, ⟨fun _ => ⟨no_exponent, small, fits, Or.inr short⟩,
      fun _ => ⟨rfl, scale_zero⟩⟩, ⟨False.elim, fun other => no_limit other.2.1⟩,
      Or.inl ⟨rfl, scale_zero⟩⟩
  · have long : ¬(literal.fraction.isSome = false ∧ scan.number ≤ 2147483647) := by
      rw [in_long, Option.isSome_eq_false_iff, Option.isNone_iff_eq_none]
      exact short
    rw [if_neg long]
    by_cases old : client_dialect < 2
    · rw [if_pos old]
      refine ⟨_, _, rfl, ⟨False.elim, fun ⟨_, _, _, exact_kind⟩ => ?_⟩,
        ⟨False.elim, fun other => no_limit other.2.1⟩, Or.inr (Or.inr rfl)⟩
      rcases exact_kind with modern | short_again
      · omega
      · exact short short_again
    · have exact_kind : 2 ≤ client_dialect := Nat.le_of_not_lt old
      rw [if_neg old]
      split
      · exact ⟨_, _, rfl, ⟨fun _ => ⟨no_exponent, small, fits, Or.inl exact_kind⟩,
          fun _ => ⟨rfl, rfl⟩⟩, ⟨False.elim, fun other => no_limit other.2.1⟩, Or.inl ⟨rfl, rfl⟩⟩
      · exact ⟨_, _, rfl, ⟨fun _ => ⟨no_exponent, small, fits, Or.inl exact_kind⟩,
          fun _ => ⟨rfl, rfl⟩⟩, ⟨False.elim, fun other => no_limit other.2.1⟩, Or.inl ⟨rfl, rfl⟩⟩

/-- The token of a literal without an exponent. -/
theorem Mantissa.token_fits
    (mantissa : Mantissa scan literal.digits (literal.fraction.getD []).length
      literal.fraction.isSome) (no_exponent : literal.exponent = none) :
    ∃ token warned,
      (scan.settle tooLarge).token client_dialect literal.text = some (token, warned) ∧
        token.Fits client_dialect literal := by
  have number_eq : digitsNumber literal.digits = literal.number := rfl
  have fits_iff := @scaleFits_iff literal
  by_cases large : 2 ^ 63 < literal.number ∨ 128 < (literal.fraction.getD []).length
  · have no_limit : ¬(literal.number = 2 ^ 63 ∧ (literal.fraction.getD []).length ≤ 128) := by
      omega
    have not_exact : ¬(literal.number ≤ 2 ^ 63 - 1 ∧ literal.ScaleFits) := by
      rw [fits_iff]
      omega
    rw [mantissa.settle_eq, number_eq, decide_eq_true large, decide_eq_false no_limit,
      token_of_overflow rfl rfl]
    exact ⟨_, _, rfl, ⟨False.elim, fun ⟨_, small, fits, _⟩ => not_exact ⟨small, fits⟩⟩,
      ⟨False.elim, fun ⟨_, limit, fits⟩ => no_limit ⟨limit, fits_iff.mp fits⟩⟩,
      Or.inr (Or.inr rfl)⟩
  · have fits : literal.ScaleFits := fits_iff.mpr (by omega)
    have places_le := fits_iff.mp fits
    by_cases limit : literal.number = 2 ^ 63
    · have not_exact : ¬literal.number ≤ 2 ^ 63 - 1 := by omega
      have limited : (if literal.scale ≠ 0 then Token.limit64Number literal.text literal.scale
          else .limit64Int literal.text).IsLimit64 literal := by
        split
        · exact ⟨rfl, rfl⟩
        · rename_i unscaled
          exact ⟨rfl, not_not.mp unscaled⟩
      have no_integer : ¬(if literal.scale ≠ 0 then Token.limit64Number literal.text literal.scale
          else .limit64Int literal.text).Carries literal := by
        split <;> exact id
      rw [mantissa.settle_eq, number_eq, decide_eq_true (And.intro limit places_le),
        token_of_limit rfl]
      dsimp only
      rw [show scan.scale = literal.scale from mantissa.scale]
      exact ⟨_, _, rfl, ⟨fun carries => absurd carries no_integer,
        fun ⟨_, small, _⟩ => absurd small not_exact⟩,
        ⟨fun _ => ⟨no_exponent, limit, fits⟩, fun _ => limited⟩, Or.inr (Or.inl limited)⟩
    · exact mantissa.token_of_fits no_exponent (by omega) fits

def billions : NumericLiteral where
  whole := '3' :: List.replicate 9 '0'
  fraction := none
  exponent := none
  whole_digits := by decide
  fraction_digits := by decide
  digit_seen := by decide

/-- The digits `2 ^ 63` in front of an exponent: the flag that they set is still set behind the
exponent, and the token is the limit without its exponent. -/
theorem yylexNumber_limit {exponent : ExponentText} (exponent_eq : literal.exponent = some exponent)
    (limit : literal.number = 2 ^ 63) (fits : literal.ScaleFits) (ends : literal.Ends rest) :
    yylexNumber client_dialect tooLarge (literal.text ++ rest) =
      some ⟨if literal.scale ≠ 0 then .limit64Number literal.text literal.scale
        else .limit64Int literal.text, rest, false⟩ := by
  obtain ⟨scan, last, mantissa, inside, result⟩ := yylexNumber_exponent exponent_eq ends
  have places_le := scaleFits_iff.mp fits
  have overflow : scan.have_overflow = true := by
    rw [mantissa.overflow]
    exact decide_eq_true limit.ge
  have positive : last.positive_overflow = true := by
    rw [inside.positive, mantissa.positive]
    exact decide_eq_true limit
  have scale_eq : last.scale = literal.scale := inside.scale.trans mantissa.scale
  have scale_nonpos : literal.scale ≤ 0 := by
    rw [NumericLiteral.scale]
    omega
  have kept := @settle_keeps_limit last tooLarge positive
    (by rw [scale_eq]; exact fun unfit => by have := fits.1; have := fits.2; omega)
    (by rw [(inside.frozen overflow).2, mantissa.expVal, scale_eq]; omega)
  rw [result, token_of_limit kept.1, kept.2, scale_eq]
  rfl

end Parser
end Firebird
