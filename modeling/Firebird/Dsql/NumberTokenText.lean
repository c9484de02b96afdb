import Firebird.Common.IntegerToText
import Firebird.Dsql.NumberTokenExact

/-!
# Numbers read by two scanners

The scanner of the parser and `CVT_decompose` read numeric literals, and `integer_to_text` writes
them.  A literal that is an exact number to the parser is the same number to a conversion, and what
is written for an exact number is one token of the parser with its digits and its scale.
-/

namespace Firebird
namespace Parser

open Cvt

/-- The literal as a conversion reads it. -/
def NumericLiteral.decimal (literal : NumericLiteral) : Decimal where
  leading := 0
  sign := .absent
  whole := literal.whole
  fraction := literal.fraction
  exponent := literal.exponent
  trailing := 0
  whole_digits := literal.whole_digits
  fraction_digits := literal.fraction_digits
  digit_seen := literal.digit_seen

theorem NumericLiteral.decimal_text (literal : NumericLiteral) :
    literal.decimal.text = literal.text := by
  simp only [Decimal.text, Decimal.body, Decimal.tail, NumericLiteral.decimal, Sign.text,
    List.replicate_zero, List.nil_append, List.append_nil, NumericLiteral.text,
    NumericLiteral.mantissaText, List.append_assoc]

/-- A literal without an exponent whose digits and scale fit is read by a conversion. -/
theorem NumericLiteral.decompose_text {literal : NumericLiteral}
    (no_exponent : literal.exponent = none) (fits : literal.number ≤ 2 ^ 63 - 1)
    (scale_fits : literal.ScaleFits) (memory : List Char) :
    decompose .int64 literal.text memory = .ok (literal.number, literal.scale) := by
  have mantissa_eq : literal.decimal.mantissa = literal.number := rfl
  have scale_eq : literal.decimal.scale = literal.scale := by
    rw [Decimal.scale, NumericLiteral.decimal, no_exponent, NumericLiteral.scale]
    exact zero_sub _
  have short : literal.decimal.ShortExponent := by
    intro exponent present
    cases no_exponent.symm.trans present
  rw [NumericLiteral.ScaleFits] at scale_fits
  have regular : literal.decimal.Regular .int64 := by
    refine ⟨Runs.of_fits ?_, ?_, fun _ => ?_⟩
    · exact (fits_apply_iff .int64 .absent literal.number).mp (by
        simp only [Sign.apply, reduceCtorEq, if_false, ExactType.Fits, ExactType.bits]
        omega)
    · change (literal.fraction.getD []).length ≤ 2 ^ 15
      rw [NumericLiteral.scale] at scale_fits
      omega
    · rw [scale_eq]
      simp only [ExactType.Fits, ExactType.bits]
      omega
  have admissible : literal.decimal.Admissible .int64 := by
    refine ⟨?_, short⟩
    rw [mantissa_eq]
    simp only [ExactType.Fits, ExactType.bits]
    omega
  have read := (Decimal.decompose_text (by decide) regular memory).1 admissible
  rwa [literal.decimal_text, mantissa_eq, scale_eq] at read

/-- The digits that are written for a number, with the point. -/
def writtenLiteral (scale : Int) (u : Nat) : NumericLiteral where
  whole := textWhole scale u
  fraction := textFraction scale u
  exponent := none
  whole_digits := (textLiteral scale .absent u 0).whole_digits
  fraction_digits := (textLiteral scale .absent u 0).fraction_digits
  digit_seen := (textLiteral scale .absent u 0).digit_seen

variable {scale : Int}

theorem writtenLiteral_number (u : Nat) : (writtenLiteral scale u).number = u := by
  have digits_eq : (writtenLiteral scale u).digits = textDigits scale u := textWhole_append u
  rw [NumericLiteral.number, digits_eq, digitsNumber_textDigits]

theorem writtenLiteral_scale (nonpos : scale ≤ 0) (u : Nat) :
    (writtenLiteral scale u).scale = scale := by
  have length_eq := length_textFraction nonpos u
  change -(((textFraction scale u).getD []).length : Int) = scale
  omega

theorem formatNumber_written (nonpos : scale ≤ 0) (negative : Bool) (u : Nat) :
    formatNumber scale (if negative then 1 else 0) (addZeros scale (digitLoop u)) =
      (if negative then ['-'] else []) ++ (writtenLiteral scale u).text := by
  let sign : Sign := if negative then .minus else .absent
  have sign_eq : sign.text = if (if negative then 1 else 0) = 1 then ['-'] else [] := by
    cases negative <;> rfl
  have written := formatNumber_eq nonpos sign u 0 sign_eq
  rw [List.replicate_zero, List.append_nil] at written
  rw [written]
  simp only [Decimal.text, Decimal.body, Decimal.tail, textLiteral, writtenLiteral,
    List.replicate_zero, List.nil_append, List.append_nil, NumericLiteral.text,
    NumericLiteral.mantissaText, Option.elim_none, sign]
  cases negative <;> rfl

/-! ## The tokens -/

/-- The value and the scale that an exact token hands over. -/
def Token.exact : Token → Option (Nat × Int)
  | .number int32Val => some (int32Val, 0)
  | .number64Bit value scale => some (value, scale)
  | .scaledInt value scale => some (value, scale)
  | _ => none

theorem Token.exact_iff (literal : NumericLiteral) (token : Token) :
    token.exact = some (literal.number, literal.scale) ↔ token.Carries literal := by
  cases token with
  | number int32Val =>
      rw [Token.exact, Token.Carries, Option.some.injEq, Prod.mk.injEq, @eq_comm _ 0]
  | number64Bit | scaledInt =>
      simp only [Token.exact, Token.Carries, Option.some.injEq, Prod.mk.injEq]
  | limit64Int | limit64Number | float | decimal =>
      simp only [Token.exact, Token.Carries, reduceCtorEq]

/-- What an exact token hands over are the digits and the scale of the literal. -/
theorem Token.Fits.exact_eq {client_dialect : Nat} {literal : NumericLiteral} {token : Token}
    (fits : token.Fits client_dialect literal) {handed : Nat × Int}
    (exact_eq : token.exact = some handed) : handed = (literal.number, literal.scale) := by
  rcases fits.2.2 with carries | limit | holds
  · exact Option.some.inj (exact_eq.symm.trans ((Token.exact_iff literal token).mpr carries))
  · cases token with
    | number | number64Bit | scaledInt => cases limit
    | limit64Int | limit64Number | float | decimal => cases exact_eq
  · cases token with
    | number | number64Bit | scaledInt => cases holds
    | limit64Int | limit64Number | float | decimal => cases exact_eq

/-- A token that has an exponent is not exact. -/
theorem token_of_exponent {client_dialect : Nat} {text : List Char} {scan : Scan}
    (exp_digit : scan.have_exp_digit = true) :
    ∃ token, scan.token client_dialect text = some (token, false) ∧ token.exact = none := by
  rw [Scan.token, if_pos (Or.inl exp_digit)]
  split_ifs <;> exact ⟨_, rfl, rfl⟩

def hundredths : NumericLiteral where
  whole := ['1', '2']
  fraction := some ['5', '0']
  exponent := none
  whole_digits := by decide
  fraction_digits := by decide
  digit_seen := by decide

theorem leastShort_fits : ExactType.short.Fits (-2 ^ 15) := by decide

theorem sevenPlaces_fit : (-128 : Int) ≤ -7 ∧ (-7 : Int) ≤ 127 := by decide

/-- The least integer of 16 bits, with more places than it has digits. -/
def leastShort : Exact := ⟨.short, -2 ^ 15, -7, leastShort_fits, sevenPlaces_fit⟩

end Parser
end Firebird
