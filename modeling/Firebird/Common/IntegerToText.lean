import Mathlib
import Firebird.Common.DecomposeDecimal

/-!
# Text of an integer

`integer_to_text` writes the digits of an integer with a sign, a point and zeros.  What it writes is a
decimal literal, and `CVT_decompose` reads the integer and its scale back.
-/

namespace Firebird
namespace Cvt

/-- The types of a target of text. -/
inductive TextType where
  | text
  | cstring
  | varying
  deriving DecidableEq, Repr

/-- A descriptor of a target of text. -/
structure TextTarget where
  dsc_dtype : TextType
  dsc_length : Nat

/-- The callbacks that a conversion uses. -/
structure Callbacks where
  /-- `validateLength`, which ends the conversion of a text that has too many characters. -/
  validateLength : Nat → List Char → Except CvtError Unit
  /-- The character that fills up a text of the target's character set. -/
  pad : Char

/-- What a target holds. -/
structure WrittenText where
  /-- The length that was checked against the one of the target. -/
  length : Nat
  /-- The characters written before the text is finished by its type. -/
  written : List Char
  /-- The characters behind them. -/
  finish : List Char
  deriving DecidableEq, Repr

/-- The value of an `FB_UINT64` variable. -/
def toUInt64 (value : Int) : Nat := (value % 2 ^ 64).toNat

/-- The digits of a number, the last one first. -/
def digitLoop (u : Nat) : List Char :=
  Char.ofNat (u % 10 + '0'.toNat) :: if u / 10 = 0 then [] else digitLoop (u / 10)
termination_by u
decreasing_by omega

/-- The loop that adds leading zeros: at least `abs(scale) + 1` digits are needed. -/
def addZeros (scale : Int) (temp : List Char) : List Char :=
  if temp.length + scale ≤ 0 then addZeros scale (temp ++ ['0']) else temp
termination_by (1 - scale - temp.length).toNat
decreasing_by
  rw [List.length_append, List.length_singleton]
  omega

/-- The text fits the target. -/
def Room (to_dsc : TextTarget) (length : Nat) : Bool :=
  match to_dsc.dsc_dtype with
  | .text => length ≤ to_dsc.dsc_length
  | .cstring => length < to_dsc.dsc_length
  | .varying => length ≤ to_dsc.dsc_length - 2

/-- The sign and the digits of the number, with a point if one is required. -/
def formatNumber (scale : Int) (neg : Nat) (temp : List Char) : List Char :=
  let sign := if neg = 1 then ['-'] else []
  if scale ≥ 0 then sign ++ temp.reverse
  else
    let l := (temp.length + scale).toNat
    sign ++ (temp.reverse.take l ++ '.' :: (temp.reverse.drop l).take (-scale).toNat)

/-- What stands behind the characters: padding, if the type is fixed, or a zero. -/
def finishText (to_dsc : TextTarget) (cb : Callbacks) (length : Nat) : List Char :=
  match to_dsc.dsc_dtype with
  | .text => List.replicate (to_dsc.dsc_length - length) cb.pad
  | .cstring => ['\x00']
  | .varying => []

/-- `integer_to_text`. -/
def integer_to_text (from_dsc : Exact) (to_dsc : TextTarget) (cb : Callbacks) :
    Except CvtError WrittenText := do
  let scale := from_dsc.dsc_scale
  let pad_count := if scale > 0 then scale.toNat else 0
  let decimal := if scale < 0 then 1 else 0
  let n ← get_int64 from_dsc scale
  let neg := if n ≥ 0 then 0 else 1
  let u := if n ≥ 0 then toUInt64 n else toUInt64 (ExactType.int64.wrap (-n))
  let temp := addZeros scale (digitLoop u)
  let length := (temp.length + neg + decimal + pad_count) % 2 ^ 16
  if !Room to_dsc length then .error .conversion
  else
    let number := formatNumber scale neg temp
    cb.validateLength length number
    let written := number ++ List.replicate pad_count '0'
    return ⟨length, written, finishText to_dsc cb length⟩

/-! ## Digits -/

theorem isDigit_ofNat {d : Nat} (small : d ≤ 9) :
    isDigit (Char.ofNat (d + '0'.toNat)) = true ∧ digit (Char.ofNat (d + '0'.toNat)) = d := by
  interval_cases d <;> decide

theorem digitLoop_digits (u : Nat) : IsDigits (digitLoop u).reverse := by
  induction u using Nat.strong_induction_on with
  | _ u ih =>
      have small : u % 10 ≤ 9 := by omega
      have last := isDigit_ofNat small
      rw [digitLoop, List.reverse_cons]
      intro c member
      rcases List.mem_append.mp member with member | member
      · by_cases done : u / 10 = 0
        · simp [done] at member
        · rw [if_neg done] at member
          exact ih (u / 10) (by omega) c member
      · rw [List.mem_singleton.mp member]
        exact last.1

theorem digitsNumber_digitLoop (u : Nat) : digitsNumber (digitLoop u).reverse = u := by
  induction u using Nat.strong_induction_on with
  | _ u ih =>
      have small : u % 10 ≤ 9 := by omega
      have last := isDigit_ofNat small
      rw [digitLoop, List.reverse_cons, digitsNumber_concat, last.2]
      by_cases done : u / 10 = 0
      · rw [if_pos done]
        have nil_eq : digitsNumber ([] : List Char).reverse = 0 := rfl
        omega
      · rw [if_neg done, ih (u / 10) (by omega)]
        omega

theorem length_digitLoop_le {u size : Nat} (less : u < 10 ^ (size + 1)) :
    (digitLoop u).length ≤ size + 1 := by
  induction size generalizing u with
  | zero =>
      rw [digitLoop, if_pos (by omega)]
      exact Nat.le_refl 1
  | succ size ih =>
      rw [digitLoop, List.length_cons]
      split
      · exact Nat.succ_le_succ (Nat.zero_le _)
      · refine Nat.succ_le_succ (ih ?_)
        rw [Nat.pow_succ] at less
        omega

theorem digitLoop_ne_nil (u : Nat) : digitLoop u ≠ [] := by
  rw [digitLoop]
  exact List.cons_ne_nil _ _

/-- The zeros make the digits reach in front of the point. -/
theorem addZeros_eq (scale : Int) (temp : List Char) :
    addZeros scale temp = temp ++ List.replicate (1 - scale - temp.length).toNat '0' := by
  induction missing : (1 - scale - temp.length).toNat generalizing temp with
  | zero => rw [addZeros, if_neg (by omega), List.replicate_zero, List.append_nil]
  | succ count ih =>
      have one_less : (1 - scale - (temp ++ ['0']).length).toNat = count := by
        rw [List.length_append, List.length_singleton]
        omega
      rw [addZeros, if_pos (by omega), ih _ one_less, List.append_assoc, List.singleton_append,
        List.replicate_succ]

/-- The digits of the text, the first one first. -/
def textDigits (scale : Int) (u : Nat) : List Char := (addZeros scale (digitLoop u)).reverse

theorem textDigits_eq (scale : Int) (u : Nat) :
    textDigits scale u =
      List.replicate (1 - scale - (digitLoop u).length).toNat '0' ++ (digitLoop u).reverse := by
  rw [textDigits, addZeros_eq, List.reverse_append, List.reverse_replicate]

theorem textDigits_digits (scale : Int) (u : Nat) : IsDigits (textDigits scale u) := by
  intro c member
  rw [textDigits_eq] at member
  rcases List.mem_append.mp member with zero | digit
  · rw [List.eq_of_mem_replicate zero]
    decide
  · exact digitLoop_digits u c digit

theorem digitsNumber_textDigits (scale : Int) (u : Nat) :
    digitsNumber (textDigits scale u) = u := by
  rw [textDigits_eq, digitsNumber, List.map_append, List.map_replicate]
  exact (Positional.number_zeros_append _ _).trans (digitsNumber_digitLoop u)

/-- One digit at least stands in front of the point. -/
theorem length_textDigits (scale : Int) (u : Nat) :
    1 - scale ≤ (textDigits scale u).length ∧ 1 ≤ (textDigits scale u).length := by
  have nonempty := List.length_pos_iff.mpr (digitLoop_ne_nil u)
  rw [textDigits_eq, List.length_append, List.length_replicate, List.length_reverse]
  omega

theorem length_textDigits_le {scale : Int} (least : -128 ≤ scale) {u : Nat} (fits : u < 2 ^ 64) :
    (textDigits scale u).length ≤ 129 := by
  have short := length_digitLoop_le (fits.trans (show 2 ^ 64 < 10 ^ (19 + 1) by decide))
  rw [textDigits_eq, List.length_append, List.length_replicate, List.length_reverse]
  omega

/-! ## The text as a literal -/

/-- The digits in front of the point. -/
def textWhole (scale : Int) (u : Nat) : List Char :=
  let digits := textDigits scale u
  if scale < 0 then digits.take (digits.length + scale).toNat else digits

/-- The digits behind the point. -/
def textFraction (scale : Int) (u : Nat) : Option (List Char) :=
  let digits := textDigits scale u
  if scale < 0 then some (digits.drop (digits.length + scale).toNat) else none

variable {scale : Int}

theorem textWhole_append (u : Nat) :
    textWhole scale u ++ (textFraction scale u).getD [] = textDigits scale u := by
  rw [textWhole, textFraction]
  split
  · rw [Option.getD_some, List.take_append_drop]
  · rw [Option.getD_none, List.append_nil]

/-- The literal that is written for a number. -/
def textLiteral (scale : Int) (sign : Sign) (u trailing : Nat) : Decimal where
  leading := 0
  sign := sign
  whole := textWhole scale u
  fraction := textFraction scale u
  exponent := none
  trailing := trailing
  whole_digits c member :=
    textDigits_digits scale u c (textWhole_append u ▸ List.mem_append_left _ member)
  fraction_digits c member :=
    textDigits_digits scale u c (textWhole_append u ▸ List.mem_append_right _ member)
  digit_seen := by
    rw [textWhole_append]
    exact List.length_pos_iff.mp (length_textDigits scale u).2

theorem textLiteral_digits (sign : Sign) (u trailing : Nat) :
    (textLiteral scale sign u trailing).digits = textDigits scale u := textWhole_append u

theorem length_textFraction (nonpos : scale ≤ 0) (u : Nat) :
    (((textFraction scale u).getD []).length : Int) = -scale := by
  have enough := (length_textDigits scale u).1
  rw [textFraction]
  split
  · rw [Option.getD_some, List.length_drop]
    omega
  · rw [Option.getD_none, List.length_nil]
    omega

theorem textLiteral_scale (nonpos : scale ≤ 0) (sign : Sign) (u trailing : Nat) :
    (textLiteral scale sign u trailing).scale = scale := by
  have length_eq := length_textFraction nonpos u
  change (0 : Int) - ((textFraction scale u).getD []).length = scale
  omega

/-- The characters of the number are those of the literal. -/
theorem formatNumber_eq (nonpos : scale ≤ 0) (sign : Sign) (u trailing : Nat)
    {neg : Nat} (sign_eq : sign.text = if neg = 1 then ['-'] else []) :
    formatNumber scale neg (addZeros scale (digitLoop u)) ++ List.replicate trailing ' ' =
      (textLiteral scale sign u trailing).text := by
  have enough := (length_textDigits scale u).1
  have length_eq : (addZeros scale (digitLoop u)).length = (textDigits scale u).length := by
    rw [textDigits, List.length_reverse]
  rw [formatNumber, ← sign_eq, length_eq, ← textDigits, Decimal.text, Decimal.body, Decimal.tail]
  simp only [textLiteral, textWhole, textFraction, List.replicate_zero, List.nil_append,
    Option.elim_none]
  by_cases negative : scale < 0
  · have drop_length : ((textDigits scale u).drop
        ((textDigits scale u).length + scale).toNat).length ≤ (-scale).toNat := by
      rw [List.length_drop]
      omega
    rw [if_neg (by omega), if_pos negative, if_pos negative, Option.elim_some,
      List.take_of_length_le drop_length]
    simp only [List.append_assoc, List.cons_append]
  · rw [if_pos (by omega), if_neg negative, if_neg negative, Option.elim_none]
    simp only [List.append_assoc, List.nil_append]

/-- The literal reads as its number and scale. -/
theorem decompose_textLiteral (nonpos : scale ≤ 0) (least : -128 ≤ scale) {sign : Sign} {u : Nat}
    (fits : ExactType.int64.Fits (sign.apply u)) (trailing : Nat) (memory : List Char) :
    decompose .int64 (textLiteral scale sign u trailing).text memory =
      .ok (sign.apply u, scale) := by
  have digits_eq := @textLiteral_digits scale sign u trailing
  have scale_eq := textLiteral_scale nonpos sign u trailing
  have fraction_length := length_textFraction nonpos u
  have mantissa_eq : (textLiteral scale sign u trailing).mantissa = sign.apply u := by
    rw [Decimal.mantissa, digits_eq, digitsNumber_textDigits]
    rfl
  have no_exponent : (textLiteral scale sign u trailing).ShortExponent := by
    intro exponent absent
    cases absent
  have regular : (textLiteral scale sign u trailing).Regular .int64 := by
    refine ⟨?_, ?_, ?_⟩
    · apply Runs.of_fits
      rw [List.nil_append, digits_eq, digitsNumber_textDigits]
      exact (fits_apply_iff .int64 sign u).mp fits
    · change ((textFraction scale u).getD []).length ≤ 2 ^ 15
      omega
    · intro _
      rw [scale_eq]
      simp only [ExactType.Fits, ExactType.bits]
      omega
  have admissible : (textLiteral scale sign u trailing).Admissible .int64 := by
    rw [Decimal.Admissible, mantissa_eq]
    exact ⟨fits, no_exponent⟩
  rw [((Decimal.decompose_text (by decide) regular memory).1 admissible), mantissa_eq, scale_eq]

/-- The number has as many characters as are checked. -/
theorem length_formatNumber (nonpos : scale ≤ 0) {neg : Nat} (neg_le : neg ≤ 1) (u : Nat) :
    (formatNumber scale neg (addZeros scale (digitLoop u))).length =
      (addZeros scale (digitLoop u)).length + neg + if scale < 0 then 1 else 0 := by
  have enough := (length_textDigits scale u).1
  rw [textDigits, List.length_reverse] at enough
  have sign_length : (if neg = 1 then ['-'] else []).length = neg := by
    interval_cases neg <;> rfl
  rw [formatNumber]
  by_cases negative : scale < 0
  · rw [if_neg (by omega), if_pos negative]
    simp only [List.length_append, List.length_cons, List.length_take, List.length_drop,
      List.length_reverse, sign_length]
    omega
  · rw [if_pos (by omega), if_neg negative, List.length_append, List.length_reverse, sign_length]
    omega

theorem toUInt64_natAbs {n : Int} (fits : ExactType.int64.Fits n) :
    (if n ≥ 0 then toUInt64 n else toUInt64 (ExactType.int64.wrap (-n))) = n.natAbs := by
  simp only [ExactType.Fits, ExactType.bits, toUInt64, ExactType.wrap] at fits ⊢
  norm_num at fits ⊢
  split_ifs <;> omega

/-- The text that is written for a descriptor. -/
theorem integer_to_text_eq (from_dsc : Exact) (nonpos : from_dsc.dsc_scale ≤ 0)
    (to_dsc : TextTarget) (cb : Callbacks) :
    let neg := if from_dsc.value ≥ 0 then 0 else 1
    let number := formatNumber from_dsc.dsc_scale neg
      (addZeros from_dsc.dsc_scale (digitLoop from_dsc.value.natAbs))
    integer_to_text from_dsc to_dsc cb =
      if !Room to_dsc number.length then .error .conversion
      else do
        cb.validateLength number.length number
        return ⟨number.length, number, finishText to_dsc cb number.length⟩ := by
  intro neg number
  have fits : ExactType.int64.Fits from_dsc.value := from_dsc.value_fits.int64
  have neg_le : neg ≤ 1 := by
    change (if from_dsc.value ≥ 0 then 0 else 1) ≤ 1
    split <;> decide
  have small : from_dsc.value.natAbs < 2 ^ 64 := by
    simp only [ExactType.Fits, ExactType.bits] at fits
    omega
  have number_length : number.length = _ := length_formatNumber nonpos neg_le _
  have digits_le := length_textDigits_le from_dsc.scale_fits.1 small
  rw [textDigits, List.length_reverse] at digits_le
  have length_eq : ((addZeros from_dsc.dsc_scale (digitLoop from_dsc.value.natAbs)).length +
      (if from_dsc.value ≥ 0 then 0 else 1) + (if from_dsc.dsc_scale < 0 then 1 else 0) + 0) %
        2 ^ 16 = number.length := by
    change ((addZeros from_dsc.dsc_scale (digitLoop from_dsc.value.natAbs)).length + neg +
      (if from_dsc.dsc_scale < 0 then 1 else 0) + 0) % 2 ^ 16 = number.length
    rw [number_length, Nat.add_zero, Nat.mod_eq_of_lt]
    split <;> omega
  rw [integer_to_text, get_int64_same, ok_bind]
  simp only [toUInt64_natAbs fits, if_neg (not_lt.mpr nonpos), length_eq]
  simp only [List.replicate_zero, List.append_nil]
  rfl

/-- The length that is checked is the one of the characters that are written.  They read back as the
value and its scale, and so does a text that is filled up with spaces. -/
theorem decompose_integer_to_text (from_dsc : Exact) (nonpos : from_dsc.dsc_scale ≤ 0)
    (to_dsc : TextTarget) (cb : Callbacks) :
    ∃ number : List Char,
      (integer_to_text from_dsc to_dsc cb =
        if !Room to_dsc number.length then .error .conversion
        else do
          cb.validateLength number.length number
          return ⟨number.length, number, finishText to_dsc cb number.length⟩) ∧
      ∀ memory,
        decompose .int64 number memory = .ok (from_dsc.value, from_dsc.dsc_scale) ∧
          (to_dsc.dsc_dtype = .text → cb.pad = ' ' →
            decompose .int64 (number ++ finishText to_dsc cb number.length) memory =
              .ok (from_dsc.value, from_dsc.dsc_scale)) := by
  have fits : ExactType.int64.Fits from_dsc.value := from_dsc.value_fits.int64
  let sign : Sign := if from_dsc.value ≥ 0 then .absent else .minus
  have sign_eq : sign.text = if (if from_dsc.value ≥ 0 then 0 else 1) = 1 then ['-'] else [] := by
    change (if from_dsc.value ≥ 0 then Sign.absent else .minus).text = _
    split <;> rfl
  have apply_eq : sign.apply from_dsc.value.natAbs = from_dsc.value := by
    change (if from_dsc.value ≥ 0 then Sign.absent else .minus).apply _ = _
    split <;> simp only [Sign.apply, reduceCtorEq, if_true, if_false] <;> omega
  have reads (memory : List Char) (trailing : Nat) : decompose .int64
      (formatNumber from_dsc.dsc_scale (if from_dsc.value ≥ 0 then 0 else 1)
        (addZeros from_dsc.dsc_scale (digitLoop from_dsc.value.natAbs)) ++
          List.replicate trailing ' ') memory = .ok (from_dsc.value, from_dsc.dsc_scale) := by
    have fits_signed : ExactType.int64.Fits (sign.apply from_dsc.value.natAbs) := by
      rwa [apply_eq]
    rw [formatNumber_eq nonpos sign _ trailing sign_eq,
      decompose_textLiteral nonpos from_dsc.scale_fits.1 fits_signed, apply_eq]
  refine ⟨_, integer_to_text_eq from_dsc nonpos to_dsc cb, fun memory => ⟨?_, ?_⟩⟩
  · have plain := reads memory 0
    rwa [List.replicate_zero, List.append_nil] at plain
  · intro text spaces
    rw [finishText, text, spaces]
    exact reads memory _

/-- The least value of a `short` in units of 10⁻⁷. -/
theorem decompose_integer_to_text_least :
    let from_dsc : Exact := ⟨.short, -32768, -7, by decide, by decide⟩
    let cb : Callbacks := ⟨fun _ _ => .ok (), ' '⟩
    ∃ number : List Char,
      (integer_to_text from_dsc ⟨.text, 12⟩ cb =
        if !Room ⟨.text, 12⟩ number.length then .error .conversion
        else do
          cb.validateLength number.length number
          return ⟨number.length, number, finishText ⟨.text, 12⟩ cb number.length⟩) ∧
      ∀ memory,
        decompose .int64 number memory = .ok (-32768, -7) ∧
          (TextType.text = .text → cb.pad = ' ' →
            decompose .int64 (number ++ finishText ⟨.text, 12⟩ cb number.length) memory =
              .ok (-32768, -7)) := by
  intro from_dsc cb
  exact decompose_integer_to_text from_dsc (by decide) ⟨.text, 12⟩ cb

end Cvt
end Firebird
