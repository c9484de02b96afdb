import Firebird.Common.DecomposeDecimal

/-!
# Numbers in a statement

The part of `Parser::yylexAux` that recognizes a number.  The loop goes through the characters with
a handful of flags; what they say at its end decides on the kind of token.  `number` is an unsigned
variable of 64 bits.
-/

namespace Firebird
namespace Parser

open Cvt

/-- What the parser is given for a number. -/
inductive Token where
  /-- `TOK_NUMBER`, an integer of 32 bits. -/
  | number (int32Val : Nat)
  /-- `TOK_NUMBER64BIT`. -/
  | number64Bit (number : Nat) (scale : Int)
  /-- `TOK_SCALEDINT`. -/
  | scaledInt (number : Nat) (scale : Int)
  /-- `TOK_LIMIT64_INT`. -/
  | limit64Int (text : List Char)
  /-- `TOK_LIMIT64_NUMBER`. -/
  | limit64Number (text : List Char) (scale : Int)
  /-- `TOK_FLOAT_NUMBER`. -/
  | float (text : List Char)
  /-- `TOK_DECIMAL_NUMBER`. -/
  | decimal (text : List Char)
  deriving DecidableEq, Repr

/-- The variables of the loop. -/
structure Scan where
  have_error : Bool := false
  have_digit : Bool := false
  have_decimal : Bool := false
  have_exp : Bool := false
  have_exp_sign : Bool := false
  have_exp_digit : Bool := false
  have_overflow : Bool := false
  positive_overflow : Bool := false
  number : UInt64 := 0
  expVal : Int := 0
  scale : Int := 0
  expSign : Int := 1
  deriving DecidableEq, Repr

/-- `MAX_SINT64 / 10`. -/
def limit_by_10 : UInt64 := 9223372036854775807 / 10

def DBL_MAX_10_EXP : Int := 308

namespace Scan

/-- A digit of the mantissa: the overflow flags. -/
def checkOverflow (scan : Scan) (c : Char) : Scan :=
  if !scan.have_overflow then
    if limit_by_10 ≤ scan.number ∧ (limit_by_10 < scan.number ∨ '8' ≤ c) then
      { scan with
        have_digit := true
        have_overflow := true
        positive_overflow :=
          if scan.number = limit_by_10 ∧ c = '8' then true else scan.positive_overflow }
    else { scan with have_digit := true }
  else { scan with positive_overflow := false }

/-- A digit of the mantissa: the number. -/
def accumulate (scan : Scan) (c : Char) : Scan :=
  if !scan.have_overflow then { scan with number := scan.number * 10 + UInt64.ofNat (digit c) }
  else scan

/-- A digit of the mantissa. -/
def pushDigit (scan : Scan) (c : Char) : Scan :=
  let scan := (scan.checkOverflow c).accumulate c
  if scan.have_decimal then { scan with scale := scan.scale - 1 } else scan

/-- A digit of the exponent. -/
def pushExponent (scan : Scan) (c : Char) : Scan :=
  let scan := { scan with have_exp_digit := true, have_exp_sign := true }
  if !scan.have_overflow then
    let expVal := scan.expVal * 10 + (digit c : Int)
    { scan with expVal := expVal, have_overflow := DBL_MAX_10_EXP < expVal }
  else scan

/-- The sign of the exponent. -/
def pushSign (scan : Scan) (c : Char) : Scan :=
  { scan with have_exp_sign := true, expSign := if c = '-' then -1 else scan.expSign }

end Scan

/-- One turn of the loop goes on or breaks it off. -/
inductive Turn where
  | next (scan : Scan)
  | stop (scan : Scan)
  deriving DecidableEq, Repr

/-- One turn of the loop. -/
def Scan.turn (scan : Scan) (c : Char) : Turn :=
  if scan.have_exp_digit && !isDigit c then .stop scan
  else if scan.have_exp_sign && !isDigit c then .stop { scan with have_error := true }
  else if scan.have_exp then
    if c = '-' ∨ c = '+' then .next (scan.pushSign c)
    else if isDigit c then .next (scan.pushExponent c)
    else .stop { scan with have_error := true }
  else if c = '.' then
    if !scan.have_decimal then .next { scan with have_decimal := true }
    else .stop { scan with have_error := true }
  else if isDigit c then .next (scan.pushDigit c)
  else if (c = 'E' ∨ c = 'e') ∧ scan.have_digit then .next { scan with have_exp := true }
  else .stop scan

/-- The loop, and the text at `lex.ptr` behind it. -/
def Scan.run (scan : Scan) : List Char → Scan × List Char
  | [] => (scan, [])
  | c :: text =>
      match scan.turn c with
      | .next scan => scan.run text
      | .stop scan => (scan, c :: text)

/-- What the scanner hands over: the token, the text behind it, and whether a client of dialect 2 is
warned that the literal means different things in dialects 1 and 3. -/
structure Recognized where
  token : Token
  rest : List Char
  warned : Bool
  deriving DecidableEq, Repr

/-- The flags once the characters are done.  `tooLarge number expVal` stands for the comparison of
`double(number)` with `DBL_MAX / pow(10.0, expVal)`. -/
def Scan.settle (tooLarge : UInt64 → Int → Bool) (scan : Scan) : Scan :=
  let scan := if scan.positive_overflow then { scan with have_overflow := false } else scan
  let scan :=
    if scan.scale < -128 ∨ 127 < scan.scale then
      { scan with have_overflow := true, positive_overflow := false }
    else scan
  if !scan.have_overflow ∧ 0 < scan.expSign ∧ -scan.scale < scan.expVal then
    let scan := { scan with expVal := scan.expVal + scan.scale }
    if tooLarge scan.number scan.expVal then
      { scan with have_overflow := true, positive_overflow := false }
    else scan
  else scan

/-- The kind of token that fits the bill, for flags that are settled. -/
def Scan.token (client_dialect : Nat) (text : List Char) (scan : Scan) : Option (Token × Bool) :=
  if scan.have_exp_digit ∨ scan.have_overflow ∨ scan.positive_overflow then
    if scan.positive_overflow ∧ scan.scale ≠ 0 then some (.limit64Number text scan.scale, false)
    else if scan.positive_overflow then some (.limit64Int text, false)
    else if scan.have_overflow then some (.decimal text, false)
    else some (.float text, false)
  else if !scan.have_exp then
    if !scan.have_decimal ∧ scan.number ≤ 2147483647 then some (.number scan.number.toNat, false)
    else if client_dialect < 2 then some (.float text, false)
    else if scan.have_decimal then
      some (.scaledInt scan.number.toNat scan.scale, client_dialect = 2)
    else some (.number64Bit scan.number.toNat scan.scale, client_dialect = 2)
  else none

/-- The text starts like a number: with a digit, or with a point and a digit. -/
def startsNumber : List Char → Bool
  | [] => false
  | c :: text => isDigit c || (c == '.' && text.head?.any isDigit)

/-- Recognize a number at the start of the text, or leave the text to the rest of the lexer. -/
def yylexNumber (client_dialect : Nat) (tooLarge : UInt64 → Int → Bool) (text : List Char) :
    Option Recognized :=
  if startsNumber text then
    let (scan, rest) := Scan.run {} text
    if scan.have_error then none
    else
      ((scan.settle tooLarge).token client_dialect (text.take (text.length - rest.length))).map
        fun (token, warned) => ⟨token, rest, warned⟩
  else none

end Parser
end Firebird
