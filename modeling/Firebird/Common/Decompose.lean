import Firebird.Common.Rescale
import Firebird.Library.Positional

/-!
# Numbers in text

`CVT_decompose` reads a decimal or a hexadecimal literal.  `value` and `scale` are variables of 64 and
16 bits, and the memory behind the text is there to be read.
-/

namespace Firebird
namespace Cvt

/-- The `DIGIT` macro. -/
def isDigit (c : Char) : Bool := '0' ≤ c && c ≤ '9'

/-- The number that a digit stands for. -/
def digit (c : Char) : Nat := c.toNat - '0'.toNat

/-- The `UPPER` macro. -/
def upper (c : Char) : Char :=
  if 'a' ≤ c ∧ c ≤ 'z' then Char.ofNat (c.toNat - 'a'.toNat + 'A'.toNat) else c

def lower_limit (dtype : ExactType) : Int := if dtype = .long then -2147483648 else -2 ^ 63

def upper_limit (dtype : ExactType) : Int := if dtype = .long then 2147483647 else 2 ^ 63 - 1

/-- Used to check for overflow. -/
def limit_by_10 (dtype : ExactType) : Int := upper_limit dtype / 10

def skipSpaces (text : List Char) : List Char := text.dropWhile (· = ' ')

/-! ## The mantissa -/

/-- The variables of the loop over the mantissa. -/
structure Mantissa where
  value : Int
  scale : Int
  sign : Int
  digit_seen : Bool
  fraction : Bool
  deriving DecidableEq, Repr

/-- One digit of the mantissa. -/
def Mantissa.push (dtype : ExactType) (state : Mantissa) (c : Char) : Except CvtError Mantissa :=
  let pushed :=
    { state with
      digit_seen := true
      value := ExactType.int64.wrap (state.value * 10 + c.toNat - '0'.toNat)
      scale := if state.fraction then ExactType.short.wrap (state.scale - 1) else state.scale }
  if state.value ≥ limit_by_10 dtype then
    if state.value > limit_by_10 dtype then .error .outOfRange
    else if c > '8' ∧ state.sign = -1 ∨ c > '7' ∧ state.sign ≠ -1 then .error .outOfRange
    else .ok pushed
  else .ok pushed

/-- The loop over the mantissa.  Returns what is left at the exponent. -/
def scanMantissa (dtype : ExactType) :
    List Char → Mantissa → Except CvtError (Mantissa × List Char)
  | [], state => .ok (state, [])
  | c :: rest, state =>
      if isDigit c then do scanMantissa dtype rest (← state.push dtype c)
      else if c = '.' then
        if state.fraction then .error .conversion
        else scanMantissa dtype rest { state with fraction := true }
      else if c = '-' ∧ !state.digit_seen ∧ state.sign = 0 ∧ !state.fraction then
        scanMantissa dtype rest { state with sign := -1 }
      else if c = '+' ∧ !state.digit_seen ∧ state.sign = 0 ∧ !state.fraction then
        scanMantissa dtype rest { state with sign := 1 }
      else if c = 'e' ∨ c = 'E' then .ok (state, c :: rest)
      else if c = ' ' then
        -- throw if there is something after the spaces
        if skipSpaces rest = [] then .ok (state, []) else .error .conversion
      else .error .conversion

/-! ## The exponent -/

/-- The variables of the loop over the exponent. -/
structure Exponent where
  exp : Int
  sign : Int
  digit_seen : Bool
  deriving DecidableEq, Repr

/-- `SHORT_LIMIT`. -/
def short_limit : Int := limit .short

/-- The loop over the exponent. -/
def scanExponent : List Char → Exponent → Except CvtError Exponent
  | [], state => .ok state
  | c :: rest, state =>
      if isDigit c then
        let exp := ExactType.short.wrap (state.exp * 10 + c.toNat - '0'.toNat)
        -- a 'safe' test to prevent overflow of exp here and of scale below
        if exp ≥ short_limit then .error .outOfRange
        else scanExponent rest { state with exp, digit_seen := true }
      else if c = '-' ∧ !state.digit_seen ∧ state.sign = 0 then
        scanExponent rest { state with sign := -1 }
      else if c = '+' ∧ !state.digit_seen ∧ state.sign = 0 then
        scanExponent rest { state with sign := 1 }
      else if c = ' ' then
        if skipSpaces rest = [] then .ok state else .error .conversion
      else .error .conversion

/-- The scale with the exponent behind `e` applied. -/
def applyExponent (scale : Int) (text : List Char) : Except CvtError Int := do
  let state ← scanExponent text ⟨0, 0, false⟩
  let scale := ExactType.short.wrap
    (if state.sign = -1 then scale - state.exp else scale + state.exp)
  if !state.digit_seen then .error .conversion else return scale

/-- A decimal literal.  Returns the value and the scale. -/
def decomposeDecimal (dtype : ExactType) (text : List Char) : Except CvtError (Int × Int) := do
  let (state, rest) ← scanMantissa dtype text ⟨0, 0, 0, false, false⟩
  if !state.digit_seen then .error .conversion
  else
    let value :=
      if state.sign = -1 ∧ state.value ≠ lower_limit dtype then -state.value else state.value
    match rest with
    | [] => return (value, state.scale)
    | _ :: exponent => return (value, ← applyExponent state.scale exponent)

/-! ## Hexadecimal literals -/

/-- The characters that `hex_to_value` goes on for. -/
def isHexDigit (c : Char) : Bool := isDigit (upper c) || ('A' ≤ upper c && upper c ≤ 'F')

/-- The nibble of a character. -/
def hexDigit (c : Char) : Nat :=
  if upper c ≥ 'A' then (upper c).toNat - 'A'.toNat + 10 else (upper c).toNat - '0'.toNat

/-- The loop of `hex_to_value`.  Returns the value and what is left. -/
def hexLoop : List Char → Int → Nat → Bool → Int × List Char
  | [], value, _, _ => (value, [])
  | c :: rest, value, byte, nibble =>
      if isHexDigit c then
        if nibble then
          let byte : Nat := (byte * 2 ^ 4 + hexDigit c) % 2 ^ 8
          hexLoop rest (ExactType.int64.wrap (value * 2 ^ 8 + byte)) byte false
        else hexLoop rest value (hexDigit c) true
      else (value, c :: rest)

/-- `hex_to_value` of the memory from a place on, up to an `end` that many characters behind. -/
def hex_to_value (memory : List Char) (length : Nat) : Int × List Char :=
  hexLoop memory 0 0 (length % 2 = 1)

/-- A hexadecimal literal behind its `0x`. -/
def decomposeHex (dtype : ExactType) (p memory : List Char) : Except CvtError (Int × Int) :=
  let digits := p.takeWhile fun c => c ≠ '\x00' ∧ c ≠ ' '
  let q := skipSpaces (p.dropWhile fun c => c ≠ '\x00' ∧ c ≠ ' ')
  if q ≠ [] ∨ p.length = 0 ∨ p.length > 16 then .error .conversion
  else
    let (value, left) := hex_to_value (p ++ memory) digits.length
    -- the loop has to stop behind the last digit
    if left.length + digits.length ≠ p.length + memory.length then .error .conversion
    else
      -- 0xFFFFFFFF = -1; 0x0FFFFFFFF = 4294967295
      let value := if digits.length ≤ 8 then ExactType.long.wrap value else value
      if dtype = .long ∧ (value < -2147483648 ∨ value > 2147483647) then .error .outOfRange
      else .ok (value, 0)

/-- The text starts with `0x` and does not end there. -/
def hexPrefix (p : List Char) : Bool :=
  2 < p.length && p[0]? = some '0' && p[1]?.map upper = some 'X'

/-- `CVT_decompose` of a text with the memory behind it. -/
def decompose (dtype : ExactType) (string memory : List Char) : Except CvtError (Int × Int) :=
  let p := skipSpaces string
  if hexPrefix p then decomposeHex dtype (p.drop 2) memory else decomposeDecimal dtype p

end Cvt
end Firebird
