import Mathlib.Data.UInt
import Mathlib.Data.List.Flatten

/-!
# `SUBSTRING ... SIMILAR`

`SubstringSimilarMatcher` cuts a pattern at its two escaped quotes and looks for the part of a string
that matches the middle one.  Strings are bytes, and a cursor moves over them by whole characters.  The
matchers of the parts and the character set are parameters.
-/

namespace Firebird
namespace SubstringSimilar

/-- The functions of a character set that are used. -/
structure CharSet where
  /-- The number of characters, trailing spaces included. -/
  length : List UInt8 → Nat
  /-- A number of characters from a start on. -/
  substring : List UInt8 → Nat → Nat → List UInt8

/-- `isc_invalid_similar_pattern`. -/
inductive PatternError where
  | invalid_similar_pattern
  deriving DecidableEq, Repr

/-! ## The pattern -/

/-- The variables of the loop over the pattern. -/
structure Segments where
  lengths : List Nat
  newExpr : List UInt8
  originalPatternPos : Nat
  lastStart : Nat
  deriving DecidableEq, Repr

/-- The end of a segment at an escaped quote. -/
def Segments.close (charSet : CharSet) (originalPattern : List UInt8) (p : Nat)
    (segments : Segments) : Segments :=
  let segment := charSet.substring (originalPattern.drop segments.originalPatternPos) 0
    (p - segments.lastStart - 1)
  let originalPatternPos := segments.originalPatternPos + segment.length
  -- advance two (<escape><quote>) characters
  let two := charSet.substring (originalPattern.drop originalPatternPos) 0 2
  { lengths := segments.lengths ++ [segment.length]
    newExpr := segments.newExpr ++ segment
    originalPatternPos := originalPatternPos + two.length
    lastStart := p + 1 }

/-- The loop over the canonical characters, from the place `p` on. -/
def scanPattern (charSet : CharSet) (escapeChar quote : Nat) (originalPattern : List UInt8) :
    List Nat → Nat → Segments → Except PatternError Segments
  | [], _, segments => .ok segments
  | [c], _, segments =>
      if c ≠ escapeChar then .ok segments else .error .invalid_similar_pattern
  | c :: d :: rest, p, segments =>
      if c ≠ escapeChar then
        scanPattern charSet escapeChar quote originalPattern (d :: rest) (p + 1) segments
      else if d = quote then
        if segments.lengths.length ≥ 2 then .error .invalid_similar_pattern
        else
          scanPattern charSet escapeChar quote originalPattern rest (p + 2)
            (segments.close charSet originalPattern (p + 1))
      else scanPattern charSet escapeChar quote originalPattern rest (p + 2) segments

/-- The matchers of the parts. -/
structure Matchers where
  r1 : List UInt8 → Bool
  r2 : List UInt8 → Bool
  r3 : List UInt8 → Bool
  r23 : List UInt8 → Bool

/-- The constructor.  `canonical` are the canonical characters from the start of the converted pattern
on, as far as memory goes, and `patternLen` is its length in bytes. -/
def create (charSet : CharSet) (similarTo : List UInt8 → List UInt8 → Bool) (escapeChar quote : Nat)
    (originalPattern : List UInt8) (canonical : List Nat) (patternLen : Nat) :
    Except PatternError Matchers := do
  let segments ← scanPattern charSet escapeChar quote originalPattern (canonical.take patternLen) 0
    ⟨[], [], 0, 0⟩
  match segments.lengths with
  | [first, second] =>
      let last := charSet.substring (originalPattern.drop segments.originalPatternPos) 0
        (patternLen - segments.lastStart)
      let newExpr := segments.newExpr ++ last
      return {
        r1 := similarTo (newExpr.take first)
        r2 := similarTo ((newExpr.drop first).take second)
        r3 := similarTo ((newExpr.drop (first + second)).take last.length)
        r23 := similarTo ((newExpr.drop first).take (second + last.length)) }
  | _ => .error .invalid_similar_pattern

/-! ## The string -/

/-- The loop that shrinks the second part, for a number of rounds.  Returns `matchedLength`. -/
def shrinkLoop (charSet : CharSet) (matchers : Matchers) (buffer : List UInt8) (p : Nat) :
    Nat → Nat → Int → List UInt8 → Option (Option Nat)
  | 0, _, _, _ => none
  | rounds + 1, p3, charLen23, temp =>
      if matchers.r2 (temp.take (p3 - p)) && matchers.r3 (buffer.drop p3) then
        some (some (p3 - p))
      else
        let charLen23 :=
          if charLen23 = -1 then (charSet.length ((buffer.drop p).take (p3 - p)) : Int)
          else charLen23
        if charLen23 = 0 then some none
        else
          let charLen23 := charLen23 - 1
          let shorter := charSet.substring (buffer.drop p) 0 charLen23.toNat
          shrinkLoop charSet matchers buffer p rounds (p + shorter.length) charLen23
            (shorter ++ temp.drop shorter.length)

/-- The loop over the first part, for a number of rounds.  Returns `matchedStart` and
`matchedLength`. -/
def startLoop (charSet : CharSet) (matchers : Matchers) (buffer : List UInt8) :
    Nat → Nat → Option (Option (Nat × Nat))
  | 0, _ => none
  | rounds + 1, p =>
      let found :=
        if matchers.r1 (buffer.take p) && matchers.r23 (buffer.drop p) then
          shrinkLoop charSet matchers buffer p (buffer.length + 1) buffer.length (-1) (buffer.drop p)
        else some none
      match found with
      | none => none
      | some (some matchedLength) => some (some (p, matchedLength))
      | some none =>
          -- advance a character
          let p := p + (charSet.substring (buffer.drop p) 0 1).length
          if p < buffer.length then startLoop charSet matchers buffer rounds p else some none

/-- `result`.  No loop needs more rounds than there are bytes, and one. -/
def result (charSet : CharSet) (matchers : Matchers) (buffer : List UInt8) :
    Option (Option (Nat × Nat)) :=
  startLoop charSet matchers buffer (buffer.length + 1) 0

end SubstringSimilar
end Firebird
