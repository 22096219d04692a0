import Stencil.Decimal.Binary

/-!
# Reading numbers

The number grammars of plain text: integers within a range, and decimals with an exponent.

## Main definitions

* `readNat?` — a run of digits
* `readInt64?`, `readUInt64?` — integers within the range of their type, with an optional sign
* `readFloat?` — decimals, infinities and not-a-number
* `isSpecialWord` — the spellings of the values that are not finite

## Design notes

A decimal is read exactly and rounded once. Exponents far outside the range of floats are decided
without computing the power.
-/

namespace Stencil.Decimal

/-- The value of a character that is a digit. -/
def digitValue (c : Char) : Nat := c.toNat - '0'.toNat

/-- The value of a run of digits. -/
def natOfDigits (cs : List Char) : Nat := cs.foldl (fun n c => 10 * n + digitValue c) 0

/-- The value of text that is one or more digits. -/
def readNat? (cs : List Char) : Option Nat :=
  if !cs.isEmpty && cs.all Char.isDigit then some (natOfDigits cs) else none

/-- An optional sign before the rest of a text. -/
def splitSign : List Char → Bool × List Char
  | '-' :: cs => (true, cs)
  | '+' :: cs => (false, cs)
  | cs => (false, cs)

/-- The integer of 64 bits with this value, if it is in range. -/
def int64? (i : Int) : Option Int64 :=
  if -Int.pow 2 63 ≤ i ∧ i < Int.pow 2 63 then some (Int64.ofInt i) else none

/-- The unsigned integer of 64 bits with this value, if it is in range. -/
def uint64? (i : Int) : Option UInt64 :=
  if 0 ≤ i ∧ i < Int.pow 2 64 then some (UInt64.ofNat i.toNat) else none

/-- An integer after an optional sign. -/
def readInt? (cs : List Char) : Option Int :=
  let (negative, digits) := splitSign cs
  (readNat? digits).map fun n => if negative then -(n : Int) else n

/-- A signed integer in range, after an optional sign. -/
def readInt64? (cs : List Char) : Option Int64 := (readInt? cs).bind int64?

/-- A natural number after an optional plus sign. -/
def readUnsigned? : List Char → Option Nat
  | '+' :: cs => readNat? cs
  | cs => readNat? cs

/-- An unsigned integer in range, after an optional plus sign. -/
def readUInt64? (cs : List Char) : Option UInt64 := (readUnsigned? cs).bind fun n => uint64? n

/-- The spellings of values that are not finite, in any case. -/
def isSpecialWord (cs : List Char) : Bool :=
  let word := cs.map Char.toLower
  word == "inf".toList || word == "infinity".toList || word == "nan".toList

/-- The value that `round` gives `units * 10 ^ exponent`, where `units` has `digits` digits at most.
-/
def roundDecimal (round : Bool → Nat → Nat → Float) (negative : Bool) (units digits : Nat)
    (exponent : Int) : Float :=
  if units == 0 then round negative 0 1
  else if 400 < exponent then (Parts.infinite negative).toFloat
  else if exponent + digits < -400 then round negative 0 1
  else round negative (units * Nat.pow 10 exponent.toNat) (Nat.pow 10 (-exponent).toNat)

/-- The exponent part of a decimal: nothing, or a mark, an optional sign and digits. -/
def readExponent? : List Char → Option Int
  | [] => some 0
  | c :: cs =>
    if c == 'e' || c == 'E' then
      let (negative, digits) := splitSign cs
      (readNat? digits).map fun n => if negative then -(n : Int) else n
    else none

/-- The digits before and after the point of a decimal, and what follows them. -/
def splitDecimal (cs : List Char) : List Char × List Char × List Char :=
  let whole := cs.takeWhile Char.isDigit
  match cs.dropWhile Char.isDigit with
  | '.' :: rest => (whole, rest.takeWhile Char.isDigit, rest.dropWhile Char.isDigit)
  | rest => (whole, [], rest)

/-- A decimal without sign: digits with a point somewhere, at least one digit, and an exponent. -/
def readDecimal? (round : Bool → Nat → Nat → Float) (negative : Bool) (cs : List Char) :
    Option Float :=
  let (whole, fraction, rest) := splitDecimal cs
  if whole.isEmpty && fraction.isEmpty then none
  else
    (readExponent? rest).map fun exponent =>
      let digits := whole ++ fraction
      roundDecimal round negative (natOfDigits digits) digits.length (exponent - fraction.length)

/-- A number in plain text, rounded by `round`. -/
def readRounded? (round : Bool → Nat → Nat → Float) (cs : List Char) : Option Float :=
  let (negative, rest) := splitSign cs
  if isSpecialWord rest then
    some (if rest.map Char.toLower == "nan".toList then Parts.nan.toFloat
      else (Parts.infinite negative).toFloat)
  else readDecimal? round negative rest

/-- A float in plain text. -/
def readFloat? (cs : List Char) : Option Float := readRounded? floatOfRatio cs

/-- A number of single precision in plain text, as a float. -/
def readSingle? (cs : List Char) : Option Float := readRounded? singleOfRatio cs

end Stencil.Decimal
