import Stencil.Decimal.Shortest

/-!
# Number text

How a float is written, once its shortest decimal is known.

## Main definitions

* `Style` — the decisions of a number format
* `write` — the text of a float in a style
* `plain` — the style of values in text; `json` — of JSON numbers; `token` — of numbers in messages
-/

namespace Stencil.Decimal

/-- The decisions of a number format. -/
structure Style where
  /-- The leading exponents written without an exponent part, `none` for all. -/
  positional : Option (Int × Int)
  /-- Whether integral numbers end in `.0`. -/
  pointZero : Bool
  /-- Whether an exponent that is not negative has a plus sign. -/
  plusSign : Bool

/-- Values in text are always positional, and integral ones have no point. -/
def plain : Style := ⟨none, false, false⟩

/-- JSON numbers are positional from five places after the point to sixteen before it. -/
def json : Style := ⟨some (-5, 15), true, true⟩

/-- Numbers in messages are positional from four places after the point to sixteen before it. -/
def token : Style := ⟨some (-4, 15), true, false⟩

/-- The digits of a number in base ten. -/
def digitsOf (n : Nat) : List Char := Nat.toDigits 10 n

/-- Digits with the point `places` after the first position, zeros filling what lies between. -/
def positionalText (style : Style) (digits : List Char) (exponent : Int) : List Char :=
  if 0 ≤ exponent then
    digits ++ List.replicate exponent.toNat '0' ++ (if style.pointZero then ['.', '0'] else [])
  else
    let places := (-exponent).toNat
    if places < digits.length then
      digits.take (digits.length - places) ++ ['.'] ++ digits.drop (digits.length - places)
    else ['0', '.'] ++ List.replicate (places - digits.length) '0' ++ digits

/-- A leading digit, the others after the point, and the exponent of the leading one. -/
def scientificText (style : Style) (digits : List Char) (leading : Int) : List Char :=
  let fraction := digits.drop 1
  let mantissa := digits.take 1 ++ (if fraction.isEmpty then [] else '.' :: fraction)
  let sign := if leading < 0 then ['-'] else if style.plusSign then ['+'] else []
  mantissa ++ ['e'] ++ sign ++ digitsOf leading.natAbs

/-- The text of a decimal. -/
def decimalText (style : Style) (d : Decimal) : List Char :=
  let digits := digitsOf d.units
  let leading := d.exponent + digits.length - 1
  let inRange : Bool := match style.positional with
    | none => true
    | some (low, high) => low ≤ leading && leading ≤ high
  if inRange then positionalText style digits d.exponent else scientificText style digits leading

/-- The text of a float. -/
def write (style : Style) (x : Float) : String :=
  match Parts.ofFloat x with
  | .nan => "NaN"
  | .infinite negative => if negative then "-inf" else "inf"
  | .finite negative m q =>
    let sign := if negative then ['-'] else []
    let text := if m == 0 then positionalText style ['0'] 0 else decimalText style (shortest m q)
    String.ofList (sign ++ text)

end Stencil.Decimal
