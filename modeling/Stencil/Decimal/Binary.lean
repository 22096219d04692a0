/-!
# Binary floating point, exactly

A finite float is a whole number of units `m * 2 ^ q`. This module decodes floats into that form,
rounds exact ratios back to it, and states the float operations that need exact arithmetic.

## Main definitions

* `Parts`, `Parts.ofFloat`, `Parts.toFloat` — the parts of a float
* `Format`, `Format.nearest` — a precision with an exponent range, and rounding a ratio to it
* `floatOfRatio`, `singleOfRatio` — the float nearest to a ratio, in double and in single precision
* `floatOfInt64` — the float nearest to an integer
* `remainder` — the remainder of a truncated division

## Design notes

Rounding goes to the nearest value and, halfway, to the even one; it happens once, on exact numbers,
so that no double rounding can occur.
-/

namespace Stencil.Decimal

/-- A float taken apart: `m * 2 ^ q` with a sign, or one of the special values. A zero has a sign
too. -/
inductive Parts where
  | nan
  | infinite (negative : Bool)
  | finite (negative : Bool) (m : Nat) (q : Int)
  deriving Repr, DecidableEq

/-- Decodes a float from its bits. -/
def Parts.ofFloat (x : Float) : Parts :=
  let bits : Nat := x.toBits.toNat
  let negative := bits / Nat.pow 2 63 % 2 == 1
  let biased : Nat := bits / Nat.pow 2 52 % Nat.pow 2 11
  let fraction := bits % Nat.pow 2 52
  if biased == 2047 then if fraction == 0 then .infinite negative else .nan
  else if biased == 0 then .finite negative fraction (-1074)
  else .finite negative (fraction + Nat.pow 2 52) ((biased : Int) - 1075)

/-- The float with the bits of the parts; `m < 2 ^ 53` and, below `2 ^ 52`, `q = -1074`. -/
def Parts.toFloat : Parts → Float
  | .nan => Float.ofBits 0x7FF8000000000000
  | .infinite negative => Float.ofBits (if negative then 0xFFF0000000000000 else 0x7FF0000000000000)
  | .finite negative m q =>
    let sign : Nat := if negative then Nat.pow 2 63 else 0
    let first := Nat.pow 2 52
    let magnitude := if m < first then m else (q + 1075).toNat * first + (m - first)
    Float.ofBits (sign + magnitude).toUInt64

/-- A binary precision with the range of its unit exponents. -/
structure Format where
  precision : Nat
  minExponent : Int
  maxExponent : Int

/-- Double precision. -/
def Format.double : Format := ⟨53, -1074, 971⟩

/-- Single precision. -/
def Format.single : Format := ⟨24, -149, 104⟩

/-- A ratio in units of `2 ^ q`. -/
def inUnits (num den : Nat) (q : Int) : Nat × Nat :=
  if 0 ≤ q then (num, den * Nat.pow 2 q.toNat) else (num * Nat.pow 2 (-q).toNat, den)

/-- The whole number nearest to a ratio, the even one of two. -/
def roundHalfEven (num den : Nat) : Nat :=
  let whole := num / den
  let twice := 2 * (num % den)
  if twice < den then whole
  else if den < twice then whole + 1
  else if whole % 2 == 0 then whole else whole + 1

/-- The value of the format nearest to `num / den`, as `m * 2 ^ q`; nothing when it is out of range.
-/
def Format.nearest (f : Format) (num den : Nat) : Option (Nat × Int) :=
  if num == 0 then some (0, f.minExponent)
  else
    let guess : Int := (num.log2 : Int) - den.log2 - f.precision + 1
    let (n, d) := inUnits num den guess
    let first := Nat.pow 2 (f.precision - 1)
    let unit := max f.minExponent (if n / d < first then guess - 1 else guess)
    let (n, d) := inUnits num den unit
    let m := roundHalfEven n d
    let (m, unit) := if m == Nat.pow 2 f.precision then (first, unit + 1) else (m, unit)
    if f.maxExponent < unit then none else some (m, unit)

/-- The float nearest to a signed ratio. -/
def floatOfRatio (negative : Bool) (num den : Nat) : Float :=
  match Format.double.nearest num den with
  | some (m, q) => (Parts.finite negative m q).toFloat
  | none => (Parts.infinite negative).toFloat

/-- The single precision value nearest to a signed ratio, as a float. -/
def singleOfRatio (negative : Bool) (num den : Nat) : Float :=
  match Format.single.nearest num den with
  | some (m, q) =>
    let (n, d) := inUnits m 1 (-q)
    floatOfRatio negative n d
  | none => (Parts.infinite negative).toFloat

/-- The float nearest to an integer, that of its magnitude with its sign. -/
def floatOfInt64 (i : Int64) : Float :=
  if i < 0 then -(-i).toUInt64.toFloat else i.toUInt64.toFloat

/-- What a truncated division leaves, with the sign of the dividend. -/
def remainder (x y : Float) : Float :=
  match Parts.ofFloat x, Parts.ofFloat y with
  | .nan, _ | _, .nan | .infinite _, _ => Parts.nan.toFloat
  | .finite .., .infinite _ => x
  | .finite negative m q, .finite _ m' q' =>
    if m' == 0 then Parts.nan.toFloat
    else
      let unit := min q q'
      let rest := (m * Nat.pow 2 (q - unit).toNat) % (m' * Nat.pow 2 (q' - unit).toNat)
      let (n, d) := inUnits rest 1 (-unit)
      floatOfRatio negative n d

end Stencil.Decimal
