import Stencil.Decimal.Binary

/-!
# Shortest decimals

The decimal with the fewest digits that reads back as a given float, and of those the nearest.

## Main definitions

* `Decimal` — a number of units of a power of ten
* `Interval` — the numbers that round to a float
* `shortest` — the shortest decimal of a finite float other than zero

## Design notes

For each count of digits from one on, the two neighbours of the value on that decimal grid are
tested against the interval in exact arithmetic. Seventeen digits always suffice.
-/

namespace Stencil

/-- The number `units * 10 ^ exponent`. -/
structure Decimal where
  units : Nat
  exponent : Int
  deriving Repr, DecidableEq

namespace Decimal

/-- A value and the bounds of the numbers that round to it, all over one denominator. -/
structure Interval where
  low : Nat
  value : Nat
  high : Nat
  den : Nat
  /-- Whether the bounds themselves round to the value. -/
  closed : Bool

/-- The numbers that round to `m * 2 ^ q`. Below a power of two the spacing halves. -/
def Interval.ofParts (m : Nat) (q : Int) : Interval :=
  let scale := Nat.pow 2 q.toNat
  let below := if m == Nat.pow 2 52 && (-1074 : Int) < q then 1 else 2
  { low := (4 * m - below) * scale
    value := 4 * m * scale
    high := (4 * m + 2) * scale
    den := 4 * Nat.pow 2 (-q).toNat
    closed := m % 2 == 0 }

/-- Whether the ratio `num / den` lies in the interval. -/
def Interval.contains (i : Interval) (num den : Nat) : Bool :=
  let x := num * i.den
  let low := i.low * den
  let high := i.high * den
  if i.closed then low ≤ x && x ≤ high else low < x && x < high

/-- A whole number of units of `10 ^ exponent`, as a ratio. -/
def ratio (units : Nat) (exponent : Int) : Nat × Nat :=
  (units * Nat.pow 10 exponent.toNat, Nat.pow 10 (-exponent).toNat)

/-- Raises an estimate of the decimal exponent of `num / den` until the next power exceeds it. -/
def raiseExponent (num den : Nat) : (steps : Nat) → Int → Int
  | 0, e => e
  | steps + 1, e =>
    let (n, d) := ratio 1 (e + 1)
    if n * den ≤ num * d then raiseExponent num den steps (e + 1) else e

/-- The exponent of the leading decimal digit of `num / den`. -/
def leadingExponent (num den : Nat) : Int :=
  let bits : Int := (num.log2 : Int) - den.log2
  raiseExponent num den 4 ((bits * 30103).fdiv 100000 - 2)

/-- The point of the grid of `10 ^ exponent` nearest to the value, if one of its neighbours rounds
to it. -/
def Interval.onGrid? (i : Interval) (exponent : Int) : Option Nat :=
  let (n, d) := ratio 1 exponent
  let down := i.value * d / (i.den * n)
  let inside (units : Nat) : Bool :=
    let (a, b) := ratio units exponent
    i.contains a b
  match inside down, inside (down + 1) with
  | false, false => none
  | true, false => some down
  | false, true => some (down + 1)
  | true, true =>
    let twice := 2 * i.value * d
    let middle := (2 * down + 1) * (i.den * n)
    if twice < middle then some down
    else if middle < twice then some (down + 1)
    else some (if down % 2 == 0 then down else down + 1)

/-- The decimal without trailing zeros among its units; `steps` bounds their number. -/
def stripZeros : (steps : Nat) → Decimal → Decimal
  | 0, d => d
  | steps + 1, d =>
    if d.units != 0 && d.units % 10 == 0 then stripZeros steps ⟨d.units / 10, d.exponent + 1⟩ else d

/-- Tries grids of growing fineness below the leading exponent. -/
def shortestFrom (i : Interval) (leading : Int) : (digits steps : Nat) → Decimal
  | _, 0 => ⟨0, 0⟩
  | digits, steps + 1 =>
    let exponent := leading - digits
    match i.onGrid? exponent with
    | some units => stripZeros 20 ⟨units, exponent⟩
    | none => shortestFrom i leading (digits + 1) steps

/-- The shortest decimal that rounds to `m * 2 ^ q`, for `m` other than zero. -/
def shortest (m : Nat) (q : Int) : Decimal :=
  let i := Interval.ofParts m q
  shortestFrom i (leadingExponent i.value i.den) 0 18

end Decimal
end Stencil
