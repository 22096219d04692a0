import Stencil.Decimal.Binary
import Stencil.Expr.Basic
import Stencil.Text.Scan
import Stencil.Value.Text

/-!
# Arithmetic and comparison

The operators on values that need no variables.

## Main definitions

* `TypeFault`, `TypeFault.message` — operators applied to values they are not for
* `Number`, `Number.ofValue?` — integers of 64 bits and floats
* `arithmetic` — `+ - * / % **` on numbers
* `looselyEqual`, `order`, `contains` — the operators `==`, `<` and `in`

## Design notes

An operation on two integers has an integer as its result if the exact result is one and is in
range; otherwise it is the operation on floats. Unsigned integers beyond the signed range are
floats.
-/

namespace Stencil.Expr

/-- Why an operator has no result. -/
inductive TypeFault where
  | unorderedNumbers (x y : Float)
  | unorderedTypes (left right : String)
  | invalidOperation (left : String) (op : BinaryOp) (right : String)
  | divisionByZero
  | notSearchable (typeName : String)
  | notAnIndex (typeName : String)
  | notNegatable (typeName : String)

/-- The wording of a type fault. -/
def TypeFault.message : TypeFault → String
  | .unorderedNumbers x y =>
    let left := Decimal.write Decimal.plain x
    let right := Decimal.write Decimal.plain y
    s!"cannot compare {left} with {right}"
  | .unorderedTypes left right => s!"cannot compare {left} with {right}"
  | .invalidOperation left op right => s!"invalid operation: {left} {op.name} {right}"
  | .divisionByZero => "integer division by zero"
  | .notSearchable typeName => s!"cannot search in {typeName}"
  | .notAnIndex typeName => s!"cannot index with {typeName}"
  | .notNegatable typeName => s!"cannot negate {typeName}"

/-- A number as operators see it. Of the unsigned integers those in the signed range are integers
here, the others are floats. -/
inductive Number where
  | int (i : Int64)
  | float (x : Float)

/-- The number a value is, if it is one. -/
def Number.ofValue? : Value → Option Number
  | .int i => some (.int i)
  | .uint n => some (if n.toNat < Nat.pow 2 63 then .int n.toInt64 else .float n.toFloat)
  | .float x => some (.float x)
  | _ => none

/-- A number as a float. -/
def Number.toFloat : Number → Float
  | .int i => Decimal.floatOfInt64 i
  | .float x => x

/-- The power of an integer, if it is in range. Beyond the 63rd power only 0, 1 and -1 stay in
range. -/
def power? (base exponent : Int) : Option Int64 :=
  if exponent < 0 ∨ Int.pow 2 32 ≤ exponent then none
  else if base.natAbs ≤ 1 then
    Decimal.int64? (if exponent = 0 then 1 else if base = -1 ∧ exponent % 2 = 0 then 1 else base)
  else if 64 ≤ exponent then none
  else Decimal.int64? (Int.pow base exponent.toNat)

/-- The integer an operation on integers gives, if it gives one in range. The remainder has the sign
of the dividend; that of the least integer by -1 comes from an overflowing division and is no
integer. -/
def integerResult? (op : BinaryOp) (x y : Int) : Option Int64 :=
  match op with
  | .add => Decimal.int64? (x + y)
  | .subtract => Decimal.int64? (x - y)
  | .multiply => Decimal.int64? (x * y)
  | .divide => if x.tmod y = 0 then Decimal.int64? (x.tdiv y) else none
  | .remainder => if (Decimal.int64? (x.tdiv y)).isSome then Decimal.int64? (x.tmod y) else none
  | .power => power? x y
  | _ => none

/-- An operation on floats. -/
def floatOperation (op : BinaryOp) (x y : Float) : Float :=
  match op with
  | .add => x + y
  | .subtract => x - y
  | .multiply => x * y
  | .divide => x / y
  | .remainder => Decimal.remainder x y
  | _ => x.pow y

/-- The operations on numbers. -/
def arithmetic (op : BinaryOp) (a b : Value) : Except TypeFault Value :=
  match Number.ofValue? a, Number.ofValue? b with
  | some (.int x), some (.int y) =>
    if (op = .divide ∨ op = .remainder) ∧ y = 0 then .error .divisionByZero
    else
      match integerResult? op x.toInt y.toInt with
      | some i => .ok (.int i)
      | none => .ok (.float (floatOperation op x.toFloat y.toFloat))
  | some x, some y => .ok (.float (floatOperation op x.toFloat y.toFloat))
  | _, _ => .error (.invalidOperation a.typeName op b.typeName)

/-- Equality as operators see it: numbers are compared by value across their types. -/
def looselyEqual (a b : Value) : Bool :=
  match Number.ofValue? a, Number.ofValue? b with
  | some (.int x), some (.int y) => x == y
  | some x, some y => x.toFloat == y.toFloat
  | _, _ => a.same b

/-- The order of two floats, if neither is not-a-number. -/
def floatOrder? (x y : Float) : Option Ordering :=
  if x < y then some .lt else if x == y then some .eq else if y < x then some .gt else none

/-- The order of two numbers, two strings or two times. -/
def order (a b : Value) : Except TypeFault Ordering :=
  match Number.ofValue? a, Number.ofValue? b with
  | some (.int x), some (.int y) => .ok (compare x.toInt y.toInt)
  | some x, some y =>
    match floatOrder? x.toFloat y.toFloat with
    | some o => .ok o
    | none => .error (.unorderedNumbers x.toFloat y.toFloat)
  | _, _ =>
    match a, b with
    | .str x, .str y => .ok (compare x y)
    | .time x, .time y => .ok (x.compare y)
    | _, _ => .error (.unorderedTypes a.typeName b.typeName)

/-- Whether a value is an item of a sequence, a key of a collection or a part of a string. -/
def contains (needle haystack : Value) : Except TypeFault Bool :=
  match haystack with
  | .seq items => .ok (items.any (looselyEqual needle))
  | .map entries => .ok (Dict.contains entries needle.display)
  | .record _ _ fields => .ok (recordField? fields needle.display).isSome
  | .str s => .ok (Text.hasInfix needle.display.toList s.toList)
  | .nil => .ok false
  | v => .error (.notSearchable v.typeName)

/-- The sum of two values: strings are joined with any value, sequences with sequences. -/
def sum (a b : Value) : Except TypeFault Value :=
  match a, b with
  | .str _, _ | _, .str _ => .ok (.str (a.display ++ b.display))
  | .seq x, .seq y => .ok (.seq (x ++ y))
  | _, _ => arithmetic .add a b

/-- The key a value stands for in brackets. -/
def indexKey (v : Value) : Except TypeFault String :=
  match v with
  | .str s => .ok s
  | .int _ | .uint _ => .ok v.display
  | v => .error (.notAnIndex v.typeName)

/-- The negative of a number. -/
def negate (v : Value) : Except TypeFault Value :=
  match v with
  | .int i => .ok (match Decimal.int64? (-i.toInt) with
      | some j => .int j
      | none => .float (-i.toFloat))
  | .uint n => .ok (if n.toNat < Nat.pow 2 63 then .int (-n.toInt64) else .float (-n.toFloat))
  | .float x => .ok (.float (-x))
  | v => .error (.notNegatable v.typeName)

end Stencil.Expr
