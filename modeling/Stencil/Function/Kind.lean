import Stencil.Value.Text

/-!
# Kinds

The parameter types of functions, and the conversion of values to them.

## Main definitions

* `Kind`, `Kind.name`, `Kind.ofName?` — the parameter types
* `Kind.zero` — what nil becomes
* `coerce?` — the value of a kind that a value converts to

## Design notes

Text is read as numbers and truth values, scalars become text, numbers convert among each other, and
nil becomes the zero value of the kind. A value that is of the kind stays as it is.
-/

namespace Stencil

/-- A parameter type. An argument of another type is converted to it, and is an error if there is no
conversion. -/
inductive Kind where
  | any | str | int | uint | float | bool | seq | map | time
  deriving DecidableEq, Repr

namespace Kind

/-- The name of a kind. -/
def name : Kind → String
  | .any => "any"
  | .str => "str"
  | .int => "int"
  | .uint => "uint"
  | .float => "float"
  | .bool => "bool"
  | .seq => "seq"
  | .map => "map"
  | .time => "time"

/-- The kind of a name. -/
def ofName? (name : String) : Option Kind :=
  [any, str, int, uint, float, bool, seq, map, time].find? (·.name == name)

/-- The value that nil becomes. There is no zero among times. -/
def zero : Kind → Value
  | .any => .nil
  | .str => .str ""
  | .int => .int 0
  | .uint => .uint 0
  | .float => .float 0
  | .bool => .bool false
  | .seq => .seq []
  | .map => .map []
  | .time => .nil

/-- Whether a value is of a kind. -/
def admits : Kind → Value → Bool
  | .any, _ => true
  | .str, .str _ => true
  | .int, .int _ => true
  | .uint, .uint _ => true
  | .float, .float _ => true
  | .bool, .bool _ => true
  | .seq, .seq _ => true
  | .map, .map _ => true
  | .time, .time _ => true
  | _, _ => false

end Kind

/-- The truth value of a text. -/
def readBool? (s : String) : Option Bool :=
  if ["1", "t", "T", "true", "TRUE", "True"].contains s then some true
  else if ["0", "f", "F", "false", "FALSE", "False"].contains s then some false
  else none

/-- A text without its outer blanks, as scanners take it. -/
def trimmedChars (s : String) : List Char := Text.trim s.toList

/-- The value of a kind that a value other than nil converts to. -/
def convert? (target : Kind) (v : Value) : Option Value :=
  if target.admits v then some v
  else
    match target, v with
    | .str, .int _ | .str, .uint _ | .str, .float _ | .str, .bool _ | .str, .time _ =>
      some (.str v.display)
    | .int, .uint n => (Decimal.int64? n.toNat).map .int
    | .int, .float x => if x.isFinite then some (.int x.toInt64) else none
    | .int, .str s => (Decimal.readInt64? (trimmedChars s)).map .int
    | .uint, .int i => (Decimal.uint64? i.toInt).map .uint
    | .uint, .float x => if x.isFinite && 0 ≤ x then some (.uint x.toUInt64) else none
    | .uint, .str s => (Decimal.readUInt64? (trimmedChars s)).map .uint
    | .float, .int i => some (.float i.toFloat)
    | .float, .uint n => some (.float n.toFloat)
    | .float, .str s => (Decimal.readFloat? (trimmedChars s)).map .float
    | .bool, .str s => (readBool? (Text.trimmed s)).map .bool
    | .map, .record _ _ fields => some (.map (recordEntries fields))
    | .time, .str s => (Time.readChars? (trimmedChars s)).map .time
    | _, _ => none

/-- The value of a kind that a value converts to. -/
def coerce? (target : Kind) (v : Value) : Option Value :=
  if v.isNil then some target.zero else convert? target v

end Stencil
