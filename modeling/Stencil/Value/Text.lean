import Stencil.Json.Reader
import Stencil.Time.Rfc3339
import Stencil.Value.Basic

/-!
# Values as text

How values are displayed, and their trip to JSON and back.

## Main definitions

* `Value.display` — the text of a value in a template
* `Value.toJson`, `Value.ofJson` — values as JSON documents
* `Value.compactJson`, `Value.prettyJson` — the JSON text of values
* `Value.serialized` — what the trip through JSON leaves of a value
-/

namespace Stencil.Value

mutual

/-- The document of a value: times become strings, records objects, and floats without a JSON number
null. -/
def toJson : Value → Json
  | .nil => .null
  | .bool b => .bool b
  | .int i => .number (if 0 ≤ i then .unsigned i.toUInt64 else .negative i)
  | .uint n => .number (.unsigned n)
  | .float x => if x.isFinite then .number (.float x) else .null
  | .str s => .string s
  | .time t => .string t.write
  | .seq items => .array (itemsToJson items)
  | .map entries => .object (entriesToJson entries)
  | .record _ _ fields => .object (Dict.ofPairs (fieldsToJson fields))

/-- The documents of the items of a sequence. -/
def itemsToJson : List Value → List Json
  | [] => []
  | v :: rest => toJson v :: itemsToJson rest

/-- The documents of the entries of a mapping. -/
def entriesToJson : List (String × Value) → List (String × Json)
  | [] => []
  | (key, v) :: rest => (key, toJson v) :: entriesToJson rest

/-- The documents of the members of a record. -/
def fieldsToJson : List (Field Value) → List (String × Json)
  | [] => []
  | f :: rest => (f.key, toJson f.value) :: fieldsToJson rest

end

/-- A JSON number as a value; integers are signed if they can be. -/
def ofNumber : Json.Number → Value
  | .unsigned n => if n.toNat < Nat.pow 2 63 then .int n.toInt64 else .uint n
  | .negative i => .int i
  | .float x => .float x

mutual

/-- The value of a document. -/
def ofJson : Json → Value
  | .null => .nil
  | .bool b => .bool b
  | .number n => ofNumber n
  | .string s => .str s
  | .array items => .seq (ofJsonItems items)
  | .object members => .map (ofJsonMembers members)

/-- The values of the items of an array. -/
def ofJsonItems : List Json → List Value
  | [] => []
  | j :: rest => ofJson j :: ofJsonItems rest

/-- The values of the members of an object. -/
def ofJsonMembers : List (String × Json) → List (String × Value)
  | [] => []
  | (key, j) :: rest => (key, ofJson j) :: ofJsonMembers rest

end

/-- What the trip through JSON leaves of a value. -/
def serialized (v : Value) : Value := ofJson (toJson v)

/-- The compact JSON text of a value. -/
def compactJson (v : Value) : String := (toJson v).compact

/-- The indented JSON text of a value. -/
def prettyJson (v : Value) : String := (toJson v).pretty

/-- The text of a value: nothing for nil, JSON for collections. -/
def display : Value → String
  | .nil => ""
  | .bool b => if b then "true" else "false"
  | .int i => toString i.toInt
  | .uint n => toString n.toNat
  | .float x => Decimal.write Decimal.plain x
  | .str s => s
  | .time t => t.write
  | v => v.compactJson

end Stencil.Value
