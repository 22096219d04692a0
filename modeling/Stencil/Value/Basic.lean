import Stencil.Decimal.Read
import Stencil.Dict
import Stencil.Text.Case
import Stencil.Time.Basic

/-!
# Values

The dynamically typed data of templates.

## Main definitions

* `Value` — scalars, times, sequences, mappings and records
* `Field`, `recordField?`, `recordEntries` — the members of records
* `Value.truthy`, `Value.length?`, `Value.child?`, `Value.entries?` — how values behave in templates
* `Value.same` — strict equality

## Design notes

Integers have 64 bits, signed or unsigned. A record has an identity of its own, a number the host
gives it: two records are equal only if they are the same record.
-/

namespace Stencil

/-- A member of a record, with the name it is serialized under if that is another one. Look-ups try
both, the tag in front of the name. -/
structure Field (α : Type) where
  name : String
  tag : Option String
  value : α

/-- The data of templates. The keys of a mapping are strictly increasing, so a mapping has a single
list of entries. -/
inductive Value where
  | nil
  | bool (b : Bool)
  | int (i : Int64)
  | uint (n : UInt64)
  | float (x : Float)
  | str (s : String)
  | time (t : Time)
  | seq (items : List Value)
  | map (entries : List (String × Value))
  /-- A record of the host: its identity, the name of its type and its members. -/
  | record (identity : Nat) (typeName : String) (fields : List (Field Value))

instance : Inhabited Value := ⟨.nil⟩

/-- The name a member is serialized under. -/
def Field.key {α : Type} (f : Field α) : String := f.tag.getD f.name

/-- Whether two names agree but for the case of their first letters. -/
def sameButFirstCase (a b : String) : Bool :=
  match a.toList, b.toList with
  | x :: xs, y :: ys => Text.lowerChar x == Text.lowerChar y && xs == ys
  | _, _ => false

/-- The member a name stands for: by its tag, else by its name, else by its name with the first
letter in the other case. -/
def recordField? {α : Type} (fields : List (Field α)) (name : String) : Option α :=
  ((fields.find? (·.tag == some name)).or
    ((fields.find? (·.name == name)).or
      (fields.find? (sameButFirstCase ·.name name)))).map (·.value)

/-- The members of a record under the names they are serialized with; of two the later one counts.
-/
def recordEntries {α : Type} (fields : List (Field α)) : Dict α :=
  Dict.ofPairs (fields.map fun f => (f.key, f.value))

namespace Value

/-- The name of the type of a value. -/
def typeName : Value → String
  | .nil => "nil"
  | .bool _ => "bool"
  | .int _ => "int"
  | .uint _ => "uint"
  | .float _ => "float"
  | .str _ => "string"
  | .time _ => "time"
  | .seq _ => "sequence"
  | .map _ => "mapping"
  | .record _ name _ => name

/-- Whether a value is nil. -/
def isNil : Value → Bool
  | .nil => true
  | _ => false

/-- Whether a value is a number. -/
def isNumeric : Value → Bool
  | .int _ | .uint _ | .float _ => true
  | _ => false

/-- The text of a string. -/
def asString? : Value → Option String
  | .str s => some s
  | _ => none

/-- A number as a float. -/
def asFloat? : Value → Option Float
  | .int i => some i.toFloat
  | .uint n => some n.toFloat
  | .float x => some x
  | _ => none

/-- Whether a value counts as true: anything but nil, false, the empty string and zero. -/
def truthy : Value → Bool
  | .nil => false
  | .bool b => b
  | .str s => !s.isEmpty
  | .int i => i != 0
  | .uint n => n != 0
  | .float x => x != 0
  | _ => true

/-- The number of characters of a string, or of members of a collection. -/
def length? : Value → Option Nat
  | .str s => some s.length
  | .seq items => some items.length
  | .map entries => some entries.length
  | .record _ _ fields => some (recordEntries fields).length
  | _ => none

/-- The member of a value under a key; the members of a sequence have their positions as keys. -/
def child? (v : Value) (key : String) : Option Value :=
  match v with
  | .map entries => Dict.get? entries key
  | .seq items => (Decimal.readUInt64? key.toList).bind fun i => items[i.toNat]?
  | .record _ _ fields => recordField? fields key
  | _ => none

/-- The entries of a dictionary with their keys as values. -/
def keyedEntries (entries : Dict Value) : List (Value × Value) :=
  entries.map fun entry => (.str entry.1, entry.2)

/-- The members of a collection with their positions or keys. -/
def entries? : Value → Option (List (Value × Value))
  | .seq items => some (items.zipIdx.map fun (v, i) => (.int (Int64.ofNat i), v))
  | .map entries => some (keyedEntries entries)
  | .record _ _ fields => some (keyedEntries (recordEntries fields))
  | _ => none

mutual

/-- Strict equality: the same type and the same content; times are equal as instants and records
only as one record. -/
def same : Value → Value → Bool
  | .nil, .nil => true
  | .bool a, .bool b => a == b
  | .int a, .int b => a == b
  | .uint a, .uint b => a == b
  | .float a, .float b => a == b
  | .str a, .str b => a == b
  | .time a, .time b => a.sameInstant b
  | .seq a, .seq b => sameItems a b
  | .map a, .map b => sameEntries a b
  | .record a _ _, .record b _ _ => a == b
  | _, _ => false

/-- Strict equality item by item. -/
def sameItems : List Value → List Value → Bool
  | [], [] => true
  | a :: as, b :: bs => same a b && sameItems as bs
  | _, _ => false

/-- Strict equality entry by entry. -/
def sameEntries : List (String × Value) → List (String × Value) → Bool
  | [], [] => true
  | (k, a) :: as, (l, b) :: bs => k == l && same a b && sameEntries as bs
  | _, _ => false

end

/-- A mapping of the given pairs. -/
def ofPairs (pairs : List (String × Value)) : Value := .map (Dict.ofPairs pairs)

end Value
end Stencil
