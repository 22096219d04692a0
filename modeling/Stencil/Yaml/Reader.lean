import Stencil.Decimal.Read
import Stencil.Value.Text
import Stencil.Yaml.Event.Grammar

/-!
# Values of YAML

## Main definitions

* `valueOfScalar` — the value of a scalar; quoted ones are strings
* `Reader.value` — the value that begins with an event
* `Reader.document` — the value of the first document
* `parse` — the value of a text

## Design notes

An alias gives the value its anchor had when it was complete; within the anchored collection itself
it gives nil. The key of a mapping is the text of its value, and of two equal keys the later one
counts.
-/

namespace Stencil.Yaml

open Decimal

/-- The boolean of a spelling. -/
def boolOfText? (s : String) : Option Bool :=
  if s ∈ ["true", "True", "TRUE"] then some true
  else if s ∈ ["false", "False", "FALSE"] then some false
  else none

/-- The float that a spelling without digits stands for. -/
def specialFloat? (s : String) : Option Float :=
  if s ∈ [".inf", ".Inf", ".INF"] then some (1 / 0)
  else if s ∈ ["-.inf", "-.Inf", "-.INF"] then some (-1 / 0)
  else if s ∈ [".nan", ".NaN", ".NAN"] then some (0 / 0)
  else none

/-- The value of text without quotes. -/
def valueOfText (s : String) : Value :=
  if s ∈ ["null", "Null", "NULL", "~", ""] then .nil
  else if let some b := boolOfText? s then .bool b
  else if let some i := readInt64? s.toList then .int i
  else if let some u := readUInt64? s.toList then .uint u
  else if let some x := readFloat? s.toList then .float x
  else if let some x := specialFloat? s then .float x
  else .str s

/-- The value of a scalar. -/
def valueOfScalar (style : ScalarStyle) (text : String) : Value :=
  match style with
  | .singleQuoted | .doubleQuoted => .str text
  | .plain | .literal | .folded => valueOfText text

/-- Events still to be read, what comes after them, and the values of anchors, latest first. A
violation is met when the events in front of it are used up. -/
structure Reader.State where
  events : List Event
  violation : Option Violation
  anchors : List (Nat × Value)

/-- Reading values from events. -/
abbrev Reader := StateT Reader.State (Except Error)

namespace Reader

/-- The next event, nothing at the end. -/
def next? : Reader (Option Event) := do
  let s ← get
  match s.events, s.violation with
  | e :: events, _ => do
    set { s with events }
    return some e
  | [], some violation => throw (.malformed violation)
  | [], none => return none

/-- The next event of a collection that is not at its end. -/
def next : Reader Event := do
  match ← next? with
  | some e => return e
  | none => throw .unexpectedEnd

/-- Records the value of an anchor. -/
def anchored (anchor : Option Nat) (v : Value) : Reader Value := do
  if let some number := anchor then
    modify fun s => { s with anchors := (number, v) :: s.anchors }
  return v

/-- The value of an anchor, nil while it is incomplete. -/
def valueOfAnchor (number : Nat) : Reader Value := do
  return ((← get).anchors.lookup number).getD .nil

/-- The items of a sequence up to its end; `value` reads what begins with an event. -/
def items (value : Event → Reader (Option Value)) : (bound : Nat) → Reader (List Value)
  | 0 => throw .unexpectedEnd
  | bound + 1 => do
    match ← value (← next) with
    | some v => return v :: (← items value bound)
    | none => return []

/-- The pairs of a mapping up to its end, latest first on top of `pairs`. -/
def pairs (value : Event → Reader (Option Value)) :
    (bound : Nat) → Dict Value → Reader (Dict Value)
  | 0, _ => throw .unexpectedEnd
  | bound + 1, d => do
    match ← value (← next) with
    | some k => do
      match ← value (← next) with
      | some v => pairs value bound (Dict.insert k.display v d)
      | none => throw (.missingValue k.display)
    | none => return d

/-- The value that begins with an event, nothing at the end of a collection; `depth` bounds the
depth of nesting and the number of items. -/
def value : (depth : Nat) → Event → Reader (Option Value)
  | 0, _ => throw .unexpectedEnd
  | depth + 1, e => do
    match e with
    | .scalar style text anchor => return some (← anchored anchor (valueOfScalar style text))
    | .alias anchor => return some (← valueOfAnchor anchor)
    | .sequenceStart anchor => do
      return some (← anchored anchor (.seq (← items (value depth) (depth + 1))))
    | .mappingStart anchor => do
      return some (← anchored anchor (.map (← pairs (value depth) (depth + 1) [])))
    | .sequenceEnd | .mappingEnd => return none
    | .documentStart | .documentEnd => throw .unexpectedEvent

/-- The value of the first document, nil if there is none; `bound` bounds the number of events. -/
def document (bound : Nat) : (skips : Nat) → Reader Value
  | 0 => return .nil
  | skips + 1 => do
    match ← next? with
    | none | some .documentEnd => return .nil
    | some .documentStart => document bound skips
    | some e => return (← value bound e).getD .nil

end Reader

/-- The value of a stream of events. -/
def valueOfEvents (s : Stream Event) : Except Error Value :=
  let bound := s.items.length + 1
  ((Reader.document bound bound).run ⟨s.items, s.violation, []⟩).map (·.1)

/-- The value of the first document of a text. -/
def parse (s : String) : Except Error Value := valueOfEvents (events s)

end Stencil.Yaml
