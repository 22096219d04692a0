import Stencil.Yaml.Tag

/-!
# Tokens of YAML

## Main definitions

* `ScalarStyle` — how a scalar is written
* `Token` — the marks, properties and scalars of a text
* `Stream` — items up to the end of a text or to the first broken rule
-/

namespace Stencil.Yaml

/-- How a scalar is written. Quoted scalars are strings; the others may be numbers, booleans or nil.
-/
inductive ScalarStyle where
  | plain | singleQuoted | doubleQuoted | literal | folded
  deriving DecidableEq, Repr

/-- A mark, a property or a scalar. Properties carry the column they start at, a tag the handle that
has to be declared for it. -/
inductive Token where
  | directive (d : Directive)
  | documentStart | documentEnd | streamEnd
  | blockSequenceStart | blockMappingStart | blockEnd
  | flowSequenceStart | flowSequenceEnd | flowMappingStart | flowMappingEnd
  | entry | comma | key | value
  | alias (name : String)
  | anchor (name : String) (column : Nat)
  | tag (handle : Option String) (column : Nat)
  | scalar (style : ScalarStyle) (text : String)
  deriving DecidableEq, Repr

/-- Items up to the end of a text, or to the first rule it breaks. -/
structure Stream (α : Type) where
  items : List α
  violation : Option Violation

end Stencil.Yaml
