import Stencil.Yaml.Token

/-!
# Events of YAML

## Main definitions

* `Event` — the starts and ends of collections and documents, scalars and aliases, in document order
-/

namespace Stencil.Yaml

/-- A step through the documents of a text. Anchors are numbered in the order they are set, so a
name that is set again gives another number. -/
inductive Event where
  | documentStart | documentEnd
  | scalar (style : ScalarStyle) (text : String) (anchor : Option Nat)
  | alias (anchor : Nat)
  | sequenceStart (anchor : Option Nat)
  | sequenceEnd
  | mappingStart (anchor : Option Nat)
  | mappingEnd
  deriving DecidableEq, Repr

/-- The scalar that stands where nothing is written. -/
def Event.nothing : Event := .scalar .plain "~" none

end Stencil.Yaml
