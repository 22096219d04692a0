import Stencil.Template

/-!
# Slots

Content that an include passes to the component it includes.

## Main definitions

* `SlotBinding` — how the properties of a slot become variables of its content
* `SlotContent`, `SlotScope` — the content under the names of slots
* `slotDefinition?` — the slot that an element gives content for
-/

namespace Stencil

open Markup Text

/-- How the properties of a slot become variables of its content. -/
inductive SlotBinding where
  /-- All properties as one mapping. -/
  | whole (name : String)
  /-- Some properties, each as a variable. -/
  | listed (names : List String)
  /-- All properties, each as a variable. -/
  | spread
  deriving DecidableEq, Repr

namespace SlotBinding

/-- The binding a text stands for: a name, names between braces, or nothing. -/
def parse (s : String) : SlotBinding :=
  let cs := trim s.toList
  if cs.isEmpty then .spread
  else
    match Attribute.betweenBraces? cs with
    | some inner =>
      .listed ((((splitOnChar ',' inner).map trim).filter (!·.isEmpty)).map String.ofList)
    | none => .whole (String.ofList cs)

/-- The variables of slot content, from the properties of the slot. -/
def frame (b : SlotBinding) (properties : Frame) : Frame :=
  match b with
  | .whole name => [(name, .map properties)]
  | .listed names =>
    Dict.ofPairs (names.map fun name => (name, (Dict.get? properties name).getD .nil))
  | .spread => properties

end SlotBinding

/-- Content for one slot. Content of the first form is evaluated once, by the include; that of the
second anew for each slot that shows it. -/
inductive SlotContent where
  /-- Output nodes, evaluated where the content is written. -/
  | nodes (ids : List NodeId)
  /-- The children of a template element, to be evaluated where the slot is. -/
  | scoped (template : Template) (id : NodeId) (binding : SlotBinding)

/-- Content under the names of slots. -/
abbrev SlotScope := Dict SlotContent

/-- The name of the slot that takes content without a name. -/
def defaultSlot : String := "default"

/-- The slot that an attribute names. -/
def slotName? (key : String) : Option String :=
  let name? :=
    if key == "v-slot" then some defaultSlot
    else (nameAfter? "v-slot:" key).or (nameAfter? "#" key)
  name?.map fun name => if name.isEmpty then defaultSlot else name

/-- The slot that an element gives content for, with its binding. -/
def slotDefinition? (e : Element) : Option (String × SlotBinding) :=
  if e.tag == "template" then
    e.attributes.findSome? fun (key, value) =>
      (slotName? key).map fun name => (name, SlotBinding.parse value)
  else none

end Stencil
