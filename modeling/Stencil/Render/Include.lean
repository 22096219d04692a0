import Stencil.Json.Reader
import Stencil.Render.Context

/-!
# Includes and slots

## Main definitions

* `decodeArgument` — an argument that looks like JSON, as a value
* `Render.includeFile` — an element that stands for another template file
* `Render.slot` — an element that stands for the content an include passes

## Design notes

Content for a named slot, or with properties, is evaluated where the slot is; all other children of
an include are evaluated where they are written. The settings of a file override the arguments.
-/

namespace Stencil

open Markup

/-- Text that looks like a JSON object or array is read as one, if it is one. -/
def decodeArgument : Value → Value
  | .str s =>
    if hasPrefix "\x7b" s || hasPrefix "[" s then ((Json.read? s).map Value.ofJson).getD (.str s)
    else .str s
  | v => v

/-- The attributes that an element keeps in the output when it keeps its tag. -/
def keptAttributes (e : Element) : Attributes :=
  e.attributes.filter fun (name, _) => name != "v-keep" && (bindingName? name).isNone

namespace Render

/-- Text with the values of its expressions in their places. -/
def interpolated (s : String) : Render String :=
  if Interpolation.isIn s then evaluate (Interpolation.interpolate · s false) else return s

/-- The value of a binding, nil if it is an unresolved variable. -/
def bound (source : String) : Render Value := evaluate (·.evalPipeOrNil source)

/-- The argument that an attribute of an include gives, if it gives one. -/
def argument? (name value : String) : Render (Option (String × Value)) := do
  match bindingName? name with
  | some name => return some (name, decodeArgument (← bound value))
  | none =>
    if name == "include" || name == "v-keep" || isDirectiveAttribute name then return none
    else return some (name, decodeArgument (.str (← interpolated value)))

/-- The arguments of an include, on top of those before them. -/
def arguments (before : Frame) : Attributes → Render Frame
  | [] => return before
  | (name, value) :: rest => do
    match ← argument? name value with
    | some (name, v) => arguments (Dict.insert name v before) rest
    | none => arguments before rest

/-- The slot that a child of an include gives content for. -/
def definition? (t : Template) (id : NodeId) : Option (String × SlotBinding) :=
  (t.element? id).bind slotDefinition?

/-- The content that children of an include define for slots. -/
def definedSlots (t : Template) (children : List NodeId) : SlotScope :=
  Dict.ofPairs (children.filterMap fun id =>
    (definition? t id).map fun (name, binding) => (name, .scoped t id binding))

/-- The content that an include passes. All children without a slot of their own go to the default
slot. -/
def includedSlots (walk : Walk) (t : Template) (e : Element) : Render SlotScope := do
  let slots := definedSlots t e.children
  let others := e.children.filter fun id => (definition? t id).isNone
  if others.isEmpty then return slots
  let ids ← walk t others
  if Dict.contains slots defaultSlot then return slots
  else return Dict.insert defaultSlot (.nodes ids) slots

/-- The output of an element that stands for another template file. -/
def includeFile (walk : Walk) (t : Template) (e : Element) : Render (List NodeId) := do
  let file ← interpolated ((e.get? "include").getD "")
  let args ← arguments [] e.attributes
  let slots ← includedSlots walk t e
  let component ← load file
  let frame := Dict.overlay args component.frontMatter
  let body ← withFile component.file
    (withSlots slots (withFrame frame (walk component component.roots)))
  if e.has "v-keep" then
    return [← allocate (.element ⟨e.tag, keptAttributes e, body, none⟩)]
  else return body

/-- The properties of a slot: its bindings. -/
def properties (before : Frame) : Attributes → Render Frame
  | [] => return before
  | (name, value) :: rest => do
    match bindingName? name with
    | some name => do
      let v ← bound value
      properties (Dict.insert name v before) rest
    | none => properties before rest

/-- The content passed for a slot by the include around, and all that this include passes. -/
def passed? (name : String) : Render (Option (SlotScope × SlotContent)) := do
  match (← get).slots with
  | own :: _ => return (Dict.get? own name).map fun content => (own, content)
  | [] => return none

/-- The output of a slot: what the include around passes for it, or else its own children. Slots in
the content belong to the includes around the content. -/
def slot (walk : Walk) (t : Template) (e : Element) : Render (List NodeId) := do
  match ← passed? ((e.get? "name").getD defaultSlot) with
  | none => walk t e.children
  | some (_, .nodes ids) => return ids
  | some (own, .scoped definer id binding) => do
    let frame ← properties [] e.attributes
    match definer.element? id with
    | some content =>
      outsideSlots own (withFrame (binding.frame frame) (walk definer content.children))
    | none => return []

end Render
end Stencil
