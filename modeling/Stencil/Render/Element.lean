import Stencil.Render.Include

/-!
# Elements

## Main definitions

* `requiredNames` — the variables that a template element demands
* `Render.wrapper` — a template element: it checks and sets variables and stands for its content
* `Render.element` — any other element
-/

namespace Stencil

open Markup Text

/-- Whether an attribute lists required variables. -/
def isRequirement (name : String) : Bool := name == ":required" || name == ":require"

/-- The variables that an element requires, in order. -/
def requiredNames (e : Element) : List String :=
  let lists := (e.attributes.filter fun (name, _) => isRequirement name).map (·.2)
  let names := lists.flatMap fun list => (splitOnChar ',' list.toList).map trim
  (names.filter (!·.isEmpty)).map String.ofList

namespace Render

/-- Fails if one of the variables does not resolve. -/
def require : List String → Render Unit
  | [] => return
  | name :: names => do
    if ((← get).scope.resolve? name).isSome then require names
    else fail (.requiredAttribute name)

/-- Sets the bindings among some attributes as variables; each sees those before it. -/
def setBindings : Attributes → Render Unit
  | [] => return
  | (name, source) :: rest => do
    if isRequirement name then setBindings rest
    else
      match bindingName? name with
      | some name => do
        let v ← bound source
        setVariable name v
        setBindings rest
      | none => setBindings rest

/-- The value of a directive of an element, nothing if there is no directive or it does not resolve.
-/
def directive? (e : Element) (name : String) : Render (Option Value) := do
  match e.get? name with
  | some source => evaluate (·.evalPipe? source)
  | none => return none

/-- The output of a template element: it is not in the output itself, and stands for markup or for
its children. -/
def wrapper (walk : Walk) (t : Template) (e : Element) : Render (List NodeId) := do
  require (requiredNames e)
  setBindings e.attributes
  match ← directive? e "v-html" with
  | some html => return [← allocate (.raw html.display)]
  | none => walk t e.children

/-- What replaces the children of an element: text, or else markup. -/
def payload? (e : Element) : Render (Option Payload) := do
  let html ← directive? e "v-html"
  let text ← directive? e "v-text"
  match html, text with
  | _, some v => return some (.text (escape v.display))
  | some v, none => return some (.html v.display)
  | none, none => return none

/-- The output attributes of an element. -/
def attributesOf (e : Element) : Render Attributes := do
  let attributes ← evaluate (evalAttributes · e.attributes)
  match e.get? "v-show" with
  | some condition => do
    let shown ← evaluate (·.evalCondition condition)
    return if shown then attributes else hide attributes
  | none => return attributes

/-- The output of any other element. -/
def element (walk : Walk) (t : Template) (e : Element) : Render (List NodeId) := do
  let payload ← payload? e
  let attributes ← attributesOf e
  let children ← if payload.isSome then pure [] else withTag e.tag (walk t e.children)
  return [← allocate (.element ⟨e.tag, attributes, children, payload⟩)]

end Render
end Stencil
