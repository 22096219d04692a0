import Stencil.Markup.Printer
import Stencil.Render.Element
import Stencil.Render.Loop
import Stencil.Render.Siblings

/-!
# Evaluation of templates

## Main definitions

* `Render.nodeOnce` — the output of an element outside of its own loop
* `Render.node` — the output of a node
* `Render.nodes` — the output of sibling nodes, nested to some depth
* `Render.markup` — the text of output nodes
* `Render.pageWithin`, `Render.page` — the text of a whole template

## Design notes

Every construct evaluates the nodes in it through a parameter, and only `Render.nodes` recurs. It
does so on the depth of nesting, that of included files counted in: files that include each other
without end run out of depth.
-/

namespace Stencil

open Markup

/-- What an element that renders once is known by; a text given for it counts before itself. -/
def onceKey? (id : NodeId) (e : Element) : Option OnceKey :=
  match e.get? "v-once-id" with
  | some text => some (.text text)
  | none => if e.has "v-once" then some (.node id) else none

namespace Render

/-- Whether an element is to be rendered: one that renders once only the first time. -/
def isDue (id : NodeId) (e : Element) : Render Bool :=
  match onceKey? id e with
  | some key => firstTime key
  | none => return true

/-- A node of a template with all below it, as it is. -/
def copy (t : Template) (id : NodeId) : Render (List NodeId) := do
  match (← get).out.deepCopy? t.arena id with
  | some (copied, out) => do
    modify fun c => { c with out }
    return [copied]
  | none => fail .missingNode

/-- The output of an element outside of its own loop. -/
def nodeOnce (walk : Walk) (t : Template) (id : NodeId) (e : Element) : Render (List NodeId) := do
  if !(← isDue id e) then return []
  if e.has "v-pre" then copy t id
  else if e.tag == "vuego" && e.has "include" then includeFile walk t e
  else if e.tag == "template" then wrapper walk t e
  else if e.tag == "slot" then slot walk t e
  else element walk t e

/-- The output of a text: values in it are escaped, but not in elements of raw text. -/
def text (s : String) : Render (List NodeId) := do
  if Interpolation.isIn s then
    let escaped := !(((← get).tags.head?.map isRawText).getD false)
    let s ← evaluate (Interpolation.interpolate · s escaped)
    return [← allocate (.text s)]
  else return [← allocate (.text s)]

/-- The output of a node. -/
def node (walk : Walk) (t : Template) (id : NodeId) : Render (List NodeId) :=
  match t.arena.get? id with
  | none => fail .missingNode
  | some (.text s) => text s
  | some (.raw s) => return [← allocate (.raw s)]
  | some (.element e) =>
    match e.get? "v-for" with
    | some clause => loop clause (nodeOnce walk t id e)
    | none => nodeOnce walk t id e

/-- The output of sibling nodes, nested to a depth at most. -/
def nodes : (depth : Nat) → Walk
  | 0, _, _ => throw .depth
  | depth + 1, t, ids => siblings (node (nodes depth) t) t ids

/-- How deep templates may be nested. -/
def depthLimit : Nat := 10000

/-- The text of output nodes. -/
def markup (roots : List NodeId) : Render String := do
  match roots.mapM (← get).out.tree? with
  | some forest => return printForest forest
  | none => fail .missingNode

/-- The text of a whole template, nested to a depth at most. -/
def pageWithin (depth : Nat) (t : Template) : Render String := do
  let roots ← template (nodes depth) t
  markup roots

/-- The text of a whole template. -/
def page (t : Template) : Render String := pageWithin depthLimit t

end Render
end Stencil
