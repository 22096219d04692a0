import Stencil.Act
import Stencil.Library
import Stencil.Render.Slot

/-!
# Contexts of rendering

What evaluating a template reads and changes.

## Main definitions

* `Context` — the state of a render
* `Render` — evaluation of a piece of a template
* `Render.within` — a piece evaluated between two changes of the context
* `Render.withFrame`, `Render.withTag`, `Render.withFile`, `Render.withSlots`, `Render.outsideSlots`
  — what the constructs of templates add to the context of their content

## Design notes

A failure keeps the context, so that everything `within` has entered is left again whatever happens.
Stacks are lists with their innermost entry first.
-/

namespace Stencil

open Markup

/-- What an element that renders once is known by: itself, or a text. A text is the same in every
template, an id is not. -/
inductive OnceKey where
  | node (id : NodeId)
  | text (id : String)
  deriving DecidableEq, Repr

/-- The state of a render. Scope, chain, tags and slots are stacks: what a construct puts on them it
takes off again. What was seen, the output and the library only grow. -/
structure Context where
  library : Library
  scope : Scope
  /-- The template files being evaluated. -/
  chain : List String
  /-- The tags of the output elements around. -/
  tags : List String
  /-- What has been rendered once. -/
  seen : List OnceKey
  /-- What the includes around pass to their components. -/
  slots : List SlotScope
  /-- The output. -/
  out : Arena

/-- A context with no output yet. -/
def Context.new (library : Library) (scope : Scope) : Context :=
  ⟨library, scope, [], [], [], [], Arena.empty 0⟩

/-- A context with more texts compiled. -/
def Context.withEvaluator (c : Context) (evaluator : Evaluator) : Context :=
  { c with library := { c.library with evaluator } }

/-- Evaluation of a piece of a template. -/
abbrev Render := Act Context

/-- Evaluation of sibling nodes of a template to output nodes. -/
abbrev Walk := Template → List NodeId → Render (List NodeId)

namespace Render

variable {α : Type}

/-- Fails. -/
def fail (fault : Fault) : Render α := throw (.error (.ofFault fault))

/-- A result that may be a failure. -/
def ofExcept : Except Fault α → Render α
  | .ok a => pure a
  | .error fault => fail fault

/-- What evaluation in the scope gives; the texts that it compiles stay compiled. -/
def evaluate (f : Scope → Evaluation α) : Render α := do
  let result ← modifyGet fun c =>
    let (result, evaluator) := (f c.scope).run c.library.evaluator
    (result, c.withEvaluator evaluator)
  ofExcept result

/-- Adds a node to the output. -/
def allocate (node : Node) : Render NodeId :=
  modifyGet fun c => (c.out.nextId, { c with out := (c.out.push node).2 })

/-- Evaluates between two changes of the context. -/
def within (enter leave : Context → Context) (act : Render α) : Render α :=
  ExceptT.mk fun c =>
    let (result, c) := act.run (enter c)
    (result, leave c)

/-- Evaluates with more variables. -/
def withFrame (frame : Frame) : Render α → Render α :=
  within (fun c => { c with scope := c.scope.push frame })
    (fun c => { c with scope := c.scope.pop })

/-- Evaluates within an output element. -/
def withTag (tag : String) : Render α → Render α :=
  within (fun c => { c with tags := tag :: c.tags }) (fun c => { c with tags := c.tags.tail })

/-- Evaluates with the content that an include passes. -/
def withSlots (slots : SlotScope) : Render α → Render α :=
  within (fun c => { c with slots := slots :: c.slots }) (fun c => { c with slots := c.slots.tail })

/-- Evaluates content where it was written, outside of the include that passes it as `own`. -/
def outsideSlots (own : SlotScope) : Render α → Render α :=
  within (fun c => { c with slots := c.slots.tail }) (fun c => { c with slots := own :: c.slots })

/-- Annotates failures with the files being evaluated. -/
def annotated (act : Render α) : Render α :=
  ExceptT.mk fun c =>
    match act.run c with
    | (.error (.error e), c) => (.error (.error (e.inChain c.chain.reverse)), c)
    | result => result

/-- Evaluates the content of a file; failures name it. -/
def withFile (file : String) (act : Render α) : Render α :=
  within (fun c => { c with chain := file :: c.chain }) (fun c => { c with chain := c.chain.tail })
    (annotated act)

/-- The template of a file. -/
def load (file : String) : Render Template :=
  annotated do
    let result ← modifyGet fun c =>
      let (result, library) := c.library.load file
      (result, { c with library })
    ofExcept result

/-- Sets a variable in the innermost frame. -/
def setVariable (name : String) (value : Value) : Render Unit :=
  modify fun c => { c with scope := c.scope.set name value }

/-- Whether a key is met for the first time; from then on it is not. -/
def firstTime (key : OnceKey) : Render Bool := do
  if (← get).seen.contains key then return false
  modify fun c => { c with seen := key :: c.seen }
  return true

/-- The output nodes of a whole template: its settings are variables. -/
def template (walk : Walk) (t : Template) : Render (List NodeId) :=
  withFile t.file (withFrame t.frontMatter (walk t t.roots))

end Render
end Stencil
