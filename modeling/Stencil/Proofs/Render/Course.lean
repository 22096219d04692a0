import Stencil.Render.Nodes

/-!
# The course of a render

Which nodes a render comes to, and in which contexts.

## Main definitions

* `Render.Task` — a piece of a template to be evaluated
* `Render.Leads` — what evaluating a piece comes to next
* `Render.Reaches` — what it ever comes to
* `Render.Loads` — the files that are loaded on the way

## Design notes

A rule names the runs that end well before the next piece, so that its context is the one in which
they leave the render.  Pieces are those of `Render`, one kind for each function that evaluates
nodes.
-/

namespace Stencil

open Markup

namespace Context

/-- A context with more variables. -/
def inFrame (c : Context) (frame : Frame) : Context := { c with scope := c.scope.push frame }

/-- A context within an output element. -/
def inTag (c : Context) (tag : String) : Context := { c with tags := tag :: c.tags }

/-- A context within the content of a file. -/
def inFile (c : Context) (file : String) : Context := { c with chain := file :: c.chain }

/-- A context within an include that passes content. -/
def inSlots (c : Context) (slots : SlotScope) : Context := { c with slots := slots :: c.slots }

/-- A context outside of the innermost include. -/
def outside (c : Context) : Context := { c with slots := c.slots.tail }

end Context

namespace Render

/-- A piece of a template to be evaluated, nested to a depth at most. There is one form for each of
the functions that call each other, with all that it is called with. -/
inductive Task where
  | template (depth : Nat) (t : Template)
  | siblings (depth : Nat) (t : Template) (ids : List NodeId)
  | groups (depth : Nat) (t : Template) (bound : Nat) (ids : List NodeId)
  | chain (depth : Nat) (t : Template) (ids : List NodeId)
  | node (depth : Nat) (t : Template) (id : NodeId)
  | entries (depth : Nat) (t : Template) (id : NodeId) (e : Element) (clause : LoopClause)
      (entries : List (Value × Value))
  | once (depth : Nat) (t : Template) (id : NodeId) (e : Element)
  | include (depth : Nat) (t : Template) (e : Element)
  | wrapper (depth : Nat) (t : Template) (e : Element)
  | slot (depth : Nat) (t : Template) (e : Element)
  | element (depth : Nat) (t : Template) (e : Element)

/-- What an element is evaluated as, nothing if it is copied. -/
def construct? (depth : Nat) (t : Template) (e : Element) : Option Task :=
  if e.has "v-pre" then none
  else if e.tag == "vuego" && e.has "include" then some (.include depth t e)
  else if e.tag == "template" then some (.wrapper depth t e)
  else if e.tag == "slot" then some (.slot depth t e)
  else some (.element depth t e)

/-- Children of an include that pass no content for a slot of their own. -/
def unnamedChildren (t : Template) (e : Element) : List NodeId :=
  e.children.filter fun id => (definition? t id).isNone

/-- Evaluating a piece in a context comes to another piece next, in another context. -/
inductive Leads : Task → Context → Task → Context → Prop where
  | template {depth : Nat} {t : Template} {c : Context} :
      Leads (.template depth t) c (.siblings depth t t.roots)
        ((c.inFile t.file).inFrame t.frontMatter)
  | siblings {depth : Nat} {t : Template} {ids : List NodeId} {c : Context} :
      Leads (.siblings (depth + 1) t ids) c (.groups depth t ids.length ids) c
  | condition {depth bound : Nat} {t : Template} {id : NodeId} {ids : List NodeId} {c : Context} :
      Siblings.role t id = .condition →
      Leads (.groups depth t (bound + 1) (id :: ids)) c
        (.chain depth t (id :: (Siblings.chainRest t ids).1)) c
  | afterChain {depth bound : Nat} {t : Template} {id : NodeId} {ids here : List NodeId}
      {c c₁ : Context} :
      Siblings.role t id = .condition →
      (chain (node (nodes depth) t) t (id :: (Siblings.chainRest t ids).1)).run c =
        (.ok here, c₁) →
      Leads (.groups depth t (bound + 1) (id :: ids)) c
        (.groups depth t bound (Siblings.chainRest t ids).2) c₁
  | orphan {depth bound : Nat} {t : Template} {id : NodeId} {ids : List NodeId} {c : Context} :
      Siblings.role t id = .orphan →
      Leads (.groups depth t (bound + 1) (id :: ids)) c (.groups depth t bound ids) c
  | single {depth bound : Nat} {t : Template} {id : NodeId} {ids : List NodeId} {c : Context} :
      Siblings.role t id = .loop ∨ Siblings.role t id = .plain →
      Leads (.groups depth t (bound + 1) (id :: ids)) c (.node depth t id) c
  | alternative {depth bound : Nat} {t : Template} {id other : NodeId} {ids after : List NodeId}
      {c c₁ : Context} :
      Siblings.role t id = .loop → (node (nodes depth) t id).run c = (.ok [], c₁) →
      Siblings.elseAfter? t ids = some (other, after) →
      Leads (.groups depth t (bound + 1) (id :: ids)) c (.node depth t other) c₁
  | afterAlternative {depth bound : Nat} {t : Template} {id other : NodeId}
      {ids after here : List NodeId} {c c₁ c₂ : Context} :
      Siblings.role t id = .loop → (node (nodes depth) t id).run c = (.ok [], c₁) →
      Siblings.elseAfter? t ids = some (other, after) →
      (node (nodes depth) t other).run c₁ = (.ok here, c₂) →
      Leads (.groups depth t (bound + 1) (id :: ids)) c (.groups depth t bound after) c₂
  | afterSingle {depth bound : Nat} {t : Template} {id : NodeId} {ids here : List NodeId}
      {c c₁ : Context} :
      Siblings.role t id = .plain ∨
        Siblings.role t id = .loop ∧ (here ≠ [] ∨ Siblings.elseAfter? t ids = none) →
      (node (nodes depth) t id).run c = (.ok here, c₁) →
      Leads (.groups depth t (bound + 1) (id :: ids)) c (.groups depth t bound ids) c₁
  | holds {depth : Nat} {t : Template} {id : NodeId} {ids : List NodeId} {c c₁ : Context} :
      (holds t id).run c = (.ok true, c₁) →
      Leads (.chain depth t (id :: ids)) c (.node depth t id) c₁
  | fails {depth : Nat} {t : Template} {id : NodeId} {ids : List NodeId} {c c₁ : Context} :
      (Render.holds t id).run c = (.ok false, c₁) →
      Leads (.chain depth t (id :: ids)) c (.chain depth t ids) c₁
  | loop {depth : Nat} {t : Template} {id : NodeId} {e : Element} {source : String}
      {clause : LoopClause} {value? : Option Value} {c c₁ : Context} :
      t.arena.get? id = some (.element e) → e.get? "v-for" = some source →
      LoopClause.parse? source = some clause →
      (collection? clause.collection).run c = (.ok value?, c₁) →
      Leads (.node depth t id) c
        (.entries depth t id e clause ((value?.map loopEntries).getD [])) c₁
  | entry {depth : Nat} {t : Template} {id : NodeId} {e : Element} {clause : LoopClause}
      {entry : Value × Value} {entries : List (Value × Value)} {c : Context} :
      Leads (.entries depth t id e clause (entry :: entries)) c (.once depth t id e)
        (c.inFrame (clause.frame entry.1 entry.2))
  | afterEntry {depth : Nat} {t : Template} {id : NodeId} {e : Element} {clause : LoopClause}
      {entry : Value × Value} {entries : List (Value × Value)} {here : List NodeId}
      {c c₁ : Context} :
      (withFrame (clause.frame entry.1 entry.2) (nodeOnce (nodes depth) t id e)).run c =
        (.ok here, c₁) →
      Leads (.entries depth t id e clause (entry :: entries)) c
        (.entries depth t id e clause entries) c₁
  | once {depth : Nat} {t : Template} {id : NodeId} {e : Element} {c : Context} :
      t.arena.get? id = some (.element e) → e.get? "v-for" = none →
      Leads (.node depth t id) c (.once depth t id e) c
  | due {depth : Nat} {t : Template} {id : NodeId} {e : Element} {task : Task} {c c₁ : Context} :
      (isDue id e).run c = (.ok true, c₁) → construct? depth t e = some task →
      Leads (.once depth t id e) c task c₁
  | passing {depth : Nat} {t : Template} {e : Element} {file : String} {args : Frame}
      {c c₁ c₂ : Context} :
      (interpolated ((e.get? "include").getD "")).run c = (.ok file, c₁) →
      (arguments [] e.attributes).run c₁ = (.ok args, c₂) → unnamedChildren t e ≠ [] →
      Leads (.include depth t e) c (.siblings depth t (unnamedChildren t e)) c₂
  | included {depth : Nat} {t component : Template} {e : Element} {file : String} {args : Frame}
      {slots : SlotScope} {c c₁ c₂ c₃ c₄ : Context} :
      (interpolated ((e.get? "include").getD "")).run c = (.ok file, c₁) →
      (arguments [] e.attributes).run c₁ = (.ok args, c₂) →
      (includedSlots (nodes depth) t e).run c₂ = (.ok slots, c₃) →
      (load file).run c₃ = (.ok component, c₄) →
      Leads (.include depth t e) c (.siblings depth component component.roots)
        (((c₄.inFile component.file).inSlots slots).inFrame
          (Dict.overlay args component.frontMatter))
  | wrapper {depth : Nat} {t : Template} {e : Element} {c c₁ c₂ c₃ : Context} :
      (require (requiredNames e)).run c = (.ok (), c₁) →
      (setBindings e.attributes).run c₁ = (.ok (), c₂) →
      (directive? e "v-html").run c₂ = (.ok none, c₃) →
      Leads (.wrapper depth t e) c (.siblings depth t e.children) c₃
  | fallback {depth : Nat} {t : Template} {e : Element} {c c₁ : Context} :
      (passed? ((e.get? "name").getD defaultSlot)).run c = (.ok none, c₁) →
      Leads (.slot depth t e) c (.siblings depth t e.children) c₁
  | content {depth : Nat} {t definer : Template} {e content : Element} {own : SlotScope}
      {id : NodeId} {binding : SlotBinding} {frame : Frame} {c c₁ c₂ : Context} :
      (passed? ((e.get? "name").getD defaultSlot)).run c =
        (.ok (some (own, .scoped definer id binding)), c₁) →
      (properties [] e.attributes).run c₁ = (.ok frame, c₂) →
      definer.element? id = some content →
      Leads (.slot depth t e) c (.siblings depth definer content.children)
        (c₂.outside.inFrame (binding.frame frame))
  | children {depth : Nat} {t : Template} {e : Element} {attributes : Attributes}
      {c c₁ c₂ : Context} :
      (payload? e).run c = (.ok none, c₁) → (attributesOf e).run c₁ = (.ok attributes, c₂) →
      Leads (.element depth t e) c (.siblings depth t e.children) (c₂.inTag e.tag)

/-- Evaluating a piece in a context comes to another piece, in another context. It is what `Leads`
relates, any number of times, so an induction on it goes along a run. -/
inductive Reaches (task : Task) (c : Context) : Task → Context → Prop where
  | start : Reaches task c task c
  | step {task₁ task₂ : Task} {c₁ c₂ : Context} : Reaches task c task₁ c₁ →
      Leads task₁ c₁ task₂ c₂ → Reaches task c task₂ c₂

/-- Evaluating a piece in a context comes to the loading of a file, in another context.  Only
includes load files: each the one that it names, once the content for its slots is collected. -/
inductive Loads : Task → Context → String → Context → Prop where
  | mk {depth : Nat} {t : Template} {e : Element} {file : String} {args : Frame} {slots : SlotScope}
      {c c₁ c₂ c₃ : Context} :
      (interpolated ((e.get? "include").getD "")).run c = (.ok file, c₁) →
      (arguments [] e.attributes).run c₁ = (.ok args, c₂) →
      (includedSlots (nodes depth) t e).run c₂ = (.ok slots, c₃) →
      Loads (.include depth t e) c file c₃

variable {task task₁ task₂ : Task} {c c₁ c₂ : Context}

/-- What a piece comes to by way of what it leads to. -/
theorem Reaches.of_leads (h : Leads task c task₁ c₁) (hr : Reaches task₁ c₁ task₂ c₂) :
    Reaches task c task₂ c₂ := by
  induction hr with
  | start => exact .step .start h
  | step _ hleads ih => exact .step ih hleads

theorem Reaches.trans (h : Reaches task c task₁ c₁) (h' : Reaches task₁ c₁ task₂ c₂) :
    Reaches task c task₂ c₂ := by
  induction h' with
  | start => exact h
  | step _ hleads ih => exact .step ih hleads

end Render
end Stencil
