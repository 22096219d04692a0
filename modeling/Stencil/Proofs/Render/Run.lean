import Mathlib.Tactic.Choose
import Stencil.Proofs.Fault
import Stencil.Render.Nodes

/-!
# What the pieces of a render do

One equation for each primitive of a render, and the pieces that only read.

## Main results

* `Render.run_evaluate`, `Render.run_allocated`, `Render.run_load`, … — the primitives
* `Render.Readonly` — a piece that is an evaluation in the scope; it changes nothing but which texts
  are compiled, and never finds files that follow each other without end
* `Render.readonly_bind` — pieces that only read make up pieces that only read

## Design notes

Later results are about the primitives and about how pieces are put together.  Everything that only
reads is one primitive for them, `Render.evaluate`, by the lemmas `readonly_…`.
-/

namespace Stencil

open Markup

/-- Two actions are the same if they run alike from every state. -/
theorem Act.ext {σ α : Type} {act act' : Act σ α} (h : ∀ s, act.run s = act'.run s) : act = act' :=
  ExceptT.ext (funext h)

/-- A halt annotated with the files being evaluated. -/
def Halt.inChain (chain : List String) : Halt → Halt
  | .error e => .error (e.inChain chain)
  | .depth => .depth

/-- The functions that a render can call. -/
def Context.functions (c : Context) : FunctionTable := c.library.evaluator.functions

/-- A context with another library. -/
def Context.withLibrary (c : Context) (library : Library) : Context := { c with library }

/-- The context in which an evaluation leaves a render. -/
def Context.after {α : Type} (c : Context) (act : Evaluation α) : Context :=
  c.withEvaluator (act.run c.library.evaluator).2

namespace Render

variable {α β : Type}

/-! ### Primitives -/

/-- A result of an evaluation as one of a render. -/
def lifted (result : Except Fault α) : Except Halt α :=
  result.mapError fun fault => .error (.ofFault fault)

/-- A result that is handed on leaves the context as it is. -/
theorem run_ofExcept (result : Except Fault α) (c : Context) :
    (ofExcept result).run c = (lifted result, c) := by
  cases result <;> rfl

/-- An evaluation sees the scope and the functions of the context. Of the context it changes only
the caches of its own engine, which `Context.after` says. -/
theorem run_evaluate (f : Scope → Evaluation α) (c : Context) :
    (evaluate f).run c = (lifted ((f c.scope).value c.functions), c.after (f c.scope)) := by
  rw [evaluate, Act.run_bind, Act.run_modifyGet, Context.functions, ← Evaluation.run_fst]
  exact run_ofExcept _ _

/-- An action in a changed context: enter, run, leave. The leaving is also done where the action
halts. -/
theorem run_within (enter leave : Context → Context) (act : Render α) (c : Context) :
    (within enter leave act).run c = ((act.run (enter c)).1, leave (act.run (enter c)).2) := rfl

/-- The annotation gives an error that has no chain yet the chain of the context that the action
left behind. -/
theorem run_annotated (act : Render α) (c : Context) :
    (annotated act).run c =
      ((act.run c).1.mapError (·.inChain (act.run c).2.chain.reverse), (act.run c).2) := by
  rw [annotated, ExceptT.run_mk]
  rcases act.run c with ⟨(_ | _) | a, c₁⟩ <;> rfl

/-- Loading a file asks the library, keeps the library it leaves behind, and annotates the fault of
a file that cannot be loaded. -/
theorem run_load (file : String) (c : Context) :
    (load file).run c =
      ((lifted (c.library.load file).1).mapError (·.inChain c.chain.reverse),
        c.withLibrary (c.library.load file).2) := by
  rw [load, run_annotated, Act.run_bind, Act.run_modifyGet]
  simp only [run_ofExcept]
  rfl

/-- Allocating a single node and returning it as the output. -/
theorem run_allocated (node : Node) (c : Context) :
    (do return [← allocate node] : Render (List NodeId)).run c =
      (.ok [c.out.nextId], { c with out := (c.out.push node).2 }) := rfl

/-- A lifted result that is a value was that value before. -/
theorem of_lifted_eq_ok {result : Except Fault α} {a : α} (h : lifted result = .ok a) :
    result = .ok a := by
  cases result with
  | error fault => exact nomatch h
  | ok a' => exact congrArg Except.ok (Except.ok.inj h)

/-- What an evaluation that ends well gives, and where it leaves the render. -/
theorem of_run_evaluate {f : Scope → Evaluation α} {c c' : Context} {a : α}
    (h : (evaluate f).run c = (.ok a, c')) :
    (f c.scope).value c.functions = .ok a ∧ c' = c.after (f c.scope) := by
  rw [run_evaluate, Prod.mk.injEq] at h
  exact ⟨of_lifted_eq_ok h.1, h.2.symm⟩

/-- What is evaluated between two changes of the context. -/
theorem exists_of_run_within {enter leave : Context → Context} {act : Render α} {c c' : Context}
    {a : α} (h : (within enter leave act).run c = (.ok a, c')) :
    ∃ c₁, act.run (enter c) = (.ok a, c₁) ∧ c' = leave c₁ := by
  rw [run_within, Prod.mk.injEq] at h
  exact ⟨_, Prod.ext h.1 rfl, h.2.symm⟩

/-- Annotations are on failures alone. -/
theorem of_run_annotated {act : Render α} {c c' : Context} {a : α}
    (h : (annotated act).run c = (.ok a, c')) : act.run c = (.ok a, c') := by
  rw [run_annotated, Prod.mk.injEq] at h
  rcases hact : act.run c with ⟨halt | a', c₁⟩
  · rw [hact] at h
    exact nomatch h.1
  · rw [hact] at h
    exact Prod.ext h.1 h.2

/-- A load that gives a template gives the one the library has for the file. -/
theorem of_run_load {file : String} {c c' : Context} {t : Template}
    (h : (load file).run c = (.ok t, c')) : (c.library.load file).1 = .ok t := by
  rw [run_load, Prod.mk.injEq] at h
  cases hl : (c.library.load file).1 with
  | error fault =>
      rw [hl] at h
      exact nomatch h.1
  | ok t' =>
      rw [hl] at h
      exact congrArg Except.ok (Except.ok.inj h.1)

/-- Setting a variable changes the scope and nothing else. -/
theorem run_setVariable (name : String) (value : Value) (c : Context) :
    (setVariable name value).run c = (.ok (), { c with scope := c.scope.set name value }) := rfl

/-- A key counts as new once: the run marks it as seen. -/
theorem run_firstTime (key : OnceKey) (c : Context) :
    (firstTime key).run c =
      if c.seen.contains key then (.ok false, c)
      else (.ok true, { c with seen := key :: c.seen }) := by
  rw [firstTime, Act.run_get_bind]
  split
  · rfl
  · rfl

/-- Whether an element is due is always known. -/
theorem exists_run_isDue (id : NodeId) (e : Element) (c : Context) :
    ∃ due c', (isDue id e).run c = (.ok due, c') := by
  unfold isDue
  split
  · rw [run_firstTime]
    split
    · exact ⟨_, _, rfl⟩
    · exact ⟨_, _, rfl⟩
  · exact ⟨_, _, rfl⟩

/-- A copy appends the tree to the output, or fails where the id is of no node of the template. -/
theorem run_copy (t : Template) (id : NodeId) (c : Context) :
    (copy t id).run c =
      match c.out.deepCopy? t.arena id with
      | some (copied, out) => (.ok [copied], { c with out })
      | none => (.error (.error (.ofFault .missingNode)), c) := by
  rw [copy, Act.run_get_bind]
  cases c.out.deepCopy? t.arena id <;> rfl

/-- The content passed to a slot is looked up in the innermost slot scope alone, and that scope is
returned with it, since the content is rendered outside of it. -/
theorem run_passed? (name : String) (c : Context) :
    (passed? name).run c =
      (.ok (match c.slots with
        | own :: _ => (Dict.get? own name).map fun content => (own, content)
        | [] => none), c) := by
  rw [passed?, Act.run_get_bind]
  cases c.slots <;> rfl

/-! ### Pieces that only read -/

/-- A piece that is an evaluation in the scope. -/
def Readonly (act : Render α) : Prop :=
  ∃ f : Scope → Evaluation α, (∀ scope, (f scope).Failing Fault.Acyclic) ∧ act = evaluate f

/-- An evaluation whose faults are about text only reads the context. -/
theorem readonly_evaluate {f : Scope → Evaluation α} (h : ∀ scope, (f scope).Textual) :
    Readonly (evaluate f) :=
  ⟨f, fun scope => (h scope).mono fun _ => Fault.Textual.acyclic, rfl⟩

/-- Returning a value reads nothing. -/
theorem readonly_pure (a : α) : Readonly (pure a) :=
  ⟨fun _ => pure a, fun _ => Evaluation.failing_pure a,
    Act.ext fun c => (run_evaluate (fun _ => pure a) c).symm⟩

/-- To raise a fault other than that of endless layouts counts as reading only: the context stays as
it is. -/
theorem readonly_fail {fault : Fault} (h : fault.Acyclic) : Readonly (fail fault : Render α) :=
  ⟨fun _ => .fail fault, fun _ => Evaluation.failing_fail h,
    Act.ext fun c => (run_evaluate (fun _ => .fail fault) c).symm⟩

/-- An evaluation after another one is an evaluation. The scope does not change between them, and
texts that the first one compiles make no difference to the second. -/
theorem evaluate_bind (f : Scope → Evaluation α) (g : α → Scope → Evaluation β) :
    (evaluate f >>= fun a => evaluate (g a)) =
      evaluate fun scope => f scope >>= fun a => g a scope := by
  refine Act.ext fun c => ?_
  have hvalue := (f c.scope).run_fst c.library.evaluator
  have hfunctions := (f c.scope).functions_run c.library.evaluator
  rw [Act.run_bind, run_evaluate, run_evaluate, Evaluation.value_bind, Context.after, Context.after,
    Context.functions, ← hvalue]
  rcases hrun : (f c.scope).run c.library.evaluator with ⟨fault | a, ev⟩
  · rw [Evaluation.run_bind_of_error hrun]
    rfl
  · rw [hrun] at hfunctions
    rw [Evaluation.run_bind_of_ok hrun]
    show (evaluate (g a)).run (c.withEvaluator ev) = _
    rw [run_evaluate]
    show (lifted ((g a c.scope).value ev.functions), _) = _
    rw [hfunctions]
    rfl

/-- Reading in sequence is reading. The second act may depend on what the first one has read, so
whole evaluations of an element's attributes are covered. -/
theorem readonly_bind {act : Render α} {next : α → Render β} (h : Readonly act)
    (hn : ∀ a, Readonly (next a)) : Readonly (act >>= next) := by
  obtain ⟨f, hf, rfl⟩ := h
  choose g hg hnext using hn
  refine ⟨fun scope => f scope >>= fun a => g a scope, fun scope => ?_, ?_⟩
  · exact (hf scope).bind fun a => hg a scope
  · rw [← evaluate_bind]
    exact congrArg _ (funext hnext)

/-- Reading the scope is reading. -/
theorem readonly_scope (next : Scope → Render β) (hn : ∀ scope, Readonly (next scope)) :
    Readonly (get >>= fun c => next c.scope) := by
  choose g hg hnext using hn
  refine ⟨fun scope => g scope scope, fun scope => hg scope scope, Act.ext fun c => ?_⟩
  rw [Act.run_get_bind, hnext, run_evaluate, run_evaluate]

/-- Interpolating a text only reads the context. -/
theorem readonly_interpolated (s : String) : Readonly (interpolated s) := by
  unfold interpolated
  split
  · exact readonly_evaluate fun scope => Interpolation.textual_interpolate scope s false
  · exact readonly_pure s

/-- Evaluating a bound source only reads the context. -/
theorem readonly_bound (source : String) : Readonly (bound source) :=
  readonly_evaluate fun scope => scope.textual_evalPipeOrNil source

/-- Evaluating one argument of an include only reads the context. -/
theorem readonly_argument? (name value : String) : Readonly (argument? name value) := by
  unfold argument?
  split
  · exact readonly_bind (readonly_bound value) fun _ => readonly_pure _
  · split
    · exact readonly_pure none
    · exact readonly_bind (readonly_interpolated value) fun _ => readonly_pure _

/-- Evaluating the arguments of an include, each in the scope as it stands, only reads the context.
-/
theorem readonly_arguments (attributes : Attributes) :
    ∀ before, Readonly (arguments before attributes) := by
  induction attributes with
  | nil => exact fun before => readonly_pure before
  | cons entry rest ih =>
      intro before
      refine readonly_bind (readonly_argument? entry.1 entry.2) fun found => ?_
      cases found with
      | none => exact ih before
      | some argument => exact ih _

/-- Evaluating the properties of a slot only reads the context. -/
theorem readonly_properties (attributes : Attributes) :
    ∀ before, Readonly (properties before attributes) := by
  induction attributes with
  | nil => exact fun before => readonly_pure before
  | cons entry rest ih =>
      intro before
      unfold properties
      split
      · exact readonly_bind (readonly_bound _) fun v => ih _
      · exact ih before

/-- Checking the required arguments of a component only reads the context. -/
theorem readonly_require (names : List String) : Readonly (require names) := by
  induction names with
  | nil => exact readonly_pure ()
  | cons name names ih =>
      refine readonly_scope (fun scope =>
        if (scope.resolve? name).isSome then require names
        else fail (.requiredAttribute name)) fun scope => ?_
      split
      · exact ih
      · exact readonly_fail fun h => nomatch h

/-- Reading a directive of an element only reads the context. -/
theorem readonly_directive? (e : Element) (name : String) : Readonly (directive? e name) := by
  unfold directive?
  split
  · exact readonly_evaluate fun scope => scope.textual_evalPipe? _
  · exact readonly_pure none

/-- Evaluating the payload of an element, be it text or markup, only reads the context. -/
theorem readonly_payload? (e : Element) : Readonly (payload? e) := by
  refine readonly_bind (readonly_directive? e "v-html") fun html => ?_
  refine readonly_bind (readonly_directive? e "v-text") fun text => ?_
  cases text with
  | some v => exact readonly_pure _
  | none => cases html <;> exact readonly_pure _

/-- Evaluating the attributes of an element only reads the context. -/
theorem readonly_attributesOf (e : Element) : Readonly (attributesOf e) := by
  refine readonly_bind
    (readonly_evaluate fun scope => textual_evalAttributes scope _) fun attributes => ?_
  cases e.get? "v-show" with
  | some condition =>
      refine readonly_bind (readonly_evaluate fun scope => ?_) fun shown => readonly_pure _
      exact scope.textual_evalCondition condition
  | none => exact readonly_pure _

/-- Testing the condition of a branch only reads the context. -/
theorem readonly_holds (t : Template) (id : NodeId) : Readonly (holds t id) := by
  unfold holds
  split
  · exact readonly_evaluate fun scope => scope.textual_evalCondition _
  · exact readonly_pure true

/-- Evaluating what a loop runs over only reads the context. -/
theorem readonly_collection? (source : String) : Readonly (collection? source) := by
  unfold collection?
  split
  · exact readonly_scope (fun scope => pure (scope.resolve? source)) fun scope => readonly_pure _
  · exact readonly_evaluate fun scope => scope.textual_evalPipe? source

end Render
end Stencil
