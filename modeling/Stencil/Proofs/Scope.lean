import Stencil.Attribute.Eval

/-!
# Scopes and their flattening

A stack of frames is as good as one frame with all of its variables.

## Main definitions

* `Scope.flattened` — all variables in a single frame, over the same fallback value
* `Scope.Change`, `Scope.after` — changes of a scope, one after the other
* `Scope.Equivalent` — scopes that nothing that is evaluated tells apart

## Main results

* `Scope.lookup?_eq` — a name has the value that the flattened scope has, or that of a member of the
  fallback value
* `Scope.Equivalent.of_lookup?_eq` — scopes with the same look-ups are equivalent
* `Scope.equivalent_flattened` — a scope that was built by changes is equivalent to its flattening

## Design notes

All that is evaluated comes to the variables through `Scope.lookup?`.  There is one lemma for each
evaluator, that it is the same in scopes with the same look-ups; that of a flattened scope is then a
fact about dictionaries.
-/

namespace Stencil
namespace Scope

/-! ### Flattening -/

/-- The same variables in a single frame, over the same fallback value. Each name has the value of
the innermost frame that has it. -/
def flattened (s : Scope) : Scope := ⟨s.flatten, [], s.root⟩

/-- Each frame binds a name once. -/
def Sorted (s : Scope) : Prop := ∀ frame ∈ s.frames, Dict.Sorted frame

variable {s t : Scope}

/-- A flattened scope has under a name what the innermost frame with that name has. -/
theorem get?_flatten (h : s.Sorted) (name : String) :
    Dict.get? s.flatten name = s.frames.findSome? (Dict.get? · name) := by
  unfold Sorted at h
  unfold flatten
  generalize s.frames = frames at h ⊢
  induction frames with
  | nil => rfl
  | cons frame frames ih =>
      have hfirst : Dict.Sorted frame := h frame List.mem_cons_self
      have hrest := ih fun frame' hmem => h frame' (List.mem_cons_of_mem _ hmem)
      rw [List.foldr_cons, Dict.get?_overlay hfirst, hrest, List.findSome?_cons]
      cases Dict.get? frame name <;> rfl

/-- A name is looked up in the frames, flattened to one, and after them in the fallback value.
Flattening keeps the innermost value of each name, as a look-up does. -/
theorem lookup?_eq (h : s.Sorted) (name : String) :
    s.lookup? name = (Dict.get? s.flatten name).or (s.root.bind (·.child? name)) := by
  rw [lookup?, get?_flatten h]

/-- A scope and the same scope flattened have the same variables. Everything evaluated in a scope
comes down to this. -/
theorem lookup?_flattened (h : s.Sorted) : s.flattened.lookup? = s.lookup? := by
  funext name
  rw [lookup?_eq h]
  simp [flattened, lookup?, frames]

/-! ### Equivalence -/

/-- Nothing that is evaluated tells two scopes apart. It is asked of all the ways of evaluation, so
no way of reading a scope is left out. -/
structure Equivalent (s t : Scope) : Prop where
  evalExpr : ∀ source, s.evalExpr source = t.evalExpr source
  evalPipe : ∀ source, s.evalPipe source = t.evalPipe source
  evalCondition : ∀ source, s.evalCondition source = t.evalCondition source
  interpolate : ∀ text escaped,
    Interpolation.interpolate s text escaped = Interpolation.interpolate t text escaped
  evalAttributes : ∀ attributes,
    Stencil.evalAttributes s attributes = Stencil.evalAttributes t attributes

section Congruence

variable (h : s.lookup? = t.lookup?)

include h

/-- Scopes with the same variables resolve the same paths. -/
theorem resolvePath?_congr : s.resolvePath? = t.resolvePath? := by
  have hkey : s.stepKey? = t.stepKey? := by
    funext step
    cases step <;> simp only [stepKey?, h]
  have hfollow : s.follow? = t.follow? := by
    funext steps
    induction steps with
    | nil => rfl
    | cons step steps ih =>
        funext v
        rw [follow?, follow?, hkey, ih]
  funext path
  rw [resolvePath?, resolvePath?, h, hfollow]

/-- They resolve the same names of a pipe, be they paths or not. -/
theorem resolve?_congr : s.resolve? = t.resolve? := by
  funext source
  rw [resolve?, resolve?, resolvePath?_congr h]

/-- They give expressions the same environment. -/
theorem scopeEnv_congr : scopeEnv s = scopeEnv t := by
  funext functions current?
  rw [scopeEnv, scopeEnv, h]

/-- They evaluate the same expressions alike. -/
theorem evalExpr_congr : s.evalExpr = t.evalExpr := by
  funext source
  rw [evalExpr, evalExpr, scopeEnv_congr h]

/-- They evaluate the stages of a pipe alike. -/
theorem evalStages_congr : Pipe.evalStages s = Pipe.evalStages t := by
  have hargs : Pipe.Arg.eval s = Pipe.Arg.eval t := by
    funext arg
    cases arg <;> simp only [Pipe.Arg.eval, resolve?_congr h]
  have hstage : Pipe.Stage.eval s = Pipe.Stage.eval t := by
    funext current? stage
    cases stage <;> simp only [Pipe.Stage.eval, hargs, scopeEnv_congr h]
  funext current? stages
  induction stages generalizing current? with
  | nil => rfl
  | cons stage stages ih => simp only [Pipe.evalStages, hstage, ih]

/-- They evaluate pipes alike. -/
theorem evalPipe_congr : s.evalPipe = t.evalPipe := by
  have heval : ∀ p : Pipe, p.eval s = p.eval t := by
    intro p
    rw [Pipe.eval, Pipe.eval, evalStages_congr h, resolvePath?_congr h]
  funext source
  simp only [evalPipe, heval]

/-- They evaluate pipes alike where a missing variable is no value. -/
theorem evalPipe?_congr : s.evalPipe? = t.evalPipe? := by
  funext source
  rw [evalPipe?, evalPipe?, evalPipe_congr h]

/-- They evaluate conditions alike, by either route. -/
theorem evalCondition_congr : s.evalCondition = t.evalCondition := by
  funext condition
  rw [evalCondition, evalCondition, evalPipe?_congr h, evalExpr_congr h, resolve?_congr h]

/-- They interpolate texts alike. -/
theorem interpolate_congr : Interpolation.interpolate s = Interpolation.interpolate t := by
  have hpieces : Interpolation.evalPieces s = Interpolation.evalPieces t := by
    funext escaped pieces
    induction pieces with
    | nil => rfl
    | cons piece pieces ih =>
        cases piece <;> simp only [Interpolation.evalPieces, evalPipe_congr h, ih]
  funext text escaped
  rw [Interpolation.interpolate, Interpolation.interpolate, hpieces]

/-- They evaluate bound attributes alike. -/
theorem evalBinding_congr : Attribute.evalBinding s = Attribute.evalBinding t := by
  have hvalue : Attribute.objectValue s = Attribute.objectValue t := by
    funext source
    rw [Attribute.objectValue, Attribute.objectValue, evalExpr_congr h, resolve?_congr h]
  have hvalues : Attribute.objectValues s = Attribute.objectValues t := by
    funext entries
    induction entries with
    | nil => rfl
    | cons entry entries ih => simp only [Attribute.objectValues, hvalue, ih]
  have hnil : s.evalPipeOrNil = t.evalPipeOrNil := by
    funext source
    rw [evalPipeOrNil, evalPipeOrNil, evalPipe?_congr h]
  funext name source
  rw [Attribute.evalBinding, Attribute.evalBinding, hvalues, interpolate_congr h, hnil]

/-- They evaluate all attributes of an element alike. -/
theorem evalAttributes_congr : Stencil.evalAttributes s = Stencil.evalAttributes t := by
  have hstatic : Attribute.evalStatic s = Attribute.evalStatic t := by
    funext name value
    rw [Attribute.evalStatic, Attribute.evalStatic, interpolate_congr h]
  have hstatics : Attribute.evalStatics s = Attribute.evalStatics t := by
    funext attributes
    induction attributes with
    | nil => rfl
    | cons entry rest ih => simp only [Attribute.evalStatics, hstatic, ih]
  have hbindings : Attribute.evalBindings s = Attribute.evalBindings t := by
    funext out attributes
    induction attributes generalizing out with
    | nil => rfl
    | cons entry rest ih => simp only [Attribute.evalBindings, evalBinding_congr h, ih]
  funext attributes
  rw [Stencil.evalAttributes, Stencil.evalAttributes, hstatics, hbindings]

/-- Scopes with the same look-ups are equivalent: evaluation asks a scope for variables, and for
nothing else. -/
theorem Equivalent.of_lookup?_eq : s.Equivalent t where
  evalExpr := congrFun (evalExpr_congr h)
  evalPipe := congrFun (evalPipe_congr h)
  evalCondition := congrFun (evalCondition_congr h)
  interpolate text := congrFun (congrFun (interpolate_congr h) text)
  evalAttributes := congrFun (evalAttributes_congr h)

end Congruence

/-! ### Operations -/

/-- The changes of a scope. -/
inductive Change where
  | push (frame : Frame)
  | pushEmpty
  | pop
  | set (name : String) (value : Value)

/-- The scope after a change. -/
def Change.apply (s : Scope) : Change → Scope
  | .push frame => s.push frame
  | .pushEmpty => s.push []
  | .pop => s.pop
  | .set name value => s.set name value

/-- The scope after some changes, from the first to the last. -/
def after (s : Scope) (changes : List Change) : Scope := changes.foldl Change.apply s

/-- A frame that is added binds a name once. -/
def Change.Proper : Change → Prop
  | .push frame => Dict.Sorted frame
  | _ => True

/-- A frame that binds each name once may be added. -/
theorem Sorted.push {frame : Frame} (h : s.Sorted) (hframe : Dict.Sorted frame) :
    (s.push frame).Sorted :=
  List.forall_mem_cons.2 ⟨hframe, h⟩

/-- A frame may be taken away. -/
theorem Sorted.pop (h : s.Sorted) : s.pop.Sorted := by
  obtain ⟨innermost, outer, root⟩ := s
  obtain ⟨-, houter⟩ := List.forall_mem_cons.1 h
  cases outer with
  | nil => exact List.forall_mem_singleton.2 Dict.sorted_nil
  | cons frame outer => exact houter

/-- Setting a variable binds its name once in the innermost frame, also where it was bound there
before. -/
theorem Sorted.set (h : s.Sorted) (name : String) (value : Value) : (s.set name value).Sorted := by
  obtain ⟨hinner, houter⟩ := List.forall_mem_cons.1 h
  exact List.forall_mem_cons.2 ⟨Dict.sorted_insert hinner name value, houter⟩

/-- A proper change keeps the frames in order. -/
theorem Sorted.apply (h : s.Sorted) {change : Change} (hchange : change.Proper) :
    (change.apply s).Sorted := by
  cases change with
  | push frame => exact h.push hchange
  | pushEmpty => exact h.push Dict.sorted_nil
  | pop => exact h.pop
  | set name value => exact h.set name value

/-- Every sequence of changes keeps each name bound once in its frame. -/
theorem Sorted.after (h : s.Sorted) {changes : List Change} (hchanges : ∀ c ∈ changes, c.Proper) :
    (s.after changes).Sorted := by
  induction changes generalizing s with
  | nil => exact h
  | cons change changes ih =>
      obtain ⟨hfirst, hrest⟩ := List.forall_mem_cons.1 hchanges
      exact ih (h.apply hfirst) hrest

/-- No change touches the fallback value. -/
@[simp] theorem root_apply (s : Scope) (change : Change) : (change.apply s).root = s.root := by
  cases change with
  | pop =>
      obtain ⟨innermost, outer, root⟩ := s
      cases outer <;> rfl
  | _ => rfl

/-- Nor does any sequence of changes. -/
@[simp] theorem root_after (s : Scope) (changes : List Change) :
    (s.after changes).root = s.root := by
  induction changes generalizing s with
  | nil => rfl
  | cons change changes ih => exact (ih (change.apply s)).trans (root_apply s change)

/-- The scope of some data has the entries of a mapping as its frame. -/
theorem sorted_ofData {data : Value}
    (h : ∀ entries, data = .map entries → Dict.Sorted entries) : (ofData data).Sorted := by
  cases data with
  | map entries => exact List.forall_mem_singleton.2 (h entries rfl)
  | _ => exact List.forall_mem_singleton.2 Dict.sorted_nil

/-- A scope that was built by changes has always a frame, finds under a name what its flattening has
there or else a member of its fallback value, and is equivalent to its flattening. -/
theorem equivalent_flattened {data : Value}
    (hdata : ∀ entries, data = .map entries → Dict.Sorted entries) {changes : List Change}
    (hchanges : ∀ c ∈ changes, c.Proper) {s : Scope} (hs : (ofData data).after changes = s) :
    0 < s.depth ∧ s.root = (ofData data).root ∧
      (∀ name,
        s.lookup? name = (Dict.get? s.flatten name).or (s.root.bind (·.child? name)) ∧
          s.contains name =
            (Dict.contains s.flatten name || (s.root.bind (·.child? name)).isSome)) ∧
      s.Equivalent s.flattened := by
  have hsorted : s.Sorted := hs ▸ (sorted_ofData hdata).after hchanges
  refine ⟨s.depth_pos, ?_, fun name => ⟨lookup?_eq hsorted name, ?_⟩, ?_⟩
  · rw [← hs, root_after]
  · rw [contains, lookup?_eq hsorted, Option.isSome_or, Dict.contains]
  · exact .of_lookup?_eq (lookup?_flattened hsorted).symm

/-- A name is bound twice, its inner frame is removed and so is the last one. -/
theorem equivalent_flattened_popped :
    Dict.Sorted [("a", Value.int 1), ("b", .int 2)] ∧
      ((ofData (.map [("a", .int 1), ("b", .int 2)])).after
          [.push [("b", .str "x")], .set "a" .nil, .pop, .pop, .pushEmpty,
            .set "b" .nil]).Equivalent
        ((ofData (.map [("a", .int 1), ("b", .int 2)])).after
          [.push [("b", .str "x")], .set "a" .nil, .pop, .pop, .pushEmpty,
            .set "b" .nil]).flattened := by
  have hdata : Dict.Sorted [("a", Value.int 1), ("b", .int 2)] :=
    List.pairwise_pair.2 (by decide)
  refine ⟨hdata, (equivalent_flattened ?_ ?_ rfl).2.2.2⟩
  · rintro entries ⟨⟩
    exact hdata
  · simp [Change.Proper, Dict.Sorted]

end Scope
end Stencil
