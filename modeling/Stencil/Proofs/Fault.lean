import Stencil.Attribute.Eval

/-!
# How evaluations fail

## Main definitions

* `FailsAs` — every failure of a result is of a kind
* `Fault.OfFunction` — the faults of functions that are called
* `Fault.OfExpression`, `Fault.OfStage` — the faults of an expression, and of the stages of a pipe
* `Fault.Textual` — the faults of texts: of what they name, and of how they are written
* `Fault.Acyclic` — all faults but that of endless layouts
* `Evaluation.Failing`, `Evaluation.Textual` — an evaluation that fails with faults of a kind alone,
  with those of texts alone

## Main results

* `Scope.failing_evalPipe?`, `Scope.failing_evalExpr`, … — a text in a directive fails as functions
  do or with the source of an expression in it
* `Scope.textual_evalPipe`, `Scope.textual_evalCondition`, … — so it fails with the faults of texts
  alone, whatever the functions are
* `textual_evalAttributes` — so do the attributes of an element

## Design notes

A function fails with words of its own, which the table reports under its name; so nothing has to be
assumed of the functions that are registered.
-/

namespace Stencil

variable {α β ε ε' : Type}

/-- A result that is known without its failures. -/
theorem eq_ok_of_toOption {result : Except ε α} {a : α} (h : result.toOption = some a) :
    result = .ok a := by
  cases result with
  | error e => exact nomatch h
  | ok a' => exact congrArg Except.ok (Option.some.inj h)

/-- Every failure of a result is of a kind. Success is of every kind, so the statement is about
errors alone. -/
def FailsAs (kind : ε → Prop) (result : Except ε α) : Prop := ∀ e, result = .error e → kind e

section FailsAs

variable {kind : ε → Prop} {kind' : ε' → Prop}

/-- A result that is a value is under every bound on the faults. -/
theorem failsAs_ok (a : α) : FailsAs kind (.ok a : Except ε α) := by
  rintro e ⟨⟩

/-- A single fault is under the bound if it is one of the faults allowed. -/
theorem failsAs_error {e : ε} (h : kind e) : FailsAs kind (.error e : Except ε α) := by
  rintro _ ⟨⟩
  exact h

/-- Two steps in sequence keep to a bound that each of them keeps to, the second one for every value
the first can hand on. -/
theorem FailsAs.bind {result : Except ε α} {next : α → Except ε β} (h : FailsAs kind result)
    (hn : ∀ a, FailsAs kind (next a)) : FailsAs kind (result.bind next) := by
  cases result with
  | error e => exact failsAs_error (h e rfl)
  | ok a => exact hn a

/-- Rewriting the faults turns a bound on the old ones into a bound on the new ones. -/
theorem FailsAs.mapError {result : Except ε α} {f : ε → ε'} (h : FailsAs kind result)
    (hf : ∀ e, kind e → kind' (f e)) : FailsAs kind' (result.mapError f) := by
  cases result with
  | error e => exact failsAs_error (hf e (h e rfl))
  | ok a => exact failsAs_ok a

/-- A bound may be weakened to any larger set of faults. -/
theorem FailsAs.mono {kind' : ε → Prop} {result : Except ε α} (h : FailsAs kind result)
    (hkind : ∀ e, kind e → kind' e) : FailsAs kind' result :=
  fun e he => hkind e (h e he)

end FailsAs

/-- The faults of functions: that one is missing, that arguments are too few, too many or of the
wrong kind, and what it fails with itself. -/
inductive Fault.OfFunction : Fault → Prop where
  | functionNotFound (name : String) : OfFunction (.functionNotFound name)
  | arity (name : String) (expected : ArgumentCount) (got : Nat) :
      OfFunction (.arity name expected got)
  | coercion (value : Value) (target : Kind) : OfFunction (.coercion value target)
  | filter (name problem : String) : OfFunction (.filter name problem)

/-- The faults of an expression: those of the functions that it calls, and its own, which are
reported with its source. -/
inductive Fault.OfExpression (source : String) : Fault → Prop where
  | call {fault : Fault} : fault.OfFunction → OfExpression source fault
  | own (cause : ExpressionFault) : OfExpression source (.expression source cause)

/-- The faults of some stages of a pipe: those of functions, and those of the expressions among
them. -/
def Fault.OfStage (stages : List Pipe.Stage) (fault : Fault) : Prop :=
  fault.OfFunction ∨ ∃ source cause, .expression source ∈ stages ∧ fault = .expression source cause

/-- The faults of texts: of what they name, and of how they are written. -/
def Fault.Textual (fault : Fault) : Prop :=
  fault.category = .resolution ∨ fault.category = .expression

/-- A fault of anything but layouts that follow each other without end. -/
def Fault.Acyclic (fault : Fault) : Prop := fault.category ≠ .cycle

/-- A fault about a text is not the report of layouts that follow each other without end, which only
the wrapping of a page raises. -/
theorem Fault.Textual.acyclic {fault : Fault} (h : fault.Textual) : fault.Acyclic := by
  rcases h with h | h
  · exact fun hcycle => nomatch h.symm.trans hcycle
  · exact fun hcycle => nomatch h.symm.trans hcycle

/-- What a function of the template language can complain of is a fault about text. -/
theorem Fault.OfFunction.textual {fault : Fault} (h : fault.OfFunction) : fault.Textual := by
  cases h <;> exact .inl rfl

/-- What the stages of a pipe can complain of is a fault about text. -/
theorem Fault.OfStage.textual {stages : List Pipe.Stage} {fault : Fault}
    (h : fault.OfStage stages) : fault.Textual := by
  rcases h with h | ⟨source, cause, -, rfl⟩
  · exact h.textual
  · exact .inr rfl

/-- A fault of a stage stays one when a further stage is put in front. -/
theorem Fault.OfStage.cons {stages : List Pipe.Stage} {fault : Fault} (h : fault.OfStage stages)
    (stage : Pipe.Stage) : fault.OfStage (stage :: stages) :=
  h.imp_right fun ⟨source, cause, hmem, he⟩ => ⟨source, cause, List.mem_cons_of_mem stage hmem, he⟩

/-! ### Functions -/

/-- The coercion of the arguments fails only as a function of the template language does. The
induction is on the arguments, with the position they are counted from left free. -/
theorem failsAs_coerceFrom (s : Signature) (args : List Value) :
    ∀ position, FailsAs Fault.OfFunction (s.coerceFrom position args) := by
  induction args with
  | nil => exact fun _ => failsAs_ok []
  | cons v rest ih =>
      intro position
      refine FailsAs.bind ?_ fun w => (ih _).bind fun others => failsAs_ok _
      unfold coerce
      split
      · exact failsAs_ok _
      · exact failsAs_error (.coercion _ _)

/-- Whatever a function fails with, the fault is reported as that of a function. -/
theorem failsAs_call (functions : FunctionTable) (name : String) (args : List Value) :
    FailsAs Fault.OfFunction (functions.call name args) := by
  unfold FunctionTable.call
  split
  · exact failsAs_error (.functionNotFound name)
  · rename_i f _
    refine FailsAs.bind ?_ fun coerced => ?_
    · unfold Signature.coerceArgs
      split
      · exact failsAs_coerceFrom f.signature args 0
      · exact failsAs_error (.arity _ _ _)
    · have hany : FailsAs (fun _ => True) (f.apply coerced) := fun _ _ => trivial
      exact hany.mapError fun problem _ => .filter name problem

/-! ### Expressions -/

namespace Expr

variable {env : Env ε} {kind : ε → Prop}

/-- Whatever fails but a called function is an operator. -/
inductive FailsIn (kind : ε → Prop) : EvalFault ε → Prop where
  | operator (fault : TypeFault) : FailsIn kind (.operator fault)
  | call {e : ε} : kind e → FailsIn kind (.call e)

/-- A type fault that is lifted out of an operator is a fault in every bound of this form: `FailsIn`
bounds the functions called and allows any operator to fail. -/
theorem failsAs_liftFault (result : Except TypeFault α) :
    FailsAs (FailsIn kind) (liftFault result) := by
  have hany : FailsAs (fun _ => True) result := fun _ _ => trivial
  exact hany.mapError fun fault _ => .operator fault

mutual

/-- An expression fails in an operator or as a function that it calls does. The recursion is that of
evaluation; nothing else is asked of the functions. -/
theorem failsAs_eval (hcall : ∀ name args, FailsAs kind (env.call name args)) :
    (e : Expr) → FailsAs (FailsIn kind) (eval env e)
  | .literal v => failsAs_ok v
  | .name s => failsAs_ok _
  | .current => failsAs_ok _
  | .member base _ => (failsAs_eval hcall base).bind fun _ => failsAs_ok _
  | .index base key =>
      (failsAs_eval hcall base).bind fun _ => (failsAs_eval hcall key).bind fun k =>
        (failsAs_liftFault (indexKey k)).bind fun _ => failsAs_ok _
  | .call f args =>
      (failsAs_evalAll hcall args).bind fun values => (hcall f values).mapError fun _ he => .call he
  | .unary .not e => (failsAs_eval hcall e).bind fun _ => failsAs_ok _
  | .unary .negate e => (failsAs_eval hcall e).bind fun v => failsAs_liftFault (negate v)
  | .binary op a b => by
      have ha := failsAs_eval hcall a
      have hb := failsAs_eval hcall b
      -- Of the two operands, `and`, `or` and `??` may leave out the second one.
      cases op
      case both =>
        refine ha.bind fun x => ?_
        by_cases hx : x.truthy
        · rw [if_pos hx]
          exact hb.bind fun y => failsAs_ok _
        · rw [if_neg hx]
          exact failsAs_ok _
      case either =>
        refine ha.bind fun x => ?_
        by_cases hx : x.truthy
        · rw [if_pos hx]
          exact failsAs_ok _
        · rw [if_neg hx]
          exact hb.bind fun y => failsAs_ok _
      case coalesce =>
        refine ha.bind fun x => ?_
        by_cases hx : x.isNil
        · rw [if_pos hx]
          exact hb
        · rw [if_neg hx]
          exact failsAs_ok x
      all_goals exact ha.bind fun x => hb.bind fun y => failsAs_liftFault (strictOperation _ x y)
  | .choice condition yes no => by
      refine (failsAs_eval hcall condition).bind fun c => ?_
      by_cases hc : c.truthy
      · rw [if_pos hc]
        exact failsAs_eval hcall yes
      · rw [if_neg hc]
        exact failsAs_eval hcall no
  | .array items => (failsAs_evalAll hcall items).bind fun _ => failsAs_ok _
  | .mapping entries => (failsAs_evalEntries hcall entries).bind fun _ => failsAs_ok _

/-- The same for a list of expressions, in the order they stand in. -/
theorem failsAs_evalAll (hcall : ∀ name args, FailsAs kind (env.call name args)) :
    (items : List Expr) → FailsAs (FailsIn kind) (evalAll env items)
  | [] => failsAs_ok []
  | e :: rest =>
      (failsAs_eval hcall e).bind fun _ =>
        (failsAs_evalAll hcall rest).bind fun _ => failsAs_ok _

/-- The same for the entries of an object literal. -/
theorem failsAs_evalEntries (hcall : ∀ name args, FailsAs kind (env.call name args)) :
    (entries : List (String × Expr)) → FailsAs (FailsIn kind) (evalEntries env entries)
  | [] => failsAs_ok []
  | (_, e) :: rest =>
      (failsAs_eval hcall e).bind fun _ =>
        (failsAs_evalEntries hcall rest).bind fun _ => failsAs_ok _

end

end Expr

/-- A program reports a fault of an operator with its source. -/
theorem failsAs_run (p : Program) (scope : Scope) (functions : FunctionTable)
    (current? : Option Value) :
    FailsAs (Fault.OfExpression p.source) (p.run (scopeEnv scope functions current?)) := by
  refine (Expr.failsAs_eval (failsAs_call functions) p.expr).mapError fun fault hfault => ?_
  cases hfault with
  | operator fault => exact .own (.operator fault)
  | call he => exact .call he

/-! ### Evaluations -/

namespace Evaluation

/-- Every failure of an evaluation is of a kind, whatever the functions are. -/
def Failing (kind : Fault → Prop) (act : Evaluation α) : Prop :=
  ∀ functions, FailsAs kind (act.value functions)

/-- An evaluation that fails with the faults of texts alone. -/
abbrev Textual (act : Evaluation α) : Prop := act.Failing Fault.Textual

variable {kind kind' : Fault → Prop}

/-- An evaluation that only returns a value raises no fault. -/
theorem failing_pure (a : α) : Failing kind (pure a) := fun _ => failsAs_ok a

/-- An evaluation that only raises a fault raises that one. -/
theorem failing_fail {fault : Fault} (h : kind fault) : Failing kind (fail fault : Evaluation α) :=
  fun _ => failsAs_error h

/-- An evaluation that hands on a result raises the fault of that result. -/
theorem failing_ofExcept {result : Except Fault α} (h : FailsAs kind result) :
    Failing kind (ofExcept result) := fun _ => h

/-- Asking for the functions raises no fault. -/
theorem failing_functions : Failing kind functions := fun _ => failsAs_ok _

/-- Parsing a pipe, from the cache or anew, raises no fault. -/
theorem failing_pipe (source : String) : Failing kind (pipe source) := fun _ => failsAs_ok _

/-- Compiling an expression raises a fault of that expression: the cache keeps programs, never
failures, so that a source which does not compile reports its own text each time. -/
theorem failing_program (source : String) :
    (program source).Failing (Fault.OfExpression source) := by
  intro functions
  rw [value_program]
  have hany : FailsAs (fun _ => True) (Program.compile source) := fun _ _ => trivial
  exact hany.mapError fun e _ => .own (.syntactic e)

/-- An evaluation that looks at the failure of another one may still end well. -/
theorem failing_attempt (act : Evaluation α) : Failing kind act.attempt := fun _ => failsAs_ok _

/-- The second of two evaluations is judged where the first one ends well. -/
theorem Failing.bind_of_value {act : Evaluation α} {next : α → Evaluation β} (h : act.Failing kind)
    (hn : ∀ functions a, act.value functions = .ok a → FailsAs kind ((next a).value functions)) :
    (act >>= next).Failing kind := by
  intro functions
  have hfirst := h functions
  have hsecond := hn functions
  rw [value_bind]
  cases hv : act.value functions with
  | error fault => exact failsAs_error (hfirst fault hv)
  | ok a => exact hsecond a hv

/-- Evaluations in sequence keep to a bound that each of them keeps to. -/
theorem Failing.bind {act : Evaluation α} {next : α → Evaluation β} (h : act.Failing kind)
    (hn : ∀ a, (next a).Failing kind) : (act >>= next).Failing kind :=
  h.bind_of_value fun functions a _ => hn a functions

/-- A bound on the faults of an evaluation may be weakened. -/
theorem Failing.mono {act : Evaluation α} (h : act.Failing kind)
    (hkind : ∀ fault, kind fault → kind' fault) : act.Failing kind' :=
  fun functions fault hfault => hkind fault (h functions fault hfault)

end Evaluation

open Evaluation

/-! ### Texts in directives -/

namespace Pipe

/-- A program that was compiled has the source that it was compiled from. -/
theorem source_of_compiled {source : String} {p : Program} (h : compiled source = .ok p) :
    p.source = source := by
  unfold compiled Program.compile at h
  generalize Expr.parse source = parsed at h
  rcases parsed with e | e
  · exact nomatch h
  · exact Except.ok.inj h ▸ rfl

/-- One stage of a pipe fails by its function, its arguments, or the expression it stands for. -/
theorem failing_stage (scope : Scope) (current? : Option Value) (stage : Stage) :
    (stage.eval scope current?).Failing (Fault.OfStage [stage]) := by
  cases stage with
  | filter name args =>
      refine failing_functions.bind fun functions => ?_
      split
      · exact failing_ofExcept ((failsAs_call functions name _).mono fun _ => .inl)
      · exact failing_fail (.inl (.functionNotFound name))
  | expression source =>
      have hsource : ∀ fault, Fault.OfExpression source fault →
          fault.OfStage [.expression source] := by
        rintro fault (hfault | cause)
        · exact .inl hfault
        · exact .inr ⟨source, cause, List.mem_singleton_self _, rfl⟩
      refine (failing_program source).mono hsource |>.bind_of_value fun functions p hp => ?_
      rw [value_program] at hp
      have hrun := failsAs_run p scope functions (some (current?.getD .nil))
      rw [source_of_compiled hp] at hrun
      exact hrun.mono hsource

/-- Stages fail as functions do or with the source of an expression among them. -/
theorem failing_evalStages (scope : Scope) (stages : List Stage) :
    ∀ current?, (evalStages scope current? stages).Failing (Fault.OfStage stages) := by
  induction stages with
  | nil => exact fun current? => failing_pure _
  | cons stage stages ih =>
      intro current?
      refine Failing.bind ?_ fun v => (ih (some v)).mono fun _ hfault => hfault.cons stage
      refine (failing_stage scope current? stage).mono fun fault hfault => ?_
      refine hfault.imp_right fun ⟨source, cause, hmem, he⟩ => ⟨source, cause, ?_, he⟩
      exact List.mem_singleton.1 hmem ▸ List.mem_cons_self

/-- A pipe fails as its stages do, or since the path that is all of it leads nowhere. -/
theorem failing_eval (p : Pipe) (scope : Scope) :
    (p.eval scope).Failing fun fault =>
      fault.OfStage p.stages ∨ ∃ source, fault = .variableNotFound source := by
  have hstages : ∀ current?, (evalStages scope current? p.stages).Failing fun fault =>
      fault.OfStage p.stages ∨ ∃ source, fault = .variableNotFound source :=
    fun current? => (failing_evalStages scope p.stages current?).mono fun _ => .inl
  unfold eval
  split
  · exact hstages none
  · split
    · exact hstages _
    · split
      · exact failing_fail (.inr ⟨_, rfl⟩)
      · exact hstages _

end Pipe

namespace Scope

variable (scope : Scope) (source : String)

/-- A pipe fails by one of its stages, or because its first stage names a variable that the scope
does not have. -/
theorem failing_evalPipe : (scope.evalPipe source).Failing fun fault =>
    fault.OfStage (Pipe.parse source).stages ∨ ∃ name, fault = .variableNotFound name := by
  refine (failing_pipe source).bind_of_value fun functions p hp => ?_
  rw [Evaluation.value_pipe, Except.ok.injEq] at hp
  subst hp
  exact (Pipe.parse source).failing_eval scope functions

/-- A pipe raises only faults about text: those of a function, of an expression among its stages,
and that of a variable it does not find. -/
theorem textual_evalPipe : (scope.evalPipe source).Textual := by
  refine (scope.failing_evalPipe source).mono fun fault hfault => ?_
  rcases hfault with hfault | ⟨name, rfl⟩
  · exact hfault.textual
  · exact .inl rfl

/-- A variable that is missing is no failure where it may be. What is left are the faults of the
stages. -/
theorem failing_evalPipe? :
    (scope.evalPipe? source).Failing (Fault.OfStage (Pipe.parse source).stages) := by
  refine (failing_attempt _).bind_of_value fun functions result hresult => ?_
  rw [Evaluation.value_attempt, Except.ok.injEq] at hresult
  subst hresult
  cases hv : (scope.evalPipe source).value functions with
  | ok v => exact failsAs_ok _
  | error e =>
      dsimp only
      rcases scope.failing_evalPipe source functions e hv with hkind | ⟨name, rfl⟩
      · split
        · exact failsAs_ok _
        · exact failsAs_error hkind
      · exact failsAs_ok _

/-- So does a pipe whose missing variable is taken for no value. -/
theorem textual_evalPipe? : (scope.evalPipe? source).Textual :=
  (scope.failing_evalPipe? source).mono fun _ hfault => hfault.textual

/-- So does a pipe whose missing variable is taken for `nil`. -/
theorem textual_evalPipeOrNil : (scope.evalPipeOrNil source).Textual :=
  (scope.textual_evalPipe? source).bind fun _ => failing_pure _

/-- An expression outside a pipe fails as that expression: the fault names its source, also where a
function called in it failed. -/
theorem failing_evalExpr : (scope.evalExpr source).Failing (Fault.OfExpression source) := by
  refine (failing_program source).bind_of_value fun functions p hp => ?_
  rw [value_program] at hp
  have hrun := failsAs_run p scope functions none
  rwa [Pipe.source_of_compiled hp] at hrun

/-- A condition that is no chain of stages fails as functions do: what the expression language
rejects is looked up instead. -/
theorem failing_evalCondition (condition : String) :
    (scope.evalCondition condition).Failing fun fault => fault.OfFunction ∨
      Pipe.hasTopLevelPipe (String.ofList (normalizeCondition condition.toList)) = true ∧
        fault.OfStage
          (Pipe.parse (String.ofList (normalizeCondition condition.toList))).stages := by
  unfold evalCondition
  generalize String.ofList (normalizeCondition condition.toList) = source
  dsimp only
  split
  · rename_i hpipe
    refine ((scope.failing_evalPipe? source).mono fun _ hfault => ?_).bind fun _ => failing_pure _
    exact .inr ⟨hpipe, hfault⟩
  · refine (failing_attempt _).bind_of_value fun functions result hresult => ?_
    rw [Evaluation.value_attempt, Except.ok.injEq] at hresult
    subst hresult
    split
    · exact failsAs_ok _
    · exact failsAs_ok _
    · rename_i e hne he
      refine failsAs_error (.inl ?_)
      cases scope.failing_evalExpr source functions e he with
      | call hfault => exact hfault
      | own cause => exact (hne source cause rfl).elim

/-- A condition raises only faults about text, on the route through a pipe and on the one without.
-/
theorem textual_evalCondition : (scope.evalCondition source).Textual := by
  refine (scope.failing_evalCondition source).mono fun fault hfault => ?_
  rcases hfault with hfault | ⟨-, hfault⟩
  · exact hfault.textual
  · exact hfault.textual

end Scope

namespace Interpolation

/-- Interpolation raises only the faults of the pipes between the delimiters. -/
theorem textual_interpolate (scope : Scope) (s : String) (escaped : Bool) :
    (interpolate scope s escaped).Textual := by
  refine Failing.bind ?_ fun _ => failing_pure _
  induction split s with
  | nil => exact failing_pure []
  | cons piece pieces ih =>
      cases piece with
      | static text => exact ih.bind fun _ => failing_pure _
      | code source =>
          exact (scope.textual_evalPipe _).bind fun v => ih.bind fun _ => failing_pure _

end Interpolation

/-! ### Attributes -/

namespace Attribute

/-- A value in an object literal never fails: what is no expression is looked up as a path. -/
theorem textual_objectValues (scope : Scope) (entries : List (String × String)) :
    (objectValues scope entries).Textual := by
  induction entries with
  | nil => exact failing_pure []
  | cons entry entries ih =>
      refine Failing.bind ?_ fun v => ih.bind fun _ => failing_pure _
      refine (failing_attempt _).bind fun result => ?_
      cases result <;> exact failing_pure _

/-- A bound attribute raises only faults about text, be it an object literal, an array or a pipe. -/
theorem textual_evalBinding (scope : Scope) (name source : String) :
    (evalBinding scope name source).Textual := by
  unfold evalBinding
  split
  · exact (textual_objectValues scope _).bind fun _ => failing_pure _
  · split
    · exact (Interpolation.textual_interpolate scope source false).bind fun _ => failing_pure _
    · exact (scope.textual_evalPipeOrNil source).bind fun _ => failing_pure _

/-- The static attributes of an element, interpolated one after the other, raise only faults about
text. -/
theorem textual_evalStatics (scope : Scope) (attributes : Attributes) :
    (evalStatics scope attributes).Textual := by
  induction attributes with
  | nil => exact failing_pure []
  | cons entry rest ih =>
      refine Failing.bind ?_ fun here => ih.bind fun _ => failing_pure _
      unfold evalStatic
      split
      · exact failing_pure _
      · split
        · exact failing_pure []
        · split
          · exact (Interpolation.textual_interpolate scope _ false).bind fun _ => failing_pure _
          · exact failing_pure _

/-- The bound attributes, merged one after the other into what the earlier ones have left, raise
only faults about text. -/
theorem textual_evalBindings (scope : Scope) (attributes : Attributes) :
    ∀ out, (evalBindings scope out attributes).Textual := by
  induction attributes with
  | nil => exact fun out => failing_pure out
  | cons entry rest ih =>
      intro out
      unfold evalBindings
      split
      · exact ih out
      · exact (textual_evalBinding scope _ _).bind fun _ => ih _

end Attribute

/-- The attributes of an element fail with the faults of texts alone. So reading an element never
fails as a file does, and never as endless layouts do. -/
theorem textual_evalAttributes (scope : Scope) (attributes : Attributes) :
    (evalAttributes scope attributes).Textual :=
  (Attribute.textual_evalStatics scope attributes).bind fun out =>
    Attribute.textual_evalBindings scope attributes out

end Stencil
