import Stencil.Pipe.Eval

/-!
# Evaluating texts in a scope

The texts in directives: pipes, expressions and conditions.

## Main definitions

* `Scope.evalPipe`, `Scope.evalExpr` — the value of a text in one of the languages
* `Scope.evalPipe?`, `Scope.evalPipeOrNil` — the same, where a variable may be missing
* `Scope.evalCondition` — whether a condition holds
-/

namespace Stencil

/-- Equality has longer spellings in conditions. -/
def normalizeCondition (cs : List Char) : List Char :=
  Text.replaceAll ['!', '=', '='] ['!', '='] (Text.replaceAll ['=', '=', '='] ['=', '='] cs)

namespace Scope

/-- The value of a text as a pipe; a path, a call or an expression is one, too. -/
def evalPipe (scope : Scope) (source : String) : Evaluation Value := do
  let p ← Evaluation.pipe source
  p.eval scope

/-- The value of a text as a pipe, nothing if it is an unresolved variable. -/
def evalPipe? (scope : Scope) (source : String) : Evaluation (Option Value) := do
  match ← (scope.evalPipe source).attempt with
  | .ok v => return some v
  | .error e => if e.isVariableNotFound then return none else .fail e

/-- The value of a text as a pipe, nil if it is an unresolved variable. -/
def evalPipeOrNil (scope : Scope) (source : String) : Evaluation Value := do
  return (← scope.evalPipe? source).getD .nil

/-- The value of a text as an expression. -/
def evalExpr (scope : Scope) (source : String) : Evaluation Value := do
  let p ← Evaluation.program source
  let functions ← Evaluation.functions
  .ofExcept (p.run (scopeEnv scope functions none))

/-- Whether there is a value that counts as true. -/
def holds (v? : Option Value) : Bool := (v?.map (·.truthy)).getD false

/-- Whether a condition holds. A text that the expression language rejects is looked up as a path;
the errors of functions are reported. -/
def evalCondition (scope : Scope) (condition : String) : Evaluation Bool := do
  let source := String.ofList (normalizeCondition condition.toList)
  if Pipe.hasTopLevelPipe source then return holds (← scope.evalPipe? source)
  else
    match ← (scope.evalExpr source).attempt with
    | .ok v => return v.truthy
    | .error (.expression _ _) => return holds (scope.resolve? source)
    | .error e => .fail e

end Scope
end Stencil
