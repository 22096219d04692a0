import Stencil.Evaluator
import Stencil.Scope

/-!
# Evaluating pipes

## Main definitions

* `scopeEnv` — what an expression sees of a scope
* `Pipe.eval` — the value a pipe ends with

## Design notes

An initial path that leads nowhere is an error if it is all of the pipe, and nil for its first stage
otherwise. A stage gets the current value as its first argument, unless it begins the pipe.
-/

namespace Stencil

/-- The variables of a scope, the functions of a table and the current value of a pipe. -/
def scopeEnv (scope : Scope) (functions : FunctionTable) (current? : Option Value) : Env Fault :=
  { lookup? := scope.lookup?
    current? := current?
    call := functions.call }

namespace Pipe

/-- The value of an argument. -/
def Arg.eval (scope : Scope) : Arg → Value
  | .literal v => v
  | .token text => (scope.resolve? text).getD (.str text)

/-- What a stage makes of the current value, if there is one yet. -/
def Stage.eval (scope : Scope) (current? : Option Value) : Stage → Evaluation Value
  | .filter name args => do
    let functions ← Evaluation.functions
    if (functions.find? name).isSome then
      .ofExcept (functions.call name (current?.toList ++ args.map (Arg.eval scope)))
    else .fail (.functionNotFound name)
  | .expression source => do
    let p ← Evaluation.program source
    let functions ← Evaluation.functions
    .ofExcept (p.run (scopeEnv scope functions (some (current?.getD .nil))))

/-- The value some stages end with. -/
def evalStages (scope : Scope) : Option Value → List Stage → Evaluation Value
  | current?, [] => return current?.getD .nil
  | current?, stage :: stages => do
    let v ← stage.eval scope current?
    evalStages scope (some v) stages

/-- The value a pipe ends with. -/
def eval (p : Pipe) (scope : Scope) : Evaluation Value :=
  match p.initial with
  | none => evalStages scope none p.stages
  | some initial =>
    match scope.resolvePath? initial.path with
    | some v => evalStages scope (some v) p.stages
    | none =>
      if p.stages.isEmpty then .fail (.variableNotFound initial.source)
      else evalStages scope (some .nil) p.stages

end Pipe
end Stencil
