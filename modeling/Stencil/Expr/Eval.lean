import Stencil.Expr.Number

/-!
# Evaluating expressions

The value of an expression among variables and functions.

## Main definitions

* `Env` — what an expression sees
* `EvalFault` — an operator without a result, or the error of a called function
* `Expr.eval` — the value of an expression

## Design notes

A missing variable or member is nil. Operands are evaluated from left to right; `and`, `or` and `??`
evaluate the right one only if the left one does not decide.
-/

namespace Stencil

/-- The variables and functions an expression sees, and the value of a pipe if it stands in one.
Calls fail with an `ε`. -/
structure Env (ε : Type) where
  lookup? : String → Option Value
  current? : Option Value
  call : String → List Value → Except ε Value

/-- Why an expression has no value. An operator fails with a fault of its own, a call with whatever
error the functions have. -/
inductive EvalFault (ε : Type) where
  | operator (fault : Expr.TypeFault)
  | call (error : ε)

namespace Expr

variable {ε : Type}

/-- The result of an operator. -/
def liftFault {α : Type} (r : Except TypeFault α) : Except (EvalFault ε) α := r.mapError .operator

/-- An operator that needs both of its operands. -/
def strictOperation (op : BinaryOp) (x y : Value) : Except TypeFault Value :=
  match op with
  | .equal => .ok (.bool (looselyEqual x y))
  | .notEqual => .ok (.bool !(looselyEqual x y))
  | .less => (order x y).map fun o => .bool (o == .lt)
  | .lessEqual => (order x y).map fun o => .bool (o != .gt)
  | .greater => (order x y).map fun o => .bool (o == .gt)
  | .greaterEqual => (order x y).map fun o => .bool (o != .lt)
  | .member => (contains x y).map .bool
  | .add => sum x y
  | _ => arithmetic op x y

mutual

/-- The value of an expression. -/
def eval (env : Env ε) : Expr → Except (EvalFault ε) Value
  | .literal v => .ok v
  | .name s => .ok ((env.lookup? s).getD .nil)
  | .current => .ok (env.current?.getD .nil)
  | .member base field => do
    let v ← eval env base
    .ok ((v.child? field).getD .nil)
  | .index base key => do
    let v ← eval env base
    let k ← eval env key
    let text ← liftFault (indexKey k)
    .ok ((v.child? text).getD .nil)
  | .call f args => do
    let values ← evalAll env args
    (env.call f values).mapError .call
  | .unary .not e => do
    let v ← eval env e
    .ok (.bool !v.truthy)
  | .unary .negate e => do
    let v ← eval env e
    liftFault (negate v)
  | .binary .both a b => do
    let x ← eval env a
    if x.truthy then
      let y ← eval env b
      .ok (.bool y.truthy)
    else .ok (.bool false)
  | .binary .either a b => do
    let x ← eval env a
    if x.truthy then .ok (.bool true)
    else
      let y ← eval env b
      .ok (.bool y.truthy)
  | .binary .coalesce a b => do
    let x ← eval env a
    if x.isNil then eval env b else .ok x
  | .binary op a b => do
    let x ← eval env a
    let y ← eval env b
    liftFault (strictOperation op x y)
  | .choice condition yes no => do
    let c ← eval env condition
    if c.truthy then eval env yes else eval env no
  | .array items => do
    let values ← evalAll env items
    .ok (.seq values)
  | .mapping entries => do
    let values ← evalEntries env entries
    .ok (.map (Dict.ofPairs values))

/-- The values of expressions, from left to right. -/
def evalAll (env : Env ε) : List Expr → Except (EvalFault ε) (List Value)
  | [] => .ok []
  | e :: rest => do
    let v ← eval env e
    let values ← evalAll env rest
    .ok (v :: values)

/-- The values of the entries of a mapping. -/
def evalEntries (env : Env ε) : List (String × Expr) → Except (EvalFault ε) (List (String × Value))
  | [] => .ok []
  | (key, e) :: rest => do
    let v ← eval env e
    let values ← evalEntries env rest
    .ok ((key, v) :: values)

end

end Expr
end Stencil
