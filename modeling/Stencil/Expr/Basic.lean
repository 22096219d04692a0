import Stencil.Value.Basic

/-!
# Expressions

The syntax trees of the expression language.

## Main definitions

* `BinaryOp`, `BinaryOp.precedence`, `BinaryOp.ofText?` — the binary operators
* `UnaryOp` — negation of truth and of numbers
* `Expr` — literals, names, members, calls, operators, choices and collections
-/

namespace Stencil

/-- The binary operators. -/
inductive BinaryOp where
  | power | multiply | divide | remainder | add | subtract
  | less | lessEqual | greater | greaterEqual | equal | notEqual | member
  | both | either | coalesce
  deriving DecidableEq, Repr

/-- How tightly an operator binds. -/
def BinaryOp.precedence : BinaryOp → Nat
  | .coalesce => 1
  | .either => 2
  | .both => 3
  | .equal | .notEqual => 4
  | .less | .lessEqual | .greater | .greaterEqual | .member => 5
  | .add | .subtract => 6
  | .multiply | .divide | .remainder => 7
  | .power => 8

/-- Whether a chain of the operator groups from the right. -/
def BinaryOp.isRightAssociative : BinaryOp → Bool
  | .power => true
  | _ => false

/-- The operator of a symbol or a word. -/
def BinaryOp.ofText? (text : String) : Option BinaryOp :=
  [("**", .power), ("*", .multiply), ("/", .divide), ("%", .remainder), ("+", .add),
    ("-", .subtract), ("<", .less), ("<=", .lessEqual), (">", .greater), (">=", .greaterEqual),
    ("==", .equal), ("!=", .notEqual), ("in", .member), ("&&", .both), ("and", .both),
    ("||", .either), ("or", .either), ("??", .coalesce)].lookup text

/-- The name of an operator in messages. -/
def BinaryOp.name : BinaryOp → String
  | .power => "Pow"
  | .multiply => "Mul"
  | .divide => "Div"
  | .remainder => "Rem"
  | .add => "Add"
  | .subtract => "Sub"
  | .less => "Lt"
  | .lessEqual => "Le"
  | .greater => "Gt"
  | .greaterEqual => "Ge"
  | .equal => "Eq"
  | .notEqual => "Ne"
  | .member => "In"
  | .both => "And"
  | .either => "Or"
  | .coalesce => "Coalesce"

/-- The prefix operators. -/
inductive UnaryOp where
  | not
  | negate
  deriving DecidableEq, Repr

/-- A syntax tree. Parentheses leave no trace in it, since the shape of the tree says what binds
what. -/
inductive Expr where
  | literal (v : Value)
  | name (s : String)
  /-- The current value of a pipe. -/
  | current
  | member (base : Expr) (name : String)
  | index (base : Expr) (key : Expr)
  | call (name : String) (args : List Expr)
  | unary (op : UnaryOp) (e : Expr)
  | binary (op : BinaryOp) (left right : Expr)
  | choice (condition yes no : Expr)
  | array (items : List Expr)
  | mapping (entries : List (String × Expr))

end Stencil
