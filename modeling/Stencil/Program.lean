import Stencil.Error
import Stencil.Expr.Eval
import Stencil.Expr.Parser

/-!
# Programs

Compiled expressions.

## Main definitions

* `Program`, `Program.compile` — an expression with its source
* `Program.run` — its value; a fault of an operator is reported with the source
-/

namespace Stencil

/-- An expression with its source, which is what errors show of it. -/
structure Program where
  source : String
  expr : Expr

namespace Program

/-- The program of a source. -/
def compile (source : String) : Except SyntaxError Program :=
  (Expr.parse source).map fun expr => ⟨source, expr⟩

theorem compile_eq_ok_iff {source : String} {p : Program} :
    compile source = .ok p ↔ ∃ e, Expr.parse source = .ok e ∧ p = ⟨source, e⟩ := by
  unfold compile
  rcases Expr.parse source with fault | e
  · exact iff_of_false nofun nofun
  · exact ⟨fun h => ⟨e, rfl, (Except.ok.inj h).symm⟩,
      fun ⟨_, he, hp⟩ => Except.ok.inj he ▸ hp ▸ rfl⟩

/-- A fault as it is reported for a source; the errors of called functions stay as they are. -/
def reported (source : String) : EvalFault Fault → Fault
  | .operator fault => .expression source (.operator fault)
  | .call e => e

/-- The value of a program. -/
def run (p : Program) (env : Env Fault) : Except Fault Value :=
  (Expr.eval env p.expr).mapError (reported p.source)

end Program
end Stencil
