import Stencil.Proofs.Expr.Signs
import Stencil.Proofs.Fault
import Stencil.Proofs.Pipe.Agreement

/-!
# Conditions

What comes of a condition.

## Main definitions

* `Condition.IsClear` — no longer spelling of equality stands in a string literal

## Main results

* `Scope.evalCondition_eq_error_iff` — with which faults a condition fails
* `Condition.compile_text` — a condition is the same expression with the shorter spellings of
  equality if, and only if, the longer ones do not stand in its string literals
-/

namespace Stencil

/-- A condition with the shorter spellings of equality. -/
def Condition.text (condition : String) : String :=
  String.ofList (normalizeCondition condition.toList)

namespace Scope

open Evaluation

variable (scope : Scope) (functions : FunctionTable)

/-! ### The two routes -/

/-- A chain of stages holds if its value counts as true; a variable may be missing. -/
theorem value_evalCondition_piped {condition : String}
    (h : Pipe.hasTopLevelPipe (Condition.text condition) = true) :
    (scope.evalCondition condition).value functions =
      ((scope.evalPipe? (Condition.text condition)).value functions).map holds := by
  rw [Condition.text] at h ⊢
  simp only [evalCondition, h, if_true, value_bind, value_pure]
  rfl

/-- Any other condition holds if its value as an expression counts as true; what is rejected as one
is looked up. -/
theorem value_evalCondition_expression {condition : String}
    (h : Pipe.hasTopLevelPipe (Condition.text condition) = false) :
    (scope.evalCondition condition).value functions =
      match (scope.evalExpr (Condition.text condition)).value functions with
      | .ok v => .ok v.truthy
      | .error (.expression _ _) => .ok (holds (scope.resolve? (Condition.text condition)))
      | .error fault => .error fault := by
  rw [Condition.text] at h ⊢
  simp only [evalCondition, h, Bool.false_eq_true, if_false, value_bind, value_attempt,
    Except.bind]
  rcases (scope.evalExpr _).value functions with e | v
  · cases e <;> rfl
  · rfl

/-- A pipe fails with anything but a missing variable where that is allowed. -/
theorem value_evalPipe?_eq_error_iff {source : String} {fault : Fault} :
    (scope.evalPipe? source).value functions = .error fault ↔
      (scope.evalPipe source).value functions = .error fault ∧
        fault.isVariableNotFound = false := by
  simp only [evalPipe?, value_bind, value_attempt, Except.bind]
  rcases (scope.evalPipe source).value functions with e | v
  · cases he : e.isVariableNotFound with
    | true =>
        simp only [he, if_true]
        refine iff_of_false (fun h => nomatch h) ?_
        rintro ⟨hsame, hfault⟩
        obtain rfl := Except.error.inj hsame
        exact Bool.false_ne_true (hfault.symm.trans he)
    | false =>
        simp only [he, Bool.false_eq_true, if_false, value_fail, Except.error.injEq]
        exact ⟨fun h => ⟨h, h ▸ he⟩, fun h => h.1⟩
  · exact iff_of_false (fun h => nomatch h) fun h => nomatch h.1

theorem isVariableNotFound_of_stage {stages : List Pipe.Stage} {fault : Fault}
    (h : fault.OfStage stages) : fault.isVariableNotFound = false := by
  rcases h with hfunction | ⟨source, cause, -, rfl⟩
  · cases hfunction <;> rfl
  · rfl

/-! ### Failures -/

/-- A chain of stages fails as its stages do. On this route no fault of an expression is caught. -/
theorem evalCondition_piped_eq_error_iff {condition : String} {fault : Fault}
    (h : Pipe.hasTopLevelPipe (Condition.text condition) = true) :
    (scope.evalCondition condition).value functions = .error fault ↔
      fault.OfStage (Pipe.parse (Condition.text condition)).stages ∧
        (scope.evalPipe (Condition.text condition)).value functions = .error fault := by
  have hpipe : (scope.evalCondition condition).value functions = .error fault ↔
      (scope.evalPipe? (Condition.text condition)).value functions = .error fault := by
    rw [value_evalCondition_piped scope functions h]
    rcases (scope.evalPipe? (Condition.text condition)).value functions with e | v
    · simp only [Except.map, Except.error.injEq]
    · exact iff_of_false (fun h => nomatch h) fun h => nomatch h
  rw [hpipe]
  constructor
  · intro h
    exact ⟨scope.failing_evalPipe? _ functions fault h,
      ((value_evalPipe?_eq_error_iff scope functions).1 h).1⟩
  · rintro ⟨hkind, h⟩
    exact (value_evalPipe?_eq_error_iff scope functions).2 ⟨h, isVariableNotFound_of_stage hkind⟩

/-- Any other condition fails as the functions do that it calls. Faults of the expression itself
lead to a look-up of the condition as a path instead. -/
theorem evalCondition_expression_eq_error_iff {condition : String} {fault : Fault}
    (h : Pipe.hasTopLevelPipe (Condition.text condition) = false) :
    (scope.evalCondition condition).value functions = .error fault ↔
      fault.OfFunction ∧
        (scope.evalExpr (Condition.text condition)).value functions = .error fault := by
  rw [value_evalCondition_expression scope functions h]
  have hkind := scope.failing_evalExpr (Condition.text condition) functions
  rcases hvalue : (scope.evalExpr (Condition.text condition)).value functions with e | v
  · cases hkind e hvalue with
    | call hfunction =>
        have hkept : (match (.error e : Except Fault Value) with
            | .ok v => .ok v.truthy
            | .error (.expression _ _) =>
              .ok (holds (scope.resolve? (Condition.text condition)))
            | .error fault => .error fault) = (.error e : Except Fault Bool) := by
          cases hfunction <;> rfl
        rw [hkept]
        simp only [Except.error.injEq]
        exact ⟨fun h => ⟨h ▸ hfunction, h⟩, fun h => h.2⟩
    | own cause =>
        refine iff_of_false (fun h => nomatch h) ?_
        rintro ⟨hfunction, he⟩
        obtain rfl := Except.error.inj he
        cases hfunction
  · exact iff_of_false (fun h => nomatch h) fun h => nomatch h.2

/-- A condition fails with the faults of functions; where it is a chain of stages, also with those
of the expressions among them. -/
theorem evalCondition_eq_error_iff (ev : Evaluator) (condition : String) (fault : Fault) :
    ((scope.evalCondition condition).run ev).1 = .error fault ↔
      (Pipe.hasTopLevelPipe (Condition.text condition) = true ∧
          fault.OfStage (Pipe.parse (Condition.text condition)).stages ∧
          ((scope.evalPipe (Condition.text condition)).run ev).1 = .error fault) ∨
        (Pipe.hasTopLevelPipe (Condition.text condition) = false ∧ fault.OfFunction ∧
          ((scope.evalExpr (Condition.text condition)).run ev).1 = .error fault) := by
  rw [run_fst, run_fst, run_fst]
  cases hpipe : Pipe.hasTopLevelPipe (Condition.text condition) with
  | true =>
      rw [evalCondition_piped_eq_error_iff scope ev.functions hpipe]
      simp
  | false =>
      rw [evalCondition_expression_eq_error_iff scope ev.functions hpipe]
      simp

/-- An expression that is a stage fails with a fault of its own. -/
theorem not_ofFunction_of_evalCondition :
    ¬ ∀ (scope : Scope) (ev : Evaluator) (condition : String) (fault : Fault),
      ((scope.evalCondition condition).run ev).1 = .error fault → fault.OfFunction := by
  intro hall
  have hfails : ((evalCondition (.ofData (.map [("x", .str "a")])) "x | . < 1").run
      (.ofFunctions [])).1 =
        .error (.expression ". < 1" (.operator (.unorderedTypes "string" "int"))) := by
    cbv
  cases hall _ _ _ _ hfails

end Scope

/-! ### Spellings of equality -/

namespace Condition

open Stencil.Expr

/-- Neither of the longer spellings of equality stands in a string literal of a text. -/
def IsClear (s : String) : Prop :=
  ∀ mark ∈ ['=', '!'], ¬ longSpelling mark <:+: literals s.toList

theorem toList_text (s : String) : (text s).toList = shorten '!' (shorten '=' s.toList) :=
  String.toList_ofList

/-- Where no longer spelling stands in a literal, the tokens are the same. -/
theorem parse_shortened {s : String} {e : Expr} (h : Expr.parse s = .ok e) (hs : IsClear s) :
    Expr.parse (text s) = .ok e := by
  obtain ⟨ts, hts, hread, hderives⟩ := derives_of_parse h
  have hchain := hderives.isOperand.chain
  have hequal : ¬ longSpelling '=' <:+: literals s.toList := hs '=' (by decide)
  have hunequal : ¬ longSpelling '!' <:+: literals (shorten '=' s.toList) := by
    rw [literals_shorten rfl, shorten_self hequal]
    exact hs '!' (by decide)
  obtain ⟨hlexes, -⟩ := lexes_shorten rfl (lexes_of_tokenize hts) hchain hequal
  obtain ⟨hlexes', -⟩ := lexes_shorten rfl hlexes hchain hunequal
  obtain ⟨ts', hts', hwords⟩ := hlexes'.tokenizeFrom (Nat.le_refl _) 0
  have htokens : tokenize (text s) = .ok ts' := by
    rw [tokenize, toList_text]
    exact hts'
  rw [Expr.parse, htokens]
  exact ofTokens_of_moved (moved_of_map_eq hwords.symm) hread

/-- Where one does, an equals sign of a string is lost. The signs in strings and names are counted
on both sides: they are the same expression, so none may be missing. -/
theorem isClear_of_parse {s : String} {e : Expr} (h : Expr.parse s = .ok e)
    (htext : Expr.parse (text s) = .ok e) : IsClear s := by
  have hcount : (shorten '!' (shorten '=' (literals s.toList))).count '=' =
      (literals s.toList).count '=' := by
    rw [← literals_shorten rfl, ← literals_shorten rfl, ← toList_text,
      count_literals_of_parse htext, count_literals_of_parse h]
  have hequal : ¬ longSpelling '=' <:+: literals s.toList := by
    intro hoccurs
    have hlt := count_shorten_lt rfl hoccurs
    have hle : (shorten '!' (shorten '=' (literals s.toList))).count '=' ≤ _ :=
      count_shorten_le rfl _
    omega
  rw [shorten_self hequal] at hcount
  intro mark hmark hoccurs
  rcases List.mem_cons.1 hmark with rfl | hmark
  · exact hequal hoccurs
  · obtain rfl := List.mem_singleton.1 hmark
    exact absurd hcount (Nat.ne_of_lt (count_shorten_lt rfl hoccurs))

/-- A condition is the same expression with the shorter spellings of equality if, and only if, the
longer ones do not stand in its string literals; then it holds if its value as an expression counts
as true. -/
theorem compile_text {s : String} {p : Program} (hp : Program.compile s = .ok p) :
    (Program.compile (text s) = .ok ⟨text s, p.expr⟩ ↔ IsClear s) ∧
      (IsClear s → ∀ (scope : Scope) (ev : Evaluator) (v : Value),
        ((scope.evalExpr s).run ev).1 = .ok v →
          ((scope.evalCondition s).run ev).1 = .ok v.truthy) := by
  obtain ⟨e, he, rfl⟩ := Program.compile_eq_ok_iff.1 hp
  have hcompile : IsClear s → Program.compile (text s) = .ok ⟨text s, e⟩ := fun hs =>
    Program.compile_eq_ok_iff.2 ⟨e, parse_shortened he hs, rfl⟩
  refine ⟨⟨fun htext => ?_, hcompile⟩, fun hs scope ev v hv => ?_⟩
  · obtain ⟨e', he', heq⟩ := Program.compile_eq_ok_iff.1 htext
    obtain rfl : e = e' := congrArg Program.expr heq
    exact isClear_of_parse he he'
  have hpipe : Pipe.hasTopLevelPipe (text s) = false := by
    rw [Pipe.hasTopLevelPipe, Pipe.splitTopLevel_of_parse (parse_shortened he hs)]
    rfl
  rw [Evaluation.run_fst, value_evalExpr scope _ hp] at hv
  rw [Evaluation.run_fst, scope.value_evalCondition_expression ev.functions hpipe,
    value_evalExpr scope _ (hcompile hs)]
  have hvalue : Expr.eval (scopeEnv scope ev.functions none) e = .ok v := by
    rw [Program.run] at hv
    rcases hresult : Expr.eval (scopeEnv scope ev.functions none) e with fault | u
    · rw [hresult] at hv
      cases hv
    · rw [hresult] at hv
      exact congrArg Except.ok (Except.ok.inj hv)
  rw [Program.run, hvalue]
  rfl

/-- Between operands the longer spellings mean the same. -/
theorem compile_text_operators :
    (Program.compile "a === 'b' && c !==1" = .ok ⟨"a === 'b' && c !==1",
        .binary .both (.binary .equal (.name "a") (.literal (.str "b")))
          (.binary .notEqual (.name "c") (.literal (.int 1)))⟩ ∧
      IsClear "a === 'b' && c !==1") ∧
      Program.compile "a == 'b' && c !=1" = .ok ⟨"a == 'b' && c !=1",
        .binary .both (.binary .equal (.name "a") (.literal (.str "b")))
          (.binary .notEqual (.name "c") (.literal (.int 1)))⟩ := by
  have hcompile : Program.compile "a === 'b' && c !==1" = .ok ⟨"a === 'b' && c !==1",
        .binary .both (.binary .equal (.name "a") (.literal (.str "b")))
          (.binary .notEqual (.name "c") (.literal (.int 1)))⟩ := by cbv
  have hclear : IsClear "a === 'b' && c !==1" := by
    intro mark hmark
    rcases List.mem_cons.1 hmark with rfl | hmark
    · decide
    · obtain rfl := List.mem_singleton.1 hmark
      decide
  have htext : text "a === 'b' && c !==1" = "a == 'b' && c !=1" := by cbv
  refine ⟨⟨hcompile, hclear⟩, ?_⟩
  have hshort := (compile_text hcompile).1.2 hclear
  rwa [htext] at hshort

/-- Within a string the longer spelling is lost. -/
theorem not_compile_text :
    ¬ ∀ (s : String) (p : Program), Program.compile s = .ok p →
      Program.compile (text s) = .ok ⟨text s, p.expr⟩ := by
  intro hall
  have hcompile : Program.compile "s == '==='" = .ok ⟨"s == '==='",
      .binary .equal (.name "s") (.literal (.str "==="))⟩ := by cbv
  have hshort : Program.compile (text "s == '==='") = .ok ⟨"s == '=='",
      .binary .equal (.name "s") (.literal (.str "=="))⟩ := by cbv
  have hsame := hshort.symm.trans (hall _ _ hcompile)
  have hexpr := congrArg Program.expr (Except.ok.inj hsame)
  injection hexpr with _ _ hliteral
  injection hliteral with hvalue
  injection hvalue with hcontent
  exact absurd hcontent (by decide)

end Condition
end Stencil
