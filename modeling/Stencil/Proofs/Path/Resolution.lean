import Stencil.Proofs.Path.Expression

/-!
# Paths in scopes

The value of a path, looked up by a scope and evaluated as an expression.

## Main definitions

* `Value.IsKey` — the values that name a member
* `Path.Segment.Canonical` — segments that are written in one of the plain forms, the variables
  among them with keys for values

## Main results

* `Path.evalExpr_eq_resolve?` — a path has the same value for a scope and as an expression

## Design notes

A scope stops at the first step that leads nowhere, an expression goes on with nil.  Nil has no
members, so that the rest of the steps ends with nothing in both; the induction over the segments
carries the value so far as one that may be missing.
-/

namespace Stencil

open Text Stencil.Expr

/-- The values that name a member: strings and integers. -/
inductive Value.IsKey : Value → Prop where
  | str (s : String) : IsKey (.str s)
  | int (i : Int64) : IsKey (.int i)
  | uint (n : UInt64) : IsKey (.uint n)

namespace Path

/-- A segment is a name after a point, a number, a quoted text without quotes of its kind and
escapes, or a variable with a key for its value. -/
def Segment.Canonical (scope : Scope) : Segment → Prop
  | .dot field => isName field.toList = true
  | .index digits => IsNumeral digits
  | .quoted quote key => quote ∉ key.toList ∧ '\\' ∉ key.toList
  | .word w => w ∉ leadingWords ∧ ∃ v, scope.lookup? w = some v ∧ v.IsKey

variable {scope : Scope} {seg : Segment} {segs : List Segment} {s head : String}

theorem Segment.Canonical.readable (h : seg.Canonical scope) : seg.Readable := by
  cases seg with
  | dot field => exact .inl h
  | index digits => exact h
  | quoted quote key => exact h
  | word w => exact h.1

theorem Segment.Canonical.isPointNumber (h : seg.Canonical scope) : seg.isPointNumber = false := by
  cases seg with
  | dot field =>
      obtain ⟨c, cs, hfield, hc, -⟩ := exists_cons_of_isName h
      rw [Segment.isPointNumber, hfield]
      exact isDigit_of_isNameStart hc
  | _ => rfl

theorem isChain_apart (h : ∀ seg ∈ segs, seg.Canonical scope) : segs.IsChain Segment.Apart := by
  induction segs with
  | nil => exact .nil
  | cons seg segs ih =>
      refine List.isChain_cons.2 ⟨fun next hnext _ => ?_, ?_⟩
      · exact (h next (List.mem_cons_of_mem _ (List.mem_of_mem_head? hnext))).isPointNumber
      · exact ih fun seg hmem => h seg (List.mem_cons_of_mem _ hmem)

/-! ### Values -/

/-- The key of a value is the text that a scope takes for it. -/
theorem indexKey_of_isKey {w : String} {v : Value} (hv : scope.lookup? w = some v)
    (hkey : v.IsKey) : ∃ key, indexKey v = .ok key ∧ scope.stepKey? (.variable w) = some key := by
  simp only [Scope.stepKey?, hv]
  cases hkey with
  | str s => exact ⟨_, rfl, rfl⟩
  | int i => exact ⟨_, rfl, rfl⟩
  | uint n => exact ⟨_, rfl, rfl⟩

section Values

variable {env : Env Fault} (henv : env.lookup? = scope.lookup?) {base : Expr} {v? : Option Value}

include henv

/-- The node of a segment has the value that its step leads to, or nil. A value that is missing and
one that is nil are the same for both sides. -/
theorem eval_wrap (hseg : seg.Canonical scope) (hbase : Expr.eval env base = .ok (v?.getD .nil)) :
    Expr.eval env (seg.wrap base) = .ok ((do
      let v ← v?
      let key ← scope.stepKey? seg.step
      v.child? key).getD .nil) := by
  -- Nil has no members, as has a value that is not there.
  have hchild : ∀ key, (v?.getD .nil).child? key = v?.bind (·.child? key) := by
    intro key
    rcases v? with _ | v
    · rfl
    · rfl
  -- All segments in brackets are read as an index, by an expression for the key.
  have hindex : ∀ {e : Expr} {k : Value} {key : String}, Expr.eval env e = .ok k →
      indexKey k = .ok key → scope.stepKey? seg.step = some key →
      Expr.eval env (.index base e) = .ok ((do
        let v ← v?
        let key ← scope.stepKey? seg.step
        v.child? key).getD .nil) := by
    intro e k key he hk hstep
    rw [Expr.eval, hbase, he, hstep]
    show (liftFault (indexKey k) >>= _) = _
    rw [hk]
    exact congrArg (fun found : Option Value => Except.ok (found.getD .nil)) (hchild key)
  cases seg with
  | dot field =>
      rw [Segment.wrap, Expr.eval, hbase]
      exact congrArg (fun found : Option Value => Except.ok (found.getD .nil)) (hchild field)
  | index digits =>
      have hdigits : IsNumeral digits := hseg
      refine hindex (k := .int (numeralValue digits)) (by rw [Expr.eval]) rfl ?_
      exact congrArg some hdigits.toString.symm
  | quoted quote key => exact hindex (k := .str key) (by rw [Expr.eval]) rfl rfl
  | word w =>
      obtain ⟨-, v, hv, hkey⟩ := hseg
      obtain ⟨key, hk, hstep⟩ := indexKey_of_isKey hv hkey
      refine hindex (k := v) ?_ hk hstep
      rw [Expr.eval, henv, hv]
      rfl

theorem eval_segments (hsegs : ∀ seg ∈ segs, seg.Canonical scope)
    (hbase : Expr.eval env base = .ok (v?.getD .nil)) :
    Expr.eval env (segs.foldl Segment.wrap base) =
      .ok ((v?.bind (scope.follow? (segs.map Segment.step))).getD .nil) := by
  induction segs generalizing base v? with
  | nil =>
      rw [List.foldl_nil, hbase]
      rcases v? with _ | v
      · rfl
      · rfl
  | cons seg segs ih =>
      have hfirst := eval_wrap henv (hsegs seg List.mem_cons_self) hbase
      rw [List.foldl_cons, ih (fun seg hmem => hsegs seg (List.mem_cons_of_mem _ hmem)) hfirst,
        List.map_cons]
      rcases v? with _ | v
      · rfl
      · have hassoc := Option.bind_assoc (scope.stepKey? seg.step) v.child?
          (scope.follow? (segs.map Segment.step))
        exact congrArg (fun found : Option Value => Except.ok (found.getD .nil)) hassoc

end Values

/-- Paths mean the same to a scope and to the expression engine: a path in its plain form is
compiled, and has the value that the scope resolves it to, or nil where there is none. -/
theorem evalExpr_eq_resolve? (ev : Evaluator) (h : SpelledBy s head segs)
    (hhead : head ∉ leadingWords) (hsegs : ∀ seg ∈ segs, seg.Canonical scope) :
    (∃ p, Program.compile s = .ok p) ∧
      ((scope.evalExpr s).run ev).1 = .ok ((scope.resolve? s).getD .nil) := by
  have hcompile := h.compile hhead (fun seg hmem => (hsegs seg hmem).readable)
    (isChain_apart hsegs)
  have hresolve : scope.resolve? s =
      (scope.lookup? head).bind (scope.follow? (segs.map Segment.step)) := by
    rw [Scope.resolve?, h.parse?]
    rfl
  refine ⟨⟨_, hcompile⟩, ?_⟩
  have henv : (scopeEnv scope ev.functions none).lookup? = scope.lookup? := rfl
  have hvalue : Expr.eval (scopeEnv scope ev.functions none) (spine head segs) =
      .ok ((scope.resolve? s).getD .nil) := by
    have hhead : Expr.eval (scopeEnv scope ev.functions none) (.name head) =
        .ok ((scope.lookup? head).getD .nil) := by
      rw [Expr.eval]
      rfl
    rw [hresolve]
    exact eval_segments henv hsegs hhead
  rw [Evaluation.run_fst, value_evalExpr scope _ hcompile, Program.run, hvalue]
  rfl

/-- An item of a member of a record, under a key that a variable holds. -/
theorem evalExpr_eq_resolve?_item :
    (∃ p, Program.compile "a.b[1]['x y'][k]" = .ok p) ∧
      (((Scope.ofData (.map [("a", .record 0 "R" [⟨"b", none, .seq [.nil, .map [("x y",
        .seq [.str "u"])]]⟩]), ("k", .int 0)])).evalExpr "a.b[1]['x y'][k]").run
          (.ofFunctions [])).1 = .ok (.str "u") := by
  have hindex : (Segment.index "1").Written ('[' :: (['1'] ++ [']'])) :=
    .bracket (.index (by decide) (List.all_eq_true.1 rfl)) (by decide)
  have hquoted : (Segment.quoted '\'' "x y").Written
      ('[' :: (['\'', 'x', ' ', 'y', '\''] ++ [']'])) := .bracket (.quoted "x y" rfl) (by decide)
  have hword : (Segment.word "k").Written ('[' :: (['k'] ++ [']'])) :=
    .bracket (.word rfl) (by decide)
  have hspelled : SpelledBy "a.b[1]['x y'][k]" "a"
      [.dot "b", .index "1", .quoted '\'' "x y", .word "k"] := by
    refine ⟨rfl, [['.', 'b'], ['[', '1', ']'], ['[', '\'', 'x', ' ', 'y', '\'', ']'],
      ['[', 'k', ']']], ?_, by cbv⟩
    exact .cons (.dot (by decide) (List.all_eq_true.1 rfl)) (.cons hindex (.cons hquoted
      (.cons hword .nil)))
  have hone : IsNumeral "1" := ⟨1, by decide, rfl⟩
  generalize hscope : Scope.ofData (.map [("a", .record 0 "R" [⟨"b", none, .seq [.nil, .map [("x y",
    .seq [.str "u"])]]⟩]), ("k", .int 0)]) = scope
  have hk : scope.lookup? "k" = some (.int 0) := by
    rw [← hscope]
    cbv
  have hvalue : scope.resolve? "a.b[1]['x y'][k]" = some (.str "u") := by
    rw [← hscope]
    cbv
  have hcanonical : ∀ seg ∈ [.dot "b", .index "1", .quoted '\'' "x y", .word "k"],
      Segment.Canonical scope seg := by
    simp only [List.forall_mem_cons, List.not_mem_nil, false_implies, implies_true, and_true]
    exact ⟨rfl, hone, ⟨by decide, by decide⟩, show "k" ∉ leadingWords by decide, _, hk, .int 0⟩
  have hmeaning := evalExpr_eq_resolve? (.ofFunctions []) hspelled (by decide) hcanonical
  rwa [hvalue] at hmeaning

end Path
end Stencil
