import Mathlib
import Stencil.Function.Builtin
import Stencil.Proofs.Expr.Flat
import Stencil.Proofs.Pipe.TopLevel
import Stencil.Scope.Eval

/-!
# Pipes and expressions

What the language of pipes makes of an expression.

## Main definitions

* `Pipe.headName?` — the name that a pipe begins with

## Main results

* `evalPipe_eq_evalExpr` — a flat expression has the same value as a pipe
-/

namespace Stencil

open Text Stencil.Expr

namespace Pipe

/-- The name that a pipe begins with: that of its path, or of a call in front. -/
def headName? (p : Pipe) : Option String :=
  match p.initial, p.stages with
  | some initial, _ => some initial.path.head
  | none, .filter f _ :: _ => some f
  | none, _ => none

/-! ### Texts that begin with a name -/

/-- The characters that go on after the name of a call or a path. -/
def followers : List Char := ['(', '.', '[']

theorem isNameChar_of_mem_followers {c : Char} (h : c ∈ followers) : isNameChar c = false := by
  simp only [followers, List.mem_cons, List.not_mem_nil, or_false] at h
  rcases h with rfl | rfl | rfl
  · decide
  · decide
  · decide

/-- A character that goes on after a name is a token of its own. -/
theorem exists_takeToken_follower {c : Char} (h : c ∈ followers) :
    ∃ token, continues token = true ∧ isBlank c = false ∧
      ∀ position cs, takeToken position c cs = .ok (token, cs) := by
  simp only [followers, List.mem_cons, List.not_mem_nil, or_false] at h
  rcases h with rfl | rfl | rfl
  · exact ⟨.symbol .openParen, rfl, rfl, fun _ _ => rfl⟩
  · exact ⟨.symbol .dot, rfl, rfl, fun _ _ => rfl⟩
  · exact ⟨.symbol .openBracket, rfl, rfl, fun _ _ => rfl⟩

/-- A text that begins with a name and what can go on after one begins with their tokens. -/
theorem exists_tokens_of_follower {source : String} {word rest : List Char} {c : Char}
    (hword : isName word = true) (hc : c ∈ followers) (htext : source.toList = word ++ c :: rest)
    {ts : Tokens} (h : tokenize source = .ok ts) :
    ∃ position next token others, continues token = true ∧
      ts = (position, .name (String.ofList word)) :: (next, token) :: others := by
  have hstop : ∀ d ∈ (c :: rest).head?, isNameChar d = false :=
    fun d hd => Option.some.inj hd ▸ isNameChar_of_mem_followers hc
  obtain ⟨d, ds, rfl, hblank, htake⟩ := spells_ofList hword hstop
  obtain ⟨token, hcontinues, hcblank, hctake⟩ := exists_takeToken_follower hc
  rw [tokenize, htext, List.cons_append] at h
  obtain ⟨token₁, rest₁, others, htake₁, hothers, rfl⟩ := (tokenizeFrom_cons hblank).1 h
  obtain ⟨rfl, rfl⟩ := Prod.mk.inj (Except.ok.inj ((htake _).symm.trans htake₁))
  rw [List.length_append, List.length_cons, ← Nat.add_assoc] at hothers
  obtain ⟨token₂, rest₂, others, htake₂, -, rfl⟩ := (tokenizeFrom_cons hcblank).1 hothers
  obtain ⟨rfl, rfl⟩ := Prod.mk.inj (Except.ok.inj ((hctake _ _).symm.trans htake₂))
  exact ⟨_, _, token, others, hcontinues, rfl⟩

/-- A name with what goes on after it begins no flat expression, unless it is a prefix operator. -/
theorem not_flat_of_follower {source : String} {word rest : List Char} {c : Char}
    (hword : isName word = true) (hne : String.ofList word ≠ "not") (hc : c ∈ followers)
    (htext : source.toList = word ++ c :: rest) {e : Expr} (h : Expr.parse source = .ok e)
    (known : String → Prop) : ¬ Flat known e := by
  unfold Expr.parse at h
  split at h
  · rename_i ts hts
    obtain ⟨position, next, token, others, htoken, rfl⟩ :=
      exists_tokens_of_follower hword hc htext hts
    exact not_flat_of_suffix hne htoken h
  · exact nomatch h

/-- A text that is a name is an expression that is one. -/
theorem parse_of_isName {source : String} (h : isName source.toList = true) (hne : source ≠ "not") :
    Expr.parse source = .ok (nameExpr source) := by
  have hstop : ∀ d ∈ ([] : List Char).head?, isNameChar d = false := fun _ hd => nomatch hd
  obtain ⟨c, cs, htext, hblank, htake⟩ := spells_ofList h hstop
  have htokens : tokenize source = .ok [(0, .name source)] := by
    rw [tokenize, htext, List.length_cons]
    have hnone := tokenizeFrom_blanks (List.forall_mem_nil fun c => isBlank c = true)
    have hfirst := htake 0
    rw [List.append_nil, String.ofList_toList] at hfirst
    exact (tokenizeFrom_cons hblank).2 ⟨_, [], [], hfirst, hnone _ _, rfl⟩
  rw [Expr.parse, htokens]
  exact ofTokens_name hne 0

/-! ### Shapes of texts -/

/-- A call begins with its name and a parenthesis. -/
theorem exists_of_asCall? {cs word args : List Char} (h : asCall? cs = some (word, args)) :
    ∃ rest, trim cs = word ++ '(' :: rest ∧ isName word = true := by
  obtain ⟨htrim, hword, -⟩ := asCall?_eq_some_iff.1 h
  exact ⟨args ++ [')'], htrim, hword⟩

/-- A path is a name, or a name and a point or a bracket. Nothing else is needed of a path here than
how it begins. -/
theorem exists_of_ofChars? {cs : List Char} {path : Path} (h : Path.ofChars? cs = some path) :
    (isName cs = true ∧ path = ⟨String.ofList cs, []⟩) ∨
      ∃ word c rest, cs = word ++ c :: rest ∧ isName word = true ∧ c ∈ followers ∧
        path.head = String.ofList word := by
  unfold Path.ofChars? at h
  split at h
  · exact nomatch h
  · rename_i c ds
    split at h
    · rename_i hc
      obtain ⟨steps, hsteps, rfl⟩ := Option.map_eq_some_iff.1 h
      have htext : c :: ds = c :: ds.takeWhile isNameChar ++ ds.dropWhile isNameChar := by
        rw [List.cons_append, List.takeWhile_append_dropWhile]
      generalize hdrop : ds.dropWhile isNameChar = rest at hsteps htext
      rcases rest with _ | ⟨d, rest⟩
      · obtain rfl := Option.some.inj hsteps
        rw [List.append_nil] at htext
        rw [htext]
        exact .inl ⟨isName_takeWhile hc ds, rfl⟩
      · refine .inr ⟨_, d, rest, htext, isName_takeWhile hc ds, ?_, rfl⟩
        obtain ⟨found, hstep, -⟩ := Option.bind_eq_some_iff.1 hsteps
        unfold Path.takeStep? at hstep
        split at hstep
        · rename_i heq
          obtain ⟨rfl, -⟩ := List.cons.inj heq
          decide
        · rename_i heq
          obtain ⟨rfl, -⟩ := List.cons.inj heq
          decide
        · exact nomatch hstep
    · exact nomatch h

/-- A text without bars is a call, a path or an expression. They are tried in this order, and the
first that applies is all of the pipe. -/
theorem parse_cases {source : String} (h : splitTopLevel '|' source.toList = [source.toList]) :
    (∃ word args, asCall? (trim source.toList) = some (word, args) ∧
        Pipe.parse source = ⟨none, [filterStage word args]⟩) ∨
      (∃ path, Path.ofChars? (trim source.toList) = some path ∧
        Pipe.parse source = ⟨some ⟨trimmed source, path⟩, []⟩) ∨
      Pipe.parse source = ⟨none, [.expression (trimmed source)]⟩ := by
  have hparse : Pipe.parse source =
      ⟨(startOf true source.toList).1, (startOf true source.toList).2 ++ []⟩ := by
    rw [Pipe.parse, h]
    rfl
  rw [hparse]
  generalize hstart : startOf true source.toList = start
  simp only [startOf] at hstart
  split at hstart
  · rename_i word args hcall
    exact .inl ⟨word, args, hcall, hstart ▸ rfl⟩
  split at hstart
  · exact .inr (.inr (hstart ▸ rfl))
  split at hstart
  · rename_i path hpath
    exact .inr (.inl ⟨path, hpath, hstart ▸ rfl⟩)
  · exact .inr (.inr (hstart ▸ rfl))

end Pipe

/-! ### Values -/

section Values

variable (scope : Scope) (functions : FunctionTable)

theorem value_evalExpr {source : String} {p : Program} (h : Program.compile source = .ok p) :
    (scope.evalExpr source).value functions = p.run (scopeEnv scope functions none) := by
  have hcompiled : compiled source = .ok p := by
    rw [compiled, h]
    rfl
  simp only [Scope.evalExpr, Evaluation.value_bind, Evaluation.value_program, hcompiled,
    Evaluation.value_functions, Evaluation.value_ofExcept, Except.bind]

theorem value_evalPipe (source : String) :
    (scope.evalPipe source).value functions = ((Pipe.parse source).eval scope).value functions := by
  simp only [Scope.evalPipe, Evaluation.value_bind, Evaluation.value_pipe, Except.bind]

/-- A pipe that is an expression has its value where the current value is nil. -/
theorem value_eval_expression {source : String} {p : Program} (h : Program.compile source = .ok p) :
    ((Pipe.mk none [.expression source]).eval scope).value functions =
      p.run (scopeEnv scope functions (some .nil)) := by
  have hcompiled : compiled source = .ok p := by
    rw [compiled, h]
    rfl
  simp only [Pipe.eval, Pipe.evalStages, Pipe.Stage.eval, Evaluation.value_bind,
    Evaluation.value_program, hcompiled, Evaluation.value_functions, Evaluation.value_ofExcept,
    Except.bind, Option.getD_none]
  rcases p.run (scopeEnv scope functions (some .nil)) with fault | v
  · rfl
  · rfl

/-- A pipe that is a name has its value. -/
theorem value_eval_name {source name : String} {v : Value} (h : scope.lookup? name = some v) :
    ((Pipe.mk (some ⟨source, ⟨name, []⟩⟩) []).eval scope).value functions = .ok v := by
  have hpath : scope.resolvePath? ⟨name, []⟩ = some v := by
    rw [Scope.resolvePath?, h]
    rfl
  simp only [Pipe.eval, hpath]
  rfl

end Values

/-- The words that are literals or operators of expressions where a name could begin. -/
def leadingWords : List String := ["true", "false", "nil", "null", "not"]

theorem ne_not_of_leadingWords {w : String} (h : w ∉ leadingWords) : w ≠ "not" := by
  rintro rfl
  exact h (by decide)

theorem nameExpr_of_leadingWords {w : String} (h : w ∉ leadingWords) : nameExpr w = .name w := by
  simp only [leadingWords, List.mem_cons, not_or] at h
  simp [nameExpr, h.1, h.2.1, h.2.2.1, h.2.2.2.1]

theorem run_name {source name : String} {env : Env Fault} {v : Value}
    (h : env.lookup? name = some v) : Program.run ⟨source, .name name⟩ env = .ok v := by
  rw [Program.run, Expr.eval, h]
  rfl

theorem toOption_run {p p' : Program} {env env' : Env Fault} (hexpr : p.expr = p'.expr)
    (hlookup : env.lookup? = env'.lookup?) {known : String → Prop} (hflat : Flat known p.expr) :
    (p.run env).toOption = (p'.run env').toOption := by
  have hvalue : Expr.eval env p.expr = Expr.eval env' p'.expr := hexpr ▸ eval_of_flat hlookup hflat
  rw [Program.run, Program.run, hvalue]
  rcases Expr.eval env' p'.expr with fault | v
  · rfl
  · rfl

/-- A flat expression whose names have values has the same value as a pipe, unless the pipe begins
with a reserved word that it takes for a name. -/
theorem evalPipe_eq_evalExpr (scope : Scope) (ev : Evaluator) {source : String} {p : Program}
    (hp : Program.compile source = .ok p)
    (hflat : Flat (fun name => scope.contains name = true) p.expr)
    (hwords : ∀ name ∈ (Pipe.parse source).headName?, name ∉ leadingWords) :
    ((scope.evalPipe source).run ev).1.toOption = ((scope.evalExpr source).run ev).1.toOption := by
  rw [Evaluation.run_fst, Evaluation.run_fst, value_evalPipe, value_evalExpr scope _ hp]
  obtain ⟨e, he, rfl⟩ : ∃ e, Expr.parse source = .ok e ∧ ⟨source, e⟩ = p := by
    unfold Program.compile at hp
    generalize Expr.parse source = parsed at hp
    rcases parsed with fault | e
    · exact nomatch hp
    · exact ⟨e, rfl, Except.ok.inj hp⟩
  have htrimmed := parse_trimmed he
  have htext : (trimmed source).toList = trim source.toList := String.toList_ofList
  rcases Pipe.parse_cases (Pipe.splitTopLevel_of_parse he) with
    ⟨word, args, hcall, hpipe⟩ | ⟨path, hpath, hpipe⟩ | hpipe
  · -- A flat expression has the shape of a call only where a prefix operator takes its place.
    obtain ⟨rest, hcs, hword⟩ := Pipe.exists_of_asCall? hcall
    rw [trim_trim, ← htext] at hcs
    have hhead := hwords (String.ofList word) (by rw [hpipe]; rfl)
    exact absurd hflat (Pipe.not_flat_of_follower hword (ne_not_of_leadingWords hhead) (by decide)
      hcs htrimmed _)
  -- A path that is a name alone is a variable to both languages.
  · have hhead : path.head ∉ leadingWords := hwords path.head (by rw [hpipe]; rfl)
    rcases Pipe.exists_of_ofChars? hpath with
      ⟨hname, rfl⟩ | ⟨word, c, rest, hcs, hword, hc, hpathHead⟩
    · have htrimmedName : isName (trimmed source).toList = true := by
        rw [htext]
        exact hname
      have hread := Pipe.parse_of_isName htrimmedName (ne_not_of_leadingWords hhead)
      obtain rfl : e = .name (trimmed source) :=
        (Except.ok.inj (htrimmed.symm.trans hread)).trans (nameExpr_of_leadingWords hhead)
      obtain ⟨v, hv⟩ : ∃ v, scope.lookup? (trimmed source) = some v := by
        cases hflat with
        | name hknown => exact Option.isSome_iff_exists.1 hknown
      rw [hpipe]
      exact congrArg Except.toOption ((value_eval_name scope _ hv).trans (run_name hv).symm)
    -- A path with steps is no flat expression.
    · rw [hpathHead] at hhead
      rw [← htext] at hcs
      exact absurd hflat
        (Pipe.not_flat_of_follower hword (ne_not_of_leadingWords hhead) hc hcs htrimmed _)
  -- In all other cases the pipe hands the text on to the expression language.
  · rw [hpipe, value_eval_expression scope _ (p := ⟨trimmed source, e⟩)]
    · exact toOption_run rfl rfl hflat
    · rw [Program.compile, htrimmed]
      rfl

/-- A text in which words and operators meet is no call and no path. -/
theorem evalPipe_eq_evalExpr_not_or :
    Program.compile " not a || b in [1, 2] " = .ok ⟨" not a || b in [1, 2] ",
        .binary .either (.unary .not (.name "a")) (.binary .member (.name "b")
          (.array [.literal (.int 1), .literal (.int 2)]))⟩ ∧
      (((Scope.ofData (.map [("a", .bool true), ("b", .int 2)])).evalPipe
          " not a || b in [1, 2] ").run (.ofFunctions Builtin.table)).1.toOption =
        (((Scope.ofData (.map [("a", .bool true), ("b", .int 2)])).evalExpr
          " not a || b in [1, 2] ").run (.ofFunctions Builtin.table)).1.toOption := by
  have hcompile : Program.compile " not a || b in [1, 2] " = .ok ⟨" not a || b in [1, 2] ",
      .binary .either (.unary .not (.name "a")) (.binary .member (.name "b")
        (.array [.literal (.int 1), .literal (.int 2)]))⟩ := by cbv
  refine ⟨hcompile, evalPipe_eq_evalExpr _ _ hcompile ?_ ?_⟩
  · refine .binary .either (.unary .not (.name (by cbv))) (.binary .member (.name (by cbv)) ?_)
    refine .array fun e he => ?_
    simp only [List.mem_cons, List.not_mem_nil, or_false] at he
    rcases he with rfl | rfl
    · exact .literal (.int 1)
    · exact .literal (.int 2)
  · have hhead : (Pipe.parse " not a || b in [1, 2] ").headName? = none := by cbv
    rw [hhead]
    rintro name ⟨⟩

/-- A prefix operator in front of a parenthesis is taken for a function. -/
theorem not_evalPipe_eq_evalExpr :
    ¬ ∀ (scope : Scope) (ev : Evaluator) (source : String) (p : Program),
      Program.compile source = .ok p → Flat (fun name => scope.contains name = true) p.expr →
        ((scope.evalPipe source).run ev).1.toOption =
          ((scope.evalExpr source).run ev).1.toOption := by
  intro hall
  have hcompile : Program.compile "not(a)" = .ok ⟨"not(a)", .unary .not (.name "a")⟩ := by cbv
  have hsame := hall (Scope.ofData (.map [("a", .bool true)])) (.ofFunctions []) "not(a)" _ hcompile
    (.unary .not (.name (by cbv)))
  have hpipe : Pipe.parse "not(a)" = ⟨none, [.filter "not" [.token "a"]]⟩ := rfl
  have hvalue : Program.run ⟨"not(a)", .unary .not (.name "a")⟩
      (scopeEnv (Scope.ofData (.map [("a", .bool true)])) [] none) = .ok (.bool false) := by cbv
  rw [Evaluation.run_fst, Evaluation.run_fst, value_evalPipe, value_evalExpr _ _ hcompile, hpipe]
    at hsame
  have hfails : (((Pipe.mk none [.filter "not" [.token "a"]]).eval
      (Scope.ofData (.map [("a", .bool true)]))).value []).toOption = none := rfl
  have hfound := hfails.symm.trans (hsame.trans (congrArg Except.toOption hvalue))
  cases hfound

end Stencil
