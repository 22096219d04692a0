import Stencil.Proofs.Expr.RoundTrip
import Stencil.Proofs.Expr.Lexeme
import Stencil.Proofs.Pipe.Agreement
import Stencil.Proofs.Pipe.RoundTrip

/-!
# Calls of literals

A call with literals for arguments, as the language of pipes reads it and as that of expressions
does.

## Main definitions

* `LiteralText` — a literal that both languages read alike, and its value
* `callText` — the text of a call with some arguments
* `Expr.ReadAs` — a text that is read as an expression wherever an argument can stand

## Main results

* `Expr.parse_callText` — a call of arguments that are read is read
* `evalPipe_callText`, `evalExpr_callText` — either language calls the function with the values
* `evalPipe_eq_evalExpr_callText` — so the value, or the fault, is the same

## Design notes

What is between the quotes of a string is its content in an argument of a pipe, while in an
expression a backslash escapes. So a string with a backslash differs from itself.
-/

namespace Stencil

open Text Stencil.Expr

/-! ### Literals -/

/-- The text of a literal and its value: a string between quotes without a backslash, an integer in
decimal digits with a sign in front or none, or a truth value. -/
inductive LiteralText : Value → List Char → Prop where
  | str {q : Char} {content : List Char} : isQuote q = true → (∀ c ∈ content, c ≠ q ∧ c ≠ '\\') →
      LiteralText (.str (String.ofList content)) (q :: (content ++ [q]))
  | int {digits : List Char} {n : Nat} : Decimal.readNat? digits = some n → n < 2 ^ 63 →
      LiteralText (.int (Int64.ofInt n)) digits
  | negative {digits : List Char} {n : Nat} : Decimal.readNat? digits = some n → n < 2 ^ 63 →
      LiteralText (.int (Int64.ofInt (-n))) ('-' :: digits)
  | bool (b : Bool) : LiteralText (.bool b) (toString b).toList

/-- The text of a call with the texts of its arguments. -/
def callText (f : String) (texts : List (List Char)) : String :=
  String.ofList (f.toList ++ '(' :: ([',', ' '].intercalate texts ++ [')']))

theorem toList_callText (f : String) (texts : List (List Char)) :
    (callText f texts).toList = f.toList ++ '(' :: ([',', ' '].intercalate texts ++ [')']) :=
  String.toList_ofList

/-! ### Digits -/

section Digits

variable {digits : List Char} {n : Nat} (h : Decimal.readNat? digits = some n)

include h

theorem Decimal.readInt64?_digits (hn : n < 2 ^ 63) :
    Decimal.readInt64? digits = some (Int64.ofInt n) := by
  have hint : readInt? digits = some (n : Int) := by
    rw [readInt?, splitSign_of_isDigit (digits_of_readNat? h).2]
    simp only [h]
    rfl
  have hrange : -Int.pow 2 63 ≤ (n : Int) ∧ (n : Int) < Int.pow 2 63 := by
    show -(9223372036854775808 : Int) ≤ n ∧ (n : Int) < 9223372036854775808
    omega
  rw [readInt64?, hint, Option.bind_some, int64?, if_pos hrange]

theorem Decimal.readInt64?_negative (hn : n < 2 ^ 63) :
    Decimal.readInt64? ('-' :: digits) = some (Int64.ofInt (-n)) := by
  have hint : readInt? ('-' :: digits) = some (-(n : Int)) := by
    simp only [readInt?, splitSign, h]
    rfl
  have hrange : -Int.pow 2 63 ≤ -(n : Int) ∧ -(n : Int) < Int.pow 2 63 := by
    show -(9223372036854775808 : Int) ≤ -n ∧ -(n : Int) < 9223372036854775808
    omega
  rw [readInt64?, hint, Option.bind_some, int64?, if_pos hrange]

end Digits

/-! ### Literals in pipes -/

theorem LiteralText.isWord {v : Value} {text : List Char} (h : LiteralText v text) :
    Pipe.IsWord text := by
  cases h with
  | str hq hcontent => exact .quoted hq hcontent
  | int h _ =>
      obtain ⟨hne, hdigits⟩ := Decimal.digits_of_readNat? h
      exact .plain hne fun c hc => Pipe.isPlain_of_isDigit (hdigits c hc)
  | negative h _ =>
      obtain ⟨-, hdigits⟩ := Decimal.digits_of_readNat? h
      exact .plain (List.cons_ne_nil _ _)
        (List.forall_mem_cons.2 ⟨rfl, fun c hc => Pipe.isPlain_of_isDigit (hdigits c hc)⟩)
  | bool b =>
      cases b with
      | true => exact .plain (List.cons_ne_nil _ _) (List.all_eq_true.1 rfl)
      | false => exact .plain (List.cons_ne_nil _ _) (List.all_eq_true.1 rfl)

theorem Pipe.argOf_of_readInt64? {text : List Char} {i : Int64} (hquote : unquote? text = none)
    (h : Decimal.readInt64? text = some i) : argOf text = .literal (.int i) := by
  rw [argOf, hquote]
  simp only [h]

theorem LiteralText.argOf {v : Value} {text : List Char} (h : LiteralText v text) :
    Pipe.argOf text = .literal v := by
  have hword := h.isWord
  cases h with
  | str hq _ => rw [Pipe.argOf, unquote?_quoted hq]
  | int h hn =>
      refine Pipe.argOf_of_readInt64? (unquote?_eq_none fun c hc => ?_)
        (Decimal.readInt64?_digits h hn)
      have hdigit := (Decimal.digits_of_readNat? h).2 c (List.mem_of_mem_head? hc)
      exact isQuote_of_isNameChar (isNameChar_iff.2 (.inr hdigit))
  | negative h hn =>
      exact Pipe.argOf_of_readInt64? (unquote?_eq_none fun c hc => Option.some.inj hc ▸ rfl)
        (Decimal.readInt64?_negative h hn)
  | bool b =>
      cases b with
      | true => rfl
      | false => rfl

/-- A call of words is one filter stage, and nothing comes before it. The words are split at the
commas and classified one by one. -/
theorem Pipe.parse_callText {f : String} (hf : isName f.toList = true) {texts : List (List Char)}
    (h : ∀ text ∈ texts, IsWord text) :
    Pipe.parse (callText f texts) = ⟨none, [.filter f (texts.map argOf)]⟩ := by
  rw [Pipe.parse, toList_callText, (passes_call hf h).splitTopLevel]
  simp only [ofPieces, startOf, trim_of_isTrimmed (isTrimmed_call hf _), asCall?_intercalate hf h,
    filterStage, splitArgs_intercalate h, String.ofList_toList, List.map_nil, List.append_nil]

/-- A filter stage in front of a pipe calls the function with its arguments. -/
theorem Pipe.value_eval_filter (scope : Scope) (functions : FunctionTable) (f : String)
    (args : List Arg) : ((Pipe.mk none [.filter f args]).eval scope).value functions =
      functions.call f (args.map (Arg.eval scope)) := by
  simp only [Pipe.eval, evalStages, Stage.eval, Evaluation.value_bind, Evaluation.value_functions,
    Except.bind, Option.toList_none, List.nil_append]
  cases hfind : functions.find? f with
  | none =>
      rw [FunctionTable.call, hfind]
      rfl
  | some g =>
      simp only [Option.isSome_some, if_true, Evaluation.value_ofExcept]
      generalize functions.call f (args.map (Arg.eval scope)) = result
      rcases result with fault | v
      · rfl
      · rfl

/-- As a pipe a call of literals calls the function with their values. Quotes are taken off the
strings there, with no look at escapes. -/
theorem evalPipe_callText (scope : Scope) (functions : FunctionTable) {f : String}
    (hf : isName f.toList = true) {values : List Value} {texts : List (List Char)}
    (h : List.Forall₂ LiteralText values texts) :
    (scope.evalPipe (callText f texts)).value functions = functions.call f values := by
  obtain ⟨hwords, hargs⟩ : (∀ text ∈ texts, Pipe.IsWord text) ∧
      (texts.map Pipe.argOf).map (Pipe.Arg.eval scope) = values := by
    induction h with
    | nil => exact ⟨List.forall_mem_nil _, rfl⟩
    | cons hfirst _ ih =>
        refine ⟨List.forall_mem_cons.2 ⟨hfirst.isWord, ih.1⟩, ?_⟩
        rw [List.map_cons, List.map_cons, hfirst.argOf, ih.2]
        rfl
  rw [value_evalPipe, Pipe.parse_callText hf hwords, Pipe.value_eval_filter, hargs]

/-! ### Literals in expressions -/

namespace Expr

/-- A text is read as an expression in front of all that stops it. Both readers of arguments are
served by it: the one of pipes, and that of expressions. -/
structure ReadAs (e : Expr) (text : List Char) : Prop where
  printable : Printable e
  apart : ∀ after, Apart (text ++ after)
  lexes : ∀ style {rest}, Stops rest →
    Lexes rest text ((tokensOf (within style 1 e)).map Prod.snd)

/-- No symbol grows into a word: it begins with none of the characters by which symbols grow. -/
theorem apart_of_isWord {text : List Char} (h : Pipe.IsWord text) (after : List Char) :
    Apart (text ++ after) := by
  intro c hc hgrowing
  obtain ⟨hdigit, hquote, hname⟩ := classes_of_growing hgrowing
  cases h with
  | plain hne hchars =>
      obtain ⟨d, text, rfl⟩ := List.exists_cons_of_ne_nil hne
      obtain rfl := Option.some.inj hc
      have hplain := hchars d List.mem_cons_self
      simp only [Pipe.isPlain, Bool.or_eq_true, beq_iff_eq] at hplain
      rcases hplain with (hplain | rfl) | rfl
      · rcases isNameChar_iff.1 hplain with h | h
        · exact Bool.false_ne_true (hname.symm.trans h)
        · exact Bool.false_ne_true (hdigit.symm.trans h)
      · exact absurd hgrowing (by decide)
      · exact absurd hgrowing (by decide)
  | quoted hq _ =>
      obtain rfl := Option.some.inj hc
      exact Bool.false_ne_true (hquote.symm.trans hq)

theorem within_literal (style : Style) {least : Nat} (hleast : least ≤ 11) (v : Value) :
    within style least (.literal v) = literalPieces v := by
  refine within_of_le ?_
  simp only [level]
  split <;> omega

/-- A literal is read as an expression with its value. A sign in front is an operator there, and
gives the same number. -/
theorem exists_readAs {v : Value} {text : List Char} (h : LiteralText v text) :
    ∃ e, ReadAs e text ∧ ∀ {ε : Type} (env : Env ε), Expr.eval env e = .ok v := by
  have hapart := apart_of_isWord h.isWord
  cases h with
  | @str q content hq hcontent =>
      refine ⟨.literal (.str (String.ofList content)), ⟨.str _, hapart, fun style rest _ => ?_⟩,
        fun env => rfl⟩
      rw [within_literal style (by decide)]
      exact .single (spells_quoted hq (fun h => (hcontent q h).1 rfl)
        (fun h => (hcontent _ h).2 rfl) rest)
  -- Digits are the same integer in both languages, zeros in front included.
  | @int digits n h hn =>
      obtain ⟨hne, hdigits⟩ := Decimal.digits_of_readNat? h
      have hvalue : (Int64.ofInt n).toInt = n := Int64.toInt_ofInt_of_le (by omega) (by omega)
      refine ⟨.literal (.int (Int64.ofInt n)), ⟨.int ?_, hapart, fun style rest hrest => ?_⟩,
        fun env => rfl⟩
      · rw [hvalue]
        exact Int.natCast_nonneg n
      · rw [within_literal style (by decide)]
        exact .single (spells_digits hne hdigits (Decimal.readInt64?_digits h hn) hrest)
  | @negative digits n h hn =>
      obtain ⟨hne, hdigits⟩ := Decimal.digits_of_readNat? h
      have hvalue : (Int64.ofInt n).toInt = n := Int64.toInt_ofInt_of_le (by omega) (by omega)
      refine ⟨.unary .negate (.literal (.int (Int64.ofInt n))), ⟨.unary _ (.int ?_), hapart,
        fun style rest hrest => ?_⟩, fun env => ?_⟩
      · rw [hvalue]
        exact Int.natCast_nonneg n
      · -- The sign is an operator of its own in front of the digits.
        have hminus : Spells (.symbol .minus) ['-'] (digits ++ rest) := by
          refine spells_symbol .minus fun c hc hgrowing => ?_
          obtain ⟨d, digits, rfl⟩ := List.exists_cons_of_ne_nil hne
          obtain rfl := Option.some.inj hc
          have hdigit := hdigits d List.mem_cons_self
          exact Bool.false_ne_true ((classes_of_growing hgrowing).1.symm.trans hdigit)
        have hoperand : Lexes rest digits [.int (Int64.ofInt n)] :=
          .single (spells_digits hne hdigits (Decimal.readInt64?_digits h hn) hrest)
        have hpieces : within style 1 (.unary .negate (.literal (.int (Int64.ofInt n)))) =
            [.symbol .minus] ++ within style 10 (.literal (.int (Int64.ofInt n))) :=
          within_of_le (show 1 ≤ 10 by decide)
        rw [hpieces, within_literal style (by decide)]
        exact .token hminus hoperand
      · have hrange : -Int.pow 2 63 ≤ -(n : Int) ∧ -(n : Int) < Int.pow 2 63 := by
          show -(9223372036854775808 : Int) ≤ -n ∧ -(n : Int) < 9223372036854775808
          omega
        show liftFault (negate (.int (Int64.ofInt n))) = _
        rw [negate, hvalue, Decimal.int64?, if_pos hrange]
        rfl
  -- The words for truth values are names for the lexer, and literals for the parser.
  | bool b =>
      refine ⟨.literal (.bool b), ⟨.bool b, hapart, fun style rest hrest => ?_⟩, fun env => rfl⟩
      rw [within_literal style (by decide)]
      cases b with
      | true =>
          have hname : isName "true".toList = true := by decide
          exact .single (spells_name hname hrest.isNameChar)
      | false =>
          have hname : isName "false".toList = true := by decide
          exact .single (spells_name hname hrest.isNameChar)

theorem lexes_intercalate {items : List Expr} {texts : List (List Char)}
    (h : List.Forall₂ ReadAs items texts) (style : Style) {rest : List Char} (hrest : Stops rest) :
    Lexes rest ([',', ' '].intercalate texts)
      ((tokensOf (separated (itemPieces style items))).map Prod.snd) := by
  induction h with
  | nil => exact .nil
  | @cons e text items texts hfirst hothers ih =>
      cases hothers with
      | nil =>
          rw [List.intercalate_singleton]
          exact hfirst.lexes style hrest
      | @cons e' text' items texts hnext hothers =>
          have hcomma : Stops ([',', ' '] ++ [',', ' '].intercalate (text' :: texts) ++ rest) :=
            stops_cons rfl (by decide) (by decide) _
          have hblank : Lexes ([',', ' '].intercalate (text' :: texts) ++ rest) [' '] [] :=
            .blank rfl .nil
          have hseparator : Lexes ([',', ' '].intercalate (text' :: texts) ++ rest) [',', ' ']
              [.symbol .comma] :=
            .token (spells_symbol .comma (stops_blank _).apart) hblank
          have htokens : (tokensOf (separated (itemPieces style (e :: e' :: items)))).map Prod.snd =
              (tokensOf (within style 1 e)).map Prod.snd ++ ([.symbol .comma] ++
                (tokensOf (separated (itemPieces style (e' :: items)))).map Prod.snd) := by
            simp [itemPieces, separated_cons_cons, within]
          rw [List.intercalate_cons_cons, List.append_assoc, htokens]
          exact (hfirst.lexes style hcomma).append (hseparator.append ih)

/-- A call of arguments that are read is read as such. The name is not a reserved word, for such a
word would begin something else. -/
theorem parse_callText {f : String} (hf : IsFreeName f) {args : List Expr}
    {texts : List (List Char)} (h : List.Forall₂ ReadAs args texts) :
    Expr.parse (callText f texts) = .ok (.call f args) := by
  -- Any style will do, since the texts of the arguments are read in all of them.
  let style : Style := ⟨'\'', rfl, fun _ => true⟩
  have hprintable : Printable (.call f args) := by
    refine .call hf fun e he => ?_
    induction h with
    | nil => exact nomatch he
    | cons hfirst _ ih =>
        rcases List.mem_cons.1 he with rfl | he
        · exact hfirst.printable
        · exact ih he
  have hargs : Lexes [')'] ([',', ' '].intercalate texts)
      ((tokensOf (separated (itemPieces style args))).map Prod.snd) :=
    lexes_intercalate h style (stops_cons rfl (by decide) (by decide) [])
  have hclose : Lexes [] [')'] [.symbol .closeParen] :=
    .single (spells_symbol .closeParen stops_nil.apart)
  have hopen : Spells (.symbol .openParen) ['(']
      ([',', ' '].intercalate texts ++ [')'] ++ []) := by
    refine spells_symbol .openParen ?_
    cases h with
    | nil => exact (stops_cons rfl (by decide) (by decide) []).apart
    | @cons e text args texts hfirst _ =>
        obtain ⟨after, hafter⟩ :
            ∃ after, [',', ' '].intercalate (text :: texts) = text ++ after := by
          cases texts with
          | nil => exact ⟨[], List.intercalate_singleton.trans (List.append_nil text).symm⟩
          | cons next texts => exact ⟨_, List.intercalate_cons_cons.trans (List.append_assoc _ _ _)⟩
        rw [hafter, List.append_assoc, List.append_assoc]
        exact hfirst.apart _
  have hname : Spells (.name f) f.toList
      ('(' :: ([',', ' '].intercalate texts ++ [')']) ++ []) :=
    spells_name hf.1 fun c hc => Option.some.inj hc ▸ rfl
  have hlexes : Lexes [] (callText f texts).toList
      ((tokensOf (within style 1 (.call f args))).map Prod.snd) := by
    have htokens : (tokensOf (within style 1 (.call f args))).map Prod.snd =
        .name f :: .symbol .openParen ::
          ((tokensOf (separated (itemPieces style args))).map Prod.snd ++
            [.symbol .closeParen]) := by
      rw [within_of_le (show 1 ≤ 12 by decide)]
      simp [pieces]
    rw [toList_callText, htokens]
    exact .token hname (.token hopen (hargs.append hclose))
  obtain ⟨ts, hts, hsame⟩ := hlexes.tokenizeFrom (Nat.le_refl _) 0
  have hread : tokenize (callText f texts) = .ok ts := hts
  rw [parse, hread]
  exact ofTokens_of_moved (moved_of_map_eq hsame.symm) (ofTokens_tokensOf style 1 hprintable)

end Expr

/-- As an expression a call of literals calls the function with their values. A fault of the
function is the cause of one that names the expression. -/
theorem evalExpr_callText (scope : Scope) (functions : FunctionTable) {f : String}
    (hf : IsFreeName f) {values : List Value} {texts : List (List Char)}
    (h : List.Forall₂ LiteralText values texts) :
    (scope.evalExpr (callText f texts)).value functions = functions.call f values := by
  obtain ⟨args, hargs, hvalues⟩ : ∃ args, List.Forall₂ Expr.ReadAs args texts ∧
      Expr.evalAll (scopeEnv scope functions none) args = .ok values := by
    induction h with
    | nil => exact ⟨[], .nil, rfl⟩
    | cons hfirst _ ih =>
        obtain ⟨e, he, hv⟩ := Expr.exists_readAs hfirst
        obtain ⟨args, hargs, hvalues⟩ := ih
        refine ⟨e :: args, .cons he hargs, ?_⟩
        rw [Expr.evalAll, hv, hvalues]
        rfl
  have hcompile : Program.compile (callText f texts) = .ok ⟨callText f texts, .call f args⟩ :=
    Program.compile_eq_ok_iff.2 ⟨_, Expr.parse_callText hf hargs, rfl⟩
  rw [value_evalExpr scope functions hcompile, Program.run, Expr.eval, hvalues]
  show ((functions.call f values).mapError EvalFault.call).mapError _ = _
  rcases functions.call f values with fault | v
  · rfl
  · rfl

/-! ### Agreement -/

/-- Both languages give a call of literals the same value, or fail alike: they call the function
with the values of the literals. -/
theorem evalPipe_eq_evalExpr_callText (scope : Scope) (ev : Evaluator) {f : String}
    (hf : IsFreeName f) {values : List Value} {texts : List (List Char)}
    (h : List.Forall₂ LiteralText values texts) :
    ((scope.evalPipe (callText f texts)).run ev).1 =
        ((scope.evalExpr (callText f texts)).run ev).1 ∧
      ((scope.evalExpr (callText f texts)).run ev).1 = ev.functions.call f values := by
  rw [Evaluation.run_fst, Evaluation.run_fst, evalPipe_callText scope _ hf.1 h,
    evalExpr_callText scope _ hf h]
  exact ⟨rfl, rfl⟩

/-- Separators and a parenthesis in a string, and an integer with a sign and a zero in front. -/
theorem evalPipe_eq_evalExpr_callText_separators :
    callText "f" ["\"a', (|\"".toList, "-07".toList, "true".toList] = "f(\"a', (|\", -07, true)" ∧
      (((Scope.ofData .nil).evalPipe
            (callText "f" ["\"a', (|\"".toList, "-07".toList, "true".toList])).run
          (.ofFunctions [("f", ⟨⟨[.any], true⟩, fun args => .ok (.seq args)⟩)])).1 =
        (((Scope.ofData .nil).evalExpr
            (callText "f" ["\"a', (|\"".toList, "-07".toList, "true".toList])).run
          (.ofFunctions [("f", ⟨⟨[.any], true⟩, fun args => .ok (.seq args)⟩)])).1 ∧
      (((Scope.ofData .nil).evalExpr
            (callText "f" ["\"a', (|\"".toList, "-07".toList, "true".toList])).run
          (.ofFunctions [("f", ⟨⟨[.any], true⟩, fun args => .ok (.seq args)⟩)])).1 =
        .ok (.seq [.str "a', (|", .int (-7), .bool true]) := by
  have hstr : LiteralText (.str (String.ofList "a', (|".toList))
      ('"' :: ("a', (|".toList ++ ['"'])) := .str rfl (by simp)
  have hdigits : Decimal.readNat? "07".toList = some 7 := by cbv
  have hint : LiteralText (.int (Int64.ofInt (-(7 : Nat)))) ('-' :: "07".toList) :=
    .negative hdigits (by omega)
  have hname : IsFreeName "f" := ⟨by decide, by decide⟩
  obtain ⟨hsame, hvalue⟩ := evalPipe_eq_evalExpr_callText (Scope.ofData .nil)
    (.ofFunctions [("f", ⟨⟨[.any], true⟩, fun args => .ok (.seq args)⟩)]) hname
    (.cons hstr (.cons hint (.cons (.bool true) .nil)))
  exact ⟨by cbv, hsame, hvalue.trans (by cbv)⟩

/-- A backslash is kept as it is in a pipe, and escapes in an expression. -/
theorem not_evalPipe_eq_evalExpr_callText :
    ¬ ∀ (scope : Scope) (ev : Evaluator) (f : String) (q : Char) (body content : List Char),
      IsFreeName f → isQuote q = true → StringBody q body content →
        ((scope.evalPipe (callText f [q :: body])).run ev).1 =
          ((scope.evalExpr (callText f [q :: body])).run ev).1 := by
  intro hall
  have hbody : StringBody '\'' "a\\nb'".toList "a\nb".toList :=
    .plain (by decide) (by decide) (.escaped 'n' (.plain (by decide) (by decide)
      (.closing (by decide))))
  have hsame := hall (Scope.ofData .nil)
    (.ofFunctions [("f", ⟨⟨[.any], false⟩, fun args => .ok (args.headD .nil)⟩)]) "f" '\'' _ _
    ⟨by decide, by decide⟩ rfl hbody
  have hpipe : (((Scope.ofData .nil).evalPipe (callText "f" ['\'' :: "a\\nb'".toList])).run
      (.ofFunctions [("f", ⟨⟨[.any], false⟩, fun args => .ok (args.headD .nil)⟩)])).1 =
        .ok (.str "a\\nb") := by cbv
  have hexpr : (((Scope.ofData .nil).evalExpr (callText "f" ['\'' :: "a\\nb'".toList])).run
      (.ofFunctions [("f", ⟨⟨[.any], false⟩, fun args => .ok (args.headD .nil)⟩)])).1 =
        .ok (.str "a\nb") := by cbv
  have hvalues := Value.str.inj (Except.ok.inj (hpipe.symm.trans (hsame.trans hexpr)))
  exact absurd hvalues (by decide)

end Stencil
