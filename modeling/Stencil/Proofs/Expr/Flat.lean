import Stencil.Expr.Eval
import Stencil.Proofs.Expr.Grammar
import Stencil.Proofs.Expr.Position

/-!
# Flat expressions

Expressions of literals, names and operators.

## Main definitions

* `Flat` — expressions without members, indices, calls and the current value

## Main results

* `eval_of_flat` — the value of a flat expression does not depend on a pipe around it
* `not_flat_of_suffix` — an expression whose first name has a suffix is not flat
* `ofTokens_name` — a single name is an expression
-/

namespace Stencil.Expr

/-- Expressions of literals, names that `known` holds of, and operators. They look up nothing but
names, so scopes that agree about the known names give them the same value. -/
inductive Flat (known : String → Prop) : Expr → Prop where
  | literal (v : Value) : Flat known (.literal v)
  | name {s : String} : known s → Flat known (.name s)
  | unary (op : UnaryOp) {e : Expr} : Flat known e → Flat known (.unary op e)
  | binary (op : BinaryOp) {a b : Expr} : Flat known a → Flat known b → Flat known (.binary op a b)
  | choice {condition yes no : Expr} : Flat known condition → Flat known yes → Flat known no →
      Flat known (.choice condition yes no)
  | array {items : List Expr} : (∀ e ∈ items, Flat known e) → Flat known (.array items)
  | mapping {entries : List (String × Expr)} : (∀ entry ∈ entries, Flat known entry.2) →
      Flat known (.mapping entries)

variable {known : String → Prop}

/-! ### Values -/

section Values

variable {ε : Type} {env env' : Env ε}

theorem evalAll_congr {items : List Expr} (h : ∀ e ∈ items, eval env e = eval env' e) :
    evalAll env items = evalAll env' items := by
  induction items with
  | nil => rfl
  | cons e items ih =>
      rw [evalAll, evalAll, h e List.mem_cons_self,
        ih fun e' he' => h e' (List.mem_cons_of_mem e he')]

theorem evalEntries_congr {entries : List (String × Expr)}
    (h : ∀ entry ∈ entries, eval env entry.2 = eval env' entry.2) :
    evalEntries env entries = evalEntries env' entries := by
  induction entries with
  | nil => rfl
  | cons entry entries ih =>
      obtain ⟨key, e⟩ := entry
      rw [evalEntries, evalEntries, h (key, e) List.mem_cons_self,
        ih fun entry' he' => h entry' (List.mem_cons_of_mem (key, e) he')]

/-- The value of a flat expression depends on variables alone. It calls nothing, so that the
functions do not matter, and it has no current value. -/
theorem eval_of_flat (hlookup : env.lookup? = env'.lookup?) {e : Expr} (he : Flat known e) :
    eval env e = eval env' e := by
  induction he with
  | literal v => rfl
  | name _ => rw [eval, eval, hlookup]
  | unary op _ ih =>
      cases op with
      | not => rw [eval, eval, ih]
      | negate => rw [eval, eval, ih]
  | binary op _ _ iha ihb => cases op <;> simp only [eval, iha, ihb]
  | choice _ _ _ ihcondition ihyes ihno => rw [eval, eval, ihcondition, ihyes, ihno]
  | array _ ih => rw [eval, eval, evalAll_congr ih]
  | mapping _ ih => rw [eval, eval, evalEntries_congr ih]

end Values

/-! ### The first operand -/

section Parsing

variable {inner operand : Parser Expr} {ts rest : Tokens} {e e' : Expr}

/-- What is flat has no suffixes: each makes a member, an index or a call, and what is made of those
is not flat either. -/
theorem not_continues_of_parseSuffixes {bound : Nat} (hbound : bound ≠ 0)
    (h : parseSuffixes inner bound e ts = .ok (e', rest)) (he : Flat known e') :
    e' = e ∧ ∀ found ∈ ts.head?, continues found.2 = false := by
  induction bound generalizing e ts with
  | zero => exact absurd rfl hbound
  | succ bound ih =>
      -- A suffix makes an expression that is not flat, and more suffixes do not mend that.
      have hmore : ∀ {e₁ : Expr} {ts₁ : Tokens}, ¬ Flat known e₁ →
          parseSuffixes inner bound e₁ ts₁ ≠ .ok (e', rest) := by
        intro e₁ ts₁ hflat hread
        refine hflat ?_
        rcases bound with _ | bound
        · obtain ⟨rfl, -⟩ := Prod.mk.inj (Except.ok.inj hread)
          exact he
        · obtain ⟨rfl, -⟩ := ih (Nat.succ_ne_zero bound) hread
          exact he
      unfold parseSuffixes at h
      split at h
      · obtain ⟨⟨field, ts⟩, -, h⟩ := exists_of_bind h
        exact absurd h (hmore (by rintro ⟨⟩))
      · obtain ⟨⟨key, ts⟩, -, h⟩ := exists_of_bind h
        obtain ⟨ts, -, h⟩ := exists_of_bind h
        exact absurd h (hmore (by rintro ⟨⟩))
      · split at h
        · obtain ⟨⟨args, ts⟩, -, h⟩ := exists_of_bind h
          exact absurd h (hmore (by rintro ⟨⟩))
        · cases h
      · rename_i hdot hbracket hparen
        obtain ⟨rfl, rfl⟩ := Prod.mk.inj (Except.ok.inj h)
        refine ⟨rfl, fun found hfound => ?_⟩
        obtain ⟨position, token⟩ := found
        rcases ts with _ | ⟨first, ts⟩
        · cases hfound
        obtain rfl : first = (position, token) := Option.some.inj hfound
        show continues token = false
        unfold continues
        split
        · exact (hdot position ts rfl).elim
        · exact (hbracket position ts rfl).elim
        · exact (hparen position ts rfl).elim
        · rfl

/-- The left operand of what is flat is flat, since operators keep their operands as they are. -/
theorem flat_of_climbFrom {bound loosest : Nat}
    (h : climbFrom operand bound loosest e ts = .ok (e', rest)) (he : Flat known e') :
    Flat known e := by
  induction bound generalizing e ts with
  | zero =>
      obtain ⟨rfl, rfl⟩ := Prod.mk.inj (Except.ok.inj h)
      exact he
  | succ bound ih =>
      rcases ts with _ | ⟨⟨position, token⟩, ts⟩
      · obtain ⟨rfl, rfl⟩ := Prod.mk.inj (Except.ok.inj h)
        exact he
      unfold climbFrom at h
      split at h
      · obtain ⟨rfl, rfl⟩ := Prod.mk.inj (Except.ok.inj h)
        exact he
      split at h
      · obtain ⟨rfl, rfl⟩ := Prod.mk.inj (Except.ok.inj h)
        exact he
      · obtain ⟨⟨right, ts⟩, -, h⟩ := exists_of_bind h
        cases ih h with
        | binary _ hleft _ => exact hleft

/-- The first operand of what is flat is flat. -/
theorem exists_operand {bound loosest : Nat}
    (h : climb operand bound loosest ts = .ok (e', rest)) (he : Flat known e') :
    ∃ e more, operand ts = .ok (e, more) ∧ Flat known e := by
  cases bound with
  | zero => exact nomatch h
  | succ bound =>
      obtain ⟨⟨e, more⟩, hread, h⟩ := exists_of_bind h
      exact ⟨e, more, hread, flat_of_climbFrom h he⟩

theorem exists_operand_of_parseChoiceWith (h : parseChoiceWith inner ts = .ok (e, rest))
    (he : Flat known e) :
    ∃ e' more, parseOperand inner ts = .ok (e', more) ∧ Flat known e' := by
  obtain ⟨⟨condition, more⟩, hclimb, h⟩ := exists_of_bind h
  have hcondition : Flat known condition := by
    generalize hquestion : skipSymbol? .question more = after
    simp only [hquestion] at h
    rcases after with _ | after
    · obtain ⟨rfl, -⟩ := Prod.mk.inj (Except.ok.inj h)
      exact he
    · obtain ⟨⟨yes, ts₁⟩, -, h⟩ := exists_of_bind h
      obtain ⟨ts₂, -, h⟩ := exists_of_bind h
      obtain ⟨⟨no, ts₃⟩, -, h⟩ := exists_of_bind h
      obtain ⟨rfl, -⟩ := Prod.mk.inj (Except.ok.inj h)
      cases he with
      | choice hcondition _ _ => exact hcondition
  exact exists_operand hclimb hcondition

/-- The expression that tokens are begins with an operand, flat if the expression is. -/
theorem exists_operand_of_ofTokens (h : ofTokens ts = .ok e) (he : Flat known e) :
    ∃ inner e' rest, parseOperand inner ts = .ok (e', rest) ∧ Flat known e' := by
  unfold ofTokens at h
  split at h
  · exact nomatch h
  obtain ⟨⟨e', rest⟩, hread, h⟩ := exists_of_bind h
  rcases rest with _ | ⟨t, rest⟩
  · obtain rfl := Except.ok.inj h
    obtain ⟨e', more, hoperand, he'⟩ := exists_operand_of_parseChoiceWith hread he
    exact ⟨_, e', more, hoperand, he'⟩
  · exact nomatch h

/-- A name with a suffix begins no flat expression. This tells the calls and the paths apart from
what a pipe hands on to the expressions. -/
theorem not_flat_of_suffix {w : String} (hw : w ≠ "not") {token : Token}
    (htoken : continues token = true) {position next : Nat}
    (h : ofTokens ((position, .name w) :: (next, token) :: ts) = .ok e) : ¬ Flat known e := by
  intro he
  obtain ⟨inner, e', rest, hoperand, he'⟩ := exists_operand_of_ofTokens h he
  have hops : takePrefixOps ((position, .name w) :: (next, token) :: ts) =
      ([], (position, .name w) :: (next, token) :: ts) := by
    rw [takePrefixOps, prefixOp?_name hw]
  rw [parseOperand_eq, hops] at hoperand
  change Except.map _ (parseSuffixes inner (ts.length + 1) (nameExpr w) ((next, token) :: ts)) = _
    at hoperand
  generalize hsuffixes : parseSuffixes inner (ts.length + 1) (nameExpr w) ((next, token) :: ts) =
    found at hoperand
  rcases found with fault | ⟨start, more⟩
  · cases hoperand
  · obtain ⟨rfl, rfl⟩ := Prod.mk.inj (Except.ok.inj hoperand)
    have hstop := (not_continues_of_parseSuffixes (Nat.succ_ne_zero _) hsuffixes he').2 _ rfl
    exact Bool.false_ne_true (hstop.symm.trans htoken)

/-- A single name is an expression. The exception is the word that is read as a prefix operator, and
then wants an operand. -/
theorem ofTokens_name {w : String} (hw : w ≠ "not") (position : Nat) :
    ofTokens [(position, .name w)] = .ok (nameExpr w) := by
  have hoperand : ∀ inner, parseOperand inner [(position, .name w)] = .ok (nameExpr w, []) := by
    intro inner
    rw [parseOperand_eq, takePrefixOps, prefixOp?_name hw]
    rfl
  unfold ofTokens parseChoice parseChoiceWith climb
  rw [hoperand]
  rfl

end Parsing

end Stencil.Expr
