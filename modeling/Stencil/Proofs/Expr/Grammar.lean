import Mathlib.Data.List.Forall2
import Stencil.Proofs.Expr.Print

/-!
# Printed expressions are read back

The parser on the tokens of printed expressions.

## Main definitions

* `ReadsWhole`, `ReadsOperand`, `Suffixed`, `Climbs` — some tokens are read as an expression at a
  level of the grammar, whatever can follow them there
* `ReadsUpTo` — a parser reads back all expressions with no more tokens than some number

## Main results

* `readsUpTo_parseChoice` — parsing with some depth reads back what has as many tokens
* `ofTokens_tokensOf` — the tokens of a printed expression are read as that expression

## Design notes

`Climbs` carries the induction over operators: climbing from the tokens of an expression is climbing
from the expression as the left operand, as long as no operator follows that its last operand would
take first.
-/

namespace Stencil.Expr

/-! ### Tokens of pieces -/

@[simp] theorem tokensOf_nil : tokensOf [] = [] := rfl

@[simp] theorem tokensOf_append (ps qs : List Piece) :
    tokensOf (ps ++ qs) = tokensOf ps ++ tokensOf qs := List.filterMap_append

@[simp] theorem tokensOf_int (i : Int64) (ps : List Piece) :
    tokensOf (.int i :: ps) = (0, .int i) :: tokensOf ps := rfl

@[simp] theorem tokensOf_str (s : String) (ps : List Piece) :
    tokensOf (.str s :: ps) = (0, .str s) :: tokensOf ps := rfl

@[simp] theorem tokensOf_name (s : String) (ps : List Piece) :
    tokensOf (.name s :: ps) = (0, .name s) :: tokensOf ps := rfl

@[simp] theorem tokensOf_symbol (s : Symbol) (ps : List Piece) :
    tokensOf (.symbol s :: ps) = (0, .symbol s) :: tokensOf ps := rfl

@[simp] theorem tokensOf_blank (ps : List Piece) : tokensOf (.blank :: ps) = tokensOf ps := rfl

/-! ### What can follow -/

/-- Whether a token takes the operand before it further. -/
def continues : Token → Bool
  | .symbol .dot | .symbol .openBracket | .symbol .openParen => true
  | _ => false

/-- Nothing at the start takes an operand further, nor an operator that binds tighter than
`loosest`. -/
def Closes (loosest : Nat) (rest : Tokens) : Prop :=
  ∀ found ∈ rest.head?, continues found.2 = false ∧
    ∀ op, binaryOp? found.2 = some op → op.precedence ≤ loosest

/-- The symbols that stand after whole expressions. -/
def closers : List Symbol := [.closeParen, .closeBracket, .closeBrace, .comma, .colon]

/-- What can follow a whole expression. -/
def Ends (rest : Tokens) : Prop := ∀ found ∈ rest.head?, ∃ s ∈ closers, found.2 = .symbol s

/-- What ends the operands of tight operators ends those of looser ones. -/
theorem Closes.mono {n m : Nat} {rest : Tokens} (h : Closes n rest) (hle : n ≤ m) :
    Closes m rest :=
  fun found hf => ⟨(h found hf).1, fun op hop => Nat.le_trans ((h found hf).2 op hop) hle⟩

/-- A token ends operands if it continues none, and if the operator that it may be binds no tighter
than theirs. -/
theorem closes_cons {n position : Nat} {token : Token} {rest : Tokens}
    (h : continues token = false) (hop : ∀ op, binaryOp? token = some op → op.precedence ≤ n) :
    Closes n ((position, token) :: rest) := by
  intro found hf
  obtain rfl : (position, token) = found := Option.some.inj hf
  exact ⟨h, hop⟩

/-- A symbol that closes something ends an expression, whatever stands behind it. -/
theorem ends_cons {s : Symbol} (h : s ∈ closers) (position : Nat) (rest : Tokens) :
    Ends ((position, .symbol s) :: rest) := by
  intro found hf
  obtain rfl : (position, Token.symbol s) = found := Option.some.inj hf
  exact ⟨s, h, rfl⟩

/-- So does the end of the text. -/
theorem ends_nil : Ends [] := fun _ hf => nomatch hf

/-- A closing symbol is no suffix, no operator and no question mark; this is checked for each of
them. -/
theorem continues_of_mem_closers {s : Symbol} (h : s ∈ closers) :
    continues (.symbol s) = false ∧ binaryOp? (.symbol s) = none ∧ s ≠ .question := by
  revert s
  decide

/-- Where an expression ends, operands of every precedence end. -/
theorem Ends.closes {rest : Tokens} (h : Ends rest) (n : Nat) : Closes n rest := by
  intro found hf
  obtain ⟨s, hs, hfound⟩ := h found hf
  obtain ⟨hcontinues, hop, -⟩ := continues_of_mem_closers hs
  rw [hfound]
  exact ⟨hcontinues, fun op h => nomatch hop.symm.trans h⟩

/-- Where an expression ends, it is not continued by a choice. -/
theorem Ends.not_question {rest : Tokens} (h : Ends rest) : skipSymbol? .question rest = none := by
  rcases rest with _ | ⟨⟨position, token⟩, rest⟩
  · rfl
  · obtain ⟨s, hs, hfound⟩ := h (position, token) rfl
    obtain rfl : token = .symbol s := hfound
    exact if_neg (continues_of_mem_closers hs).2.2.symm

/-! ### Levels of the grammar -/

/-- Some tokens are read as an expression in front of all that can follow a whole one. What follows
is arbitrary up to that, so the statement can be used within any surroundings. -/
def ReadsWhole (p : Parser Expr) (ts : Tokens) (e : Expr) : Prop :=
  ∀ rest, Ends rest → p (ts ++ rest) = .ok (e, rest)

/-- Some tokens are read as an operand in front of all that does not take it further, which a suffix
would do. -/
def ReadsOperand (operand : Parser Expr) (ts : Tokens) (e : Expr) : Prop :=
  ∀ rest, Closes 8 rest → operand (ts ++ rest) = .ok (e, rest)

/-- Some tokens are read as an expression made of a start and so many suffixes. The suffixes are
counted, since the loop that reads them spends one of its bound on each. -/
def Suffixed (inner : Parser Expr) (ts : Tokens) (e : Expr) : Prop :=
  (∀ rest, takePrefixOps (ts ++ rest) = ([], ts ++ rest)) ∧
    ∃ count start more, count ≤ more.length ∧
      (∀ rest, parsePrimary inner (ts ++ rest) = .ok (start, more ++ rest)) ∧
      ∀ bound rest, parseSuffixes inner (bound + count) start (more ++ rest) =
        parseSuffixes inner bound e rest

/-- Climbing from some tokens is climbing from an expression as the left operand, in front of all
that holds no operator tighter than `tail`. -/
def Climbs (operand : Parser Expr) (loosest tail : Nat) (ts : Tokens) (e : Expr) : Prop :=
  ∃ count ≤ ts.length, ∀ bound rest, ts.length ≤ bound + count → Closes tail rest →
    climb operand (bound + count) loosest (ts ++ rest) = climbFrom operand bound loosest e rest

section Levels

variable {inner operand : Parser Expr} {ts : Tokens} {e : Expr}

/-- No suffix is read where operands end, so the operand stays as it is and all tokens are left. -/
theorem parseSuffixes_of_closes {n : Nat} {rest : Tokens} (h : Closes n rest) (bound : Nat) :
    parseSuffixes inner bound e rest = .ok (e, rest) := by
  rcases bound with _ | bound
  · rfl
  · rcases rest with _ | ⟨⟨position, token⟩, rest⟩
    · rfl
    · have hstop : continues token = false := (h (position, token) rfl).1
      cases token with
      | symbol s => cases s <;> first | rfl | exact nomatch hstop
      | _ => rfl

/-- An operand is read in three steps that do not know of each other: its prefix operators, what
they are applied to, and the suffixes of this.  The proofs below treat each step by itself. -/
theorem parseOperand_eq (inner : Parser Expr) (ts : Tokens) :
    parseOperand inner ts = (parsePrimary inner (takePrefixOps ts).2).bind fun start =>
      (parseSuffixes inner start.2.length start.1 start.2).map fun found =>
        ((takePrefixOps ts).1.foldr .unary found.1, found.2) := by
  unfold parseOperand
  generalize takePrefixOps ts = found
  obtain ⟨ops, after⟩ := found
  rcases hprimary : parsePrimary inner after with _ | ⟨start, more⟩
  · simp [hprimary, bind, Except.bind]
  · rcases hsuffixes : parseSuffixes inner more.length start more with _ | ⟨e, rest⟩ <;>
      simp [hprimary, hsuffixes, bind, Except.bind, Except.map]

/-- A primary expression with suffixes is an operand, since no prefix operator stands in front of
it. -/
theorem Suffixed.readsOperand (h : Suffixed inner ts e) :
    ReadsOperand (parseOperand inner) ts e := by
  obtain ⟨hops, count, start, more, hcount, hprimary, hsuffixes⟩ := h
  intro rest hrest
  have hlength : (more ++ rest).length = (more ++ rest).length - count + count := by
    rw [List.length_append]
    omega
  have hread : parseSuffixes inner (more ++ rest).length start (more ++ rest) = .ok (e, rest) := by
    rw [hlength, hsuffixes, parseSuffixes_of_closes hrest]
  rw [parseOperand_eq, hops, hprimary]
  show Except.map _ (parseSuffixes inner (more ++ rest).length start (more ++ rest)) = _
  rw [hread]
  rfl

/-- A prefix operator in front of an operand makes an operand. The operators are taken off all at
once, so one more is put in front of those that are there. -/
theorem ReadsOperand.unary {op : UnaryOp} {token : Token}
    (h : ReadsOperand (parseOperand inner) ts e) (htoken : prefixOp? token = some (some op))
    (position : Nat) :
    ReadsOperand (parseOperand inner) ((position, token) :: ts) (.unary op e) := by
  intro rest hrest
  have hread := h rest hrest
  have htake : takePrefixOps ((position, token) :: (ts ++ rest)) =
      (op :: (takePrefixOps (ts ++ rest)).1, (takePrefixOps (ts ++ rest)).2) := by
    rw [takePrefixOps, htoken]
    rfl
  rw [parseOperand_eq] at hread
  rw [List.cons_append, parseOperand_eq, htake]
  -- The operand is the same; its prefix operators are one more.
  generalize parsePrimary inner (takePrefixOps (ts ++ rest)).2 = primary at hread ⊢
  rcases primary with _ | ⟨start, more⟩
  · exact nomatch hread
  · change Except.map _ (parseSuffixes inner more.length start more) = _ at hread
    show Except.map _ (parseSuffixes inner more.length start more) = _
    generalize parseSuffixes inner more.length start more = found at hread ⊢
    rcases found with _ | ⟨e', after⟩
    · exact nomatch hread
    · obtain ⟨he, hafter⟩ := Prod.mk.inj (Except.ok.inj hread)
      rw [← he, ← hafter]
      rfl

/-- An operand alone is an expression for every precedence.  It binds as tightly as it can, so
whatever closes the loosest operand closes this one. -/
theorem ReadsOperand.climbs (h : ReadsOperand operand ts e) (hne : ts ≠ []) {tail : Nat}
    (htail : tail ≤ 8) (loosest : Nat) : Climbs operand loosest tail ts e := by
  refine ⟨1, List.length_pos_iff.2 hne, fun bound rest _ hrest => ?_⟩
  show (operand (ts ++ rest) >>= _) = _
  rw [h rest (hrest.mono htail)]
  rfl

/-- The limit that an operator sets for its right operand. -/
def limitAfter (op : BinaryOp) : Nat :=
  if op.isRightAssociative then op.precedence - 1 else op.precedence

/-- An operator between two operands: it is met with the left one done, and it is done when the
right one is. -/
theorem Climbs.binary {op : BinaryOp} {loosest leftTail rightTail position : Nat} {token : Token}
    {left right : Tokens} {a b : Expr} (ha : Climbs operand loosest leftTail left a)
    (hb : Climbs operand (limitAfter op) rightTail right b) (htoken : binaryOp? token = some op)
    (hcontinues : continues token = false) (hloosest : loosest < op.precedence)
    (hleft : op.precedence ≤ leftTail) (hright : limitAfter op ≤ rightTail) :
    Climbs operand loosest (limitAfter op) (left ++ (position, token) :: right)
      (.binary op a b) := by
  obtain ⟨countA, hcountA, hclimbA⟩ := ha
  obtain ⟨countB, hcountB, hclimbB⟩ := hb
  refine ⟨countA + 1, ?_, fun bound rest hbound hrest => ?_⟩
  · simp only [List.length_append, List.length_cons]
    omega
  · simp only [List.length_append, List.length_cons] at hbound
    have hmet : Closes leftTail ((position, token) :: (right ++ rest)) := by
      refine closes_cons hcontinues fun op' hop' => ?_
      obtain rfl : op = op' := Option.some.inj (htoken.symm.trans hop')
      exact hleft
    have hsplit : bound + (countA + 1) = bound + 1 + countA := by omega
    have hdone : climb operand bound (limitAfter op) (right ++ rest) = .ok (b, rest) := by
      have hreach : bound = bound - countB + countB := by omega
      rw [hreach, hclimbB (bound - countB) rest (by omega) (hrest.mono hright)]
      -- Whatever bound is left, climbing stops in front of `rest`.
      rcases bound - countB with _ | bound'
      · rfl
      · rcases rest with _ | ⟨⟨position', token'⟩, rest⟩
        · rfl
        · have hstop := (hrest (position', token') rfl).2
          unfold climbFrom
          cases hop' : binaryOp? token' with
          | none => rfl
          | some op' => exact if_pos (hstop op' hop')
    rw [List.append_assoc, List.cons_append, hsplit, hclimbA (bound + 1) _ (by omega) hmet,
      climbFrom, htoken]
    show (if op.precedence ≤ loosest then _ else climb operand bound (limitAfter op) _ >>= _) = _
    rw [if_neg (by omega), hdone]
    rfl

/-- Joined operands are a whole expression, since what can follow a whole one is no question mark.
-/
theorem Climbs.readsWhole {tail : Nat} (h : Climbs (parseOperand inner) 0 tail ts e) :
    ReadsWhole (parseChoiceWith inner) ts e := by
  obtain ⟨count, hcount, hclimb⟩ := h
  intro rest hrest
  have hbound : 2 * (ts ++ rest).length + 2 = 2 * (ts ++ rest).length + 2 - count + count := by
    rw [List.length_append]
    omega
  unfold parseChoiceWith
  rw [hbound, hclimb _ rest (by rw [List.length_append]; omega) (hrest.closes tail)]
  have hstop : ∀ bound, climbFrom (parseOperand inner) bound 0 e rest = .ok (e, rest) := by
    intro bound
    rcases bound with _ | bound
    · rfl
    · rcases rest with _ | ⟨⟨position, token⟩, rest⟩
      · rfl
      · obtain ⟨s, hs, hfound⟩ := hrest (position, token) rfl
        obtain rfl : token = .symbol s := hfound
        rw [climbFrom, (continues_of_mem_closers hs).2.1]
  rw [hstop]
  simp only [bind, Except.bind, hrest.not_question]

/-- A choice is a whole expression if its condition is made of joined operands. Both branches may be
whole expressions, as the marks around them cannot be mistaken. -/
theorem readsWhole_choice {tail question colon : Nat} {first second third : Tokens}
    {condition yes no : Expr} (hcondition : Climbs (parseOperand inner) 0 tail first condition)
    (hyes : ReadsWhole inner second yes) (hno : ReadsWhole inner third no) :
    ReadsWhole (parseChoiceWith inner)
      (first ++ (question, .symbol .question) :: (second ++ (colon, .symbol .colon) :: third))
      (.choice condition yes no) := by
  obtain ⟨count, hcount, hclimb⟩ := hcondition
  intro rest hrest
  have hcolon : Ends ((colon, .symbol .colon) :: (third ++ rest)) := ends_cons (by decide) _ _
  have hquestion : ∀ rest, Closes tail ((question, .symbol .question) :: rest) := fun rest =>
    closes_cons rfl fun op hop =>
      nomatch (show binaryOp? (.symbol .question) = none by decide).symm.trans hop
  simp only [List.append_assoc, List.cons_append]
  generalize hafter : second ++ (colon, .symbol .colon) :: (third ++ rest) = after
  have hbound : 2 * (first ++ (question, .symbol .question) :: after).length + 2 =
      2 * (first ++ (question, .symbol .question) :: after).length + 2 - count - 1 + 1 + count := by
    rw [List.length_append]
    omega
  unfold parseChoiceWith
  rw [hbound, hclimb _ _ (by rw [List.length_append]; omega) (hquestion after)]
  show (inner after >>= _) = _
  rw [← hafter, hyes _ hcolon]
  show (inner (third ++ rest) >>= _) = _
  rw [hno rest hrest]
  rfl

/-- What stands between parentheses is read by the parser inside. -/
theorem suffixed_parenthesized {opening closing : Nat} (h : ReadsWhole inner ts e) :
    Suffixed inner ((opening, .symbol .openParen) :: (ts ++ [(closing, .symbol .closeParen)]))
      e := by
  refine ⟨fun rest => rfl, 0, e, [], Nat.le_refl 0, fun rest => ?_, fun bound rest => rfl⟩
  rw [List.cons_append, List.append_assoc]
  show (inner (ts ++ (closing, .symbol .closeParen) :: rest) >>= _) = _
  rw [h _ (ends_cons (by decide) _ _)]
  rfl

/-- A point and a token that is read as the name of a member. -/
theorem Suffixed.memberToken {field : String} {point place : Nat} {token : Token}
    (h : Suffixed inner ts e)
    (htoken : ∀ rest, parseMemberName ((place, token) :: rest) = .ok (field, rest)) :
    Suffixed inner (ts ++ [(point, .symbol .dot), (place, token)]) (.member e field) := by
  obtain ⟨hops, count, start, more, hcount, hprimary, hsuffixes⟩ := h
  refine ⟨fun rest => ?_, count + 1, start,
    more ++ [(point, .symbol .dot), (place, token)], ?_, fun rest => ?_, fun bound rest => ?_⟩
  · rw [List.append_assoc, hops]
  · simp only [List.length_append, List.length_cons, List.length_nil]
    omega
  · rw [List.append_assoc, hprimary, List.append_assoc]
  · have hsplit : bound + (count + 1) = bound + 1 + count := by omega
    rw [List.append_assoc, hsplit, hsuffixes]
    show (parseMemberName ((place, token) :: rest) >>= _) = _
    rw [htoken]
    rfl

/-- A point and a name behind an operand take one of its members. -/
theorem Suffixed.member {field : String} {point place : Nat} (h : Suffixed inner ts e) :
    Suffixed inner (ts ++ [(point, .symbol .dot), (place, .name field)]) (.member e field) :=
  h.memberToken fun _ => rfl

/-- A key in brackets behind an operand takes one of its items; between the brackets the reader
starts over with the loosest precedence. -/
theorem Suffixed.index {key : Expr} {inside : Tokens} {opening closing : Nat}
    (h : Suffixed inner ts e) (hkey : ReadsWhole inner inside key) :
    Suffixed inner
      (ts ++ (opening, .symbol .openBracket) :: (inside ++ [(closing, .symbol .closeBracket)]))
      (.index e key) := by
  obtain ⟨hops, count, start, more, hcount, hprimary, hsuffixes⟩ := h
  refine ⟨fun rest => ?_, count + 1, start,
    more ++ (opening, .symbol .openBracket) :: (inside ++ [(closing, .symbol .closeBracket)]), ?_,
    fun rest => ?_, fun bound rest => ?_⟩
  · rw [List.append_assoc, hops]
  · simp only [List.length_append, List.length_cons]
    omega
  · rw [List.append_assoc, hprimary, List.append_assoc]
  · have hsplit : bound + (count + 1) = bound + 1 + count := by omega
    rw [List.append_assoc, hsplit, hsuffixes, List.cons_append, List.append_assoc]
    show (inner (inside ++ (closing, .symbol .closeBracket) :: rest) >>= _) = _
    rw [hkey _ (ends_cons (by decide) _ _)]
    rfl

end Levels

/-! ### Lists -/

section Lists

variable {α : Type} {item : Parser α} {close : Symbol}

/-- Some tokens are read as an item in front of a comma or the closing symbol. -/
def ReadsItem (item : Parser α) (close : Symbol) (ts : Tokens) (a : α) : Prop :=
  skipSymbol? close ts = none ∧ ts ≠ [] ∧
    ∀ s ∈ [.comma, close], ∀ rest,
      item (ts ++ (0, .symbol s) :: rest) = .ok (a, (0, .symbol s) :: rest)

/-- Whether a symbol comes first depends on the first token alone. -/
theorem skipSymbol?_append {ts : Tokens} (h : skipSymbol? close ts = none) (hne : ts ≠ [])
    (rest : Tokens) : skipSymbol? close (ts ++ rest) = none := by
  rcases ts with _ | ⟨⟨position, token⟩, ts⟩
  · exact absurd rfl hne
  · cases token with
    | symbol s =>
        by_cases hs : close = s
        · exact nomatch (if_pos hs).symm.trans h
        · exact if_neg hs
    | _ => rfl

/-- There are no more items than tokens, so a bound on the tokens bounds the items. -/
theorem length_le_tokensOf_separated {spelled : List (List Piece)} {as : List α}
    (h : List.Forall₂ (fun ps a => ReadsItem item close (tokensOf ps) a) spelled as) :
    as.length ≤ (tokensOf (separated spelled)).length := by
  induction h with
  | nil => exact Nat.zero_le _
  | @cons ps a spelled as hitem hrest ih =>
      have hpos : 0 < (tokensOf ps).length := List.length_pos_iff.2 hitem.2.1
      cases hrest with
      | nil => exact hpos
      | cons _ _ =>
          simp only [separated_cons_cons, tokensOf_append, tokensOf_symbol, tokensOf_blank,
            tokensOf_nil,
            List.length_append, List.length_cons, List.length_nil] at ih ⊢
          omega

/-- Items with commas between them are read one by one up to the closing symbol.  The induction is
on the items, and the bound of the reader goes down with them. -/
theorem parseItems_separated (hclose : close ≠ .comma) {spelled : List (List Piece)} {as : List α}
    (h : List.Forall₂ (fun ps a => ReadsItem item close (tokensOf ps) a) spelled as)
    (hne : as ≠ []) :
    ∀ bound rest, as.length ≤ bound →
      parseItems item close bound (tokensOf (separated spelled) ++ (0, .symbol close) :: rest) =
        .ok (as, rest) := by
  induction h with
  | nil => exact absurd rfl hne
  | @cons ps a spelled as hitem hrest ih =>
      intro bound rest hbound
      obtain ⟨bound, rfl⟩ : ∃ n, bound = n + 1 := ⟨bound - 1, by simp at hbound; omega⟩
      cases hrest with
      | nil =>
          have hlast : skipSymbol? close ((0, .symbol close) :: rest) = some rest := if_pos rfl
          rw [separated, parseItems, hitem.2.2 close (by simp)]
          simp only [bind, Except.bind, hlast]
      | @cons ps' a' spelled as hitem' hrest =>
          have hothers := ih (by simp) bound rest (by simpa using hbound)
          generalize hafter : tokensOf (separated (ps' :: spelled)) ++ (0, .symbol close) :: rest =
            after at hothers
          have htokens : tokensOf (separated (ps :: ps' :: spelled)) ++ (0, .symbol close) :: rest =
              tokensOf ps ++ (0, .symbol .comma) :: after := by
            simp [separated_cons_cons, ← hafter]
          have hmore : skipSymbol? close ((0, .symbol .comma) :: after) = none := if_neg hclose
          have hcomma : expect .comma ((0, .symbol .comma) :: after) = .ok after := rfl
          rw [htokens, parseItems, hitem.2.2 .comma (by simp)]
          simp only [bind, Except.bind, hmore, hcomma, hothers]

/-- Items between commas are read one after the other up to the closing symbol. The symbol is not a
comma, so where the list ends is never in doubt. -/
theorem parseList_separated (hclose : close ≠ .comma) {spelled : List (List Piece)} {as : List α}
    (h : List.Forall₂ (fun ps a => ReadsItem item close (tokensOf ps) a) spelled as)
    (rest : Tokens) :
    parseList item close (tokensOf (separated spelled) ++ (0, .symbol close) :: rest) =
      .ok (as, rest) := by
  have hlength := length_le_tokensOf_separated h
  unfold parseList
  cases h with
  | nil =>
      have hlast : skipSymbol? close ((0, .symbol close) :: rest) = some rest := if_pos rfl
      rw [separated, tokensOf_nil, List.nil_append, hlast]
  | @cons ps a spelled as hitem hrest =>
      have hstart : skipSymbol? close
          (tokensOf (separated (ps :: spelled)) ++ (0, .symbol close) :: rest) = none := by
        cases hrest with
        | nil => exact skipSymbol?_append hitem.1 hitem.2.1 _
        | cons _ _ =>
            rw [separated_cons_cons, tokensOf_append, tokensOf_append, List.append_assoc,
              List.append_assoc]
            exact skipSymbol?_append hitem.1 hitem.2.1 _
      rw [hstart]
      refine parseItems_separated hclose (.cons hitem hrest) (by simp) _ _ ?_
      rw [List.length_append]
      omega

end Lists

/-! ### Printed expressions -/

section Expressions

variable {style : Style} {inner : Parser Expr} {n : Nat} {e : Expr} {least : Nat}

/-- A parser reads back every expression, in any place, that is no longer than a number of tokens.
-/
def ReadsUpTo (style : Style) (n : Nat) (p : Parser Expr) : Prop :=
  ∀ e least, Printable e → (tokensOf (within style least e)).length ≤ n →
    ReadsWhole p (tokensOf (within style least e)) e

/-- An expression that is looser than its place demands is put in parentheses. -/
theorem within_of_lt (h : level style e < least) :
    within style least e = parenthesized (pieces style e) := if_pos h

/-- One that is as tight as its place demands is not. -/
theorem within_of_le (h : least ≤ level style e) : within style least e = pieces style e :=
  if_neg (Nat.not_lt.2 h)

/-- Parentheses add one token on either side. -/
theorem tokensOf_parenthesized (ps : List Piece) :
    tokensOf (parenthesized ps) =
      (0, .symbol .openParen) :: (tokensOf ps ++ [(0, .symbol .closeParen)]) := by
  simp [parenthesized]

theorem length_tokensOf_parenthesized (ps : List Piece) :
    (tokensOf (parenthesized ps)).length = (tokensOf ps).length + 2 := by
  simp [tokensOf_parenthesized]

/-- Pieces in a place are no fewer tokens. -/
theorem length_tokensOf_le_within (style : Style) (least : Nat) (e : Expr) :
    (tokensOf (pieces style e)).length ≤ (tokensOf (within style least e)).length := by
  rcases Nat.lt_or_ge (level style e) least with h | h
  · rw [within_of_lt h, length_tokensOf_parenthesized]
    omega
  · exact Nat.le_of_eq (congrArg (fun ps => (tokensOf ps).length) (within_of_le h).symm)

/-- What begins with a token has tokens. -/
theorem tokensOf_ne_nil {ps : List Piece} (h : Begins ps) : tokensOf ps ≠ [] := by
  obtain ⟨p, rest, rfl, hp⟩ := h
  cases p with
  | blank => exact hp.elim
  | _ => exact List.cons_ne_nil _ _

/-- The first token of an expression is never a closing symbol, so a list that has items is told
from an empty one. -/
theorem skipSymbol?_tokensOf {ps : List Piece} (h : Begins ps) {close : Symbol}
    (hclose : close ∈ closers) : skipSymbol? close (tokensOf ps) = none := by
  obtain ⟨p, rest, rfl, hp⟩ := h
  cases p with
  | blank => exact hp.elim
  | symbol s =>
      have hopening : s ∈ [.dot, .openParen, .openBracket, .openBrace, .bang, .minus] := hp
      have hne : close ≠ s := by
        clear hp
        revert close s
        decide
      exact if_neg hne
  | _ => rfl

/-- A printed expression begins with a token that can begin an operand, with parentheses or without.
-/
theorem begins_within (he : Printable e) (style : Style) (least : Nat) :
    Begins (within style least e) := (begins_pieces style he).placed _ _

/-- What is read as a whole is read between parentheses. -/
theorem suffixed_within (hinner : ReadsUpTo style n inner) (he : Printable e)
    (hlength : (tokensOf (within style least e)).length ≤ n + 1)
    (hbare : least ≤ level style e → Suffixed inner (tokensOf (pieces style e)) e) :
    Suffixed inner (tokensOf (within style least e)) e := by
  rcases Nat.lt_or_ge (level style e) least with h | h
  · rw [within_of_lt h, length_tokensOf_parenthesized] at hlength
    rw [within_of_lt h, tokensOf_parenthesized]
    refine suffixed_parenthesized ?_
    have hread := hinner e 0 he
    rw [within_of_le (Nat.zero_le _)] at hread
    exact hread (by omega)
  · rw [within_of_le h]
    exact hbare h

/-- A token that is an operand by itself. -/
theorem suffixed_token {token : Token} (hsign : prefixOp? token = none)
    (hprimary : ∀ rest, parsePrimary inner ((0, token) :: rest) = .ok (e, rest)) :
    Suffixed inner [(0, token)] e := by
  refine ⟨fun rest => ?_, 0, e, [], Nat.le_refl 0, hprimary, fun bound rest => rfl⟩
  rw [List.cons_append, takePrefixOps, hsign]

/-- A name other than `not` is no prefix operator. -/
theorem prefixOp?_name {s : String} (h : s ≠ "not") : prefixOp? (.name s) = none := by
  simp [prefixOp?, h]

/-- A free name is read as a variable, as it is none of the words for literals. -/
theorem nameExpr_of_isFreeName {s : String} (h : IsFreeName s) : nameExpr s = .name s := by
  have hwords := h.2
  simp only [reservedWords, List.mem_cons, not_or] at hwords
  simp [nameExpr, hwords.1, hwords.2.1, hwords.2.2.1, hwords.2.2.2.1]

/-- The word operator is reserved, so no free name is spelled like it. -/
theorem IsFreeName.ne_not {s : String} (h : IsFreeName s) : s ≠ "not" := by
  have hwords := h.2
  simp only [reservedWords, List.mem_cons, not_or] at hwords
  exact hwords.2.2.2.2.1

/-- An item is read up to a comma or the end of the list. -/
theorem readsItem_within (hinner : ReadsUpTo style n inner) (he : Printable e)
    (hlength : (tokensOf (within style 1 e)).length ≤ n) {close : Symbol}
    (hclose : close ∈ closers) : ReadsItem inner close (tokensOf (within style 1 e)) e := by
  refine ⟨skipSymbol?_tokensOf (begins_within he style 1) hclose,
    tokensOf_ne_nil (begins_within he style 1), fun s hs rest => ?_⟩
  refine hinner e 1 he hlength _ (ends_cons ?_ 0 rest)
  rcases List.mem_cons.1 hs with rfl | hs
  · decide
  · exact List.mem_singleton.1 hs ▸ hclose

/-- An item has no more tokens than the list that it is in; this is what the bound of the induction
goes down by. -/
theorem length_tokensOf_le_separated {ps : List Piece} {spelled : List (List Piece)}
    (h : ps ∈ spelled) : (tokensOf ps).length ≤ (tokensOf (separated spelled)).length := by
  induction spelled with
  | nil => exact nomatch h
  | cons qs spelled ih =>
      rcases spelled with _ | ⟨qs', spelled⟩
      · exact List.mem_singleton.1 h ▸ Nat.le_refl _
      · rw [separated_cons_cons]
        simp only [tokensOf_append, List.length_append]
        rcases List.mem_cons.1 h with rfl | h
        · omega
        · have := ih h
          omega

/-- The items of an array are printed in places for the loosest precedence. -/
theorem itemPieces_eq_map (style : Style) (items : List Expr) :
    itemPieces style items = items.map (within style 1) := by
  induction items with
  | nil => rfl
  | cons e items ih => exact congrArg (within style 1 e :: ·) ih

/-- The pieces of an entry of a mapping. -/
def entryPiecesOf (style : Style) (entry : String × Expr) : List Piece :=
  [.str entry.1, .symbol .colon, .blank] ++ within style 1 entry.2

/-- The entries of a mapping are printed one by one. -/
theorem entryPieces_eq_map (style : Style) (entries : List (String × Expr)) :
    entryPieces style entries = entries.map (entryPiecesOf style) := by
  induction entries with
  | nil => rfl
  | cons entry entries ih => exact congrArg (entryPiecesOf style entry :: ·) ih

/-- Printed items are read back, if every item of at most so many tokens is. -/
theorem parseList_itemPieces (hinner : ReadsUpTo style n inner) {items : List Expr}
    (hitems : ∀ e ∈ items, Printable e) {close : Symbol} (hclose : close ∈ closers)
    (hcomma : close ≠ .comma)
    (hlength : (tokensOf (separated (itemPieces style items))).length ≤ n) (rest : Tokens) :
    parseList inner close
        (tokensOf (separated (itemPieces style items)) ++ (0, .symbol close) :: rest) =
      .ok (items, rest) := by
  refine parseList_separated hcomma ?_ rest
  rw [itemPieces_eq_map] at hlength ⊢
  rw [List.forall₂_map_left_iff, List.forall₂_same]
  intro e he
  have hle := length_tokensOf_le_separated (List.mem_map_of_mem (f := within style 1) he)
  exact readsItem_within hinner (hitems e he) (Nat.le_trans hle hlength) hclose

/-- So are printed entries of a mapping. -/
theorem parseList_entryPieces (hinner : ReadsUpTo style n inner)
    {entries : List (String × Expr)} (hentries : ∀ entry ∈ entries, Printable entry.2)
    (hlength : (tokensOf (separated (entryPieces style entries))).length ≤ n) (rest : Tokens) :
    parseList (parseEntry inner) .closeBrace
        (tokensOf (separated (entryPieces style entries)) ++ (0, .symbol .closeBrace) :: rest) =
      .ok (entries, rest) := by
  refine parseList_separated (by decide) ?_ rest
  rw [entryPieces_eq_map] at hlength ⊢
  rw [List.forall₂_map_left_iff, List.forall₂_same]
  intro entry hentry
  have hle := length_tokensOf_le_separated (List.mem_map_of_mem (f := entryPiecesOf style) hentry)
  have htokens : tokensOf (entryPiecesOf style entry) =
      (0, .str entry.1) :: (0, .symbol .colon) :: tokensOf (within style 1 entry.2) := rfl
  rw [htokens, List.length_cons, List.length_cons] at hle
  have hvalue : ReadsItem inner .closeBrace (tokensOf (within style 1 entry.2)) entry.2 :=
    readsItem_within hinner (hentries entry hentry) (by omega) (by decide)
  rw [htokens]
  refine ⟨rfl, List.cons_ne_nil _ _, fun s hs rest => ?_⟩
  show (inner (tokensOf (within style 1 entry.2) ++ (0, .symbol s) :: rest) >>= _) = _
  rw [hvalue.2.2 s hs rest]
  rfl

/-- Names, literals, members, indices and calls are read as such. The induction is on the
expression: a suffix adds to the start and the suffixes of its base. -/
theorem suffixed_pieces (hinner : ReadsUpTo style n inner) (he : Printable e)
    (hlevel : 11 ≤ level style e) (hlength : (tokensOf (pieces style e)).length ≤ n + 1) :
    Suffixed inner (tokensOf (pieces style e)) e := by
  induction he with
  | nil => exact suffixed_token rfl fun rest => rfl
  | bool b => cases b <;> exact suffixed_token rfl fun rest => rfl
  | int _ => exact suffixed_token rfl fun rest => rfl
  | str s => exact suffixed_token rfl fun rest => rfl
  | name hs =>
      refine suffixed_token (prefixOp?_name hs.ne_not) fun rest => ?_
      rw [parsePrimary, nameExpr_of_isFreeName hs]
  -- The current value, the operators and the choice bind less than a suffix does, so they do not
  -- stand at this level.
  | current => exact absurd hlevel (by simp [level])
  -- In front of a suffix the base is printed within parentheses if it binds less than a suffix.
  | @member base field hbase _ ih =>
      have htokens : tokensOf (pieces style (.member base field)) =
          tokensOf (within style 12 base) ++ [(0, .symbol .dot), (0, .name field)] := by
        simp [pieces, within]
      rw [htokens, List.length_append] at hlength
      rw [htokens]
      have hbare := length_tokensOf_le_within style 12 base
      refine Suffixed.member (suffixed_within hinner hbase (by omega) fun hle => ?_)
      exact ih (by omega) (by omega)
  | @index base key hbase hkey ihbase _ =>
      have htokens : tokensOf (pieces style (.index base key)) =
          tokensOf (within style 12 base) ++ (0, .symbol .openBracket) ::
            (tokensOf (within style 1 key) ++ [(0, .symbol .closeBracket)]) := by
        simp [pieces, within]
      rw [htokens] at hlength ⊢
      simp only [List.length_append, List.length_cons, List.length_nil] at hlength
      have hbare := length_tokensOf_le_within style 12 base
      refine Suffixed.index (suffixed_within hinner hbase (by omega) fun hle => ?_) ?_
      · exact ihbase (by omega) (by omega)
      · exact hinner key 1 hkey (by omega)
  -- A call is a name with its first suffix, the only one that is told apart from the base.
  | @call f args hf hargs _ =>
      have htokens : tokensOf (pieces style (.call f args)) =
          (0, .name f) :: (0, .symbol .openParen) ::
            (tokensOf (separated (itemPieces style args)) ++ [(0, .symbol .closeParen)]) := by
        simp [pieces]
      rw [htokens] at hlength ⊢
      simp only [List.length_append, List.length_cons, List.length_nil] at hlength
      refine ⟨fun rest => ?_, 1, .name f, (0, .symbol .openParen) ::
        (tokensOf (separated (itemPieces style args)) ++ [(0, .symbol .closeParen)]), ?_,
        fun rest => ?_, fun bound rest => ?_⟩
      · rw [List.cons_append, takePrefixOps, prefixOp?_name hf.ne_not]
      · exact Nat.succ_le_succ (Nat.zero_le _)
      · rw [List.cons_append, parsePrimary, nameExpr_of_isFreeName hf]
      · rw [List.cons_append, List.append_assoc, parseSuffixes]
        show (parseList inner .closeParen (_ ++ (0, .symbol .closeParen) :: rest) >>= _) = _
        rw [parseList_itemPieces hinner hargs (by decide) (by decide) (by omega)]
        rfl
  | unary op _ _ => exact absurd hlevel (by simp [level])
  | binary op _ _ _ _ =>
      have hle := precedence_le op
      simp only [level] at hlevel
      omega
  | choice _ _ _ _ _ _ => exact absurd hlevel (by simp [level])
  -- The brackets take one level of the depth, and at least one token each.
  | @array items hitems _ =>
      have htokens : tokensOf (pieces style (.array items)) =
          (0, .symbol .openBracket) ::
            (tokensOf (separated (itemPieces style items)) ++ [(0, .symbol .closeBracket)]) := by
        simp [pieces]
      rw [htokens] at hlength ⊢
      simp only [List.length_append, List.length_cons, List.length_nil] at hlength
      refine ⟨fun rest => rfl, 0, .array items, [], Nat.le_refl 0, fun rest => ?_, fun _ _ => rfl⟩
      rw [List.cons_append, List.append_assoc]
      show (parseList inner .closeBracket (_ ++ (0, .symbol .closeBracket) :: rest) >>= _) = _
      rw [parseList_itemPieces hinner hitems (by decide) (by decide) (by omega)]
      rfl
  | @mapping entries hentries _ =>
      have htokens : tokensOf (pieces style (.mapping entries)) =
          (0, .symbol .openBrace) ::
            (tokensOf (separated (entryPieces style entries)) ++ [(0, .symbol .closeBrace)]) := by
        simp [pieces]
      rw [htokens] at hlength ⊢
      simp only [List.length_append, List.length_cons, List.length_nil] at hlength
      refine ⟨fun rest => rfl, 0, .mapping entries, [], Nat.le_refl 0, fun rest => ?_,
        fun _ _ => rfl⟩
      rw [List.cons_append, List.append_assoc]
      show (parseList (parseEntry inner) .closeBrace (_ ++ (0, .symbol .closeBrace) :: rest) >>= _)
          =
        _
      rw [parseList_entryPieces hinner hentries (by omega)]
      rfl

/-- What binds at least as tightly as a prefix operator is an operand. Either it is a prefix
operator, or it binds more tightly and is read by its suffixes. -/
theorem readsOperand_pieces (hinner : ReadsUpTo style n inner) (he : Printable e)
    (hlevel : 10 ≤ level style e) (hlength : (tokensOf (pieces style e)).length ≤ n + 1) :
    ReadsOperand (parseOperand inner) (tokensOf (pieces style e)) e := by
  rcases Nat.lt_or_ge 10 (level style e) with htight | hloose
  · exact (suffixed_pieces hinner he htight hlength).readsOperand
  · induction he with
    | @unary op e he ih =>
        have htokens : tokensOf (pieces style (.unary op e)) =
            (0, .symbol (prefixSymbol op)) :: tokensOf (within style 10 e) := by
          simp [pieces, within]
        have hsign : prefixOp? (.symbol (prefixSymbol op)) = some (some op) := by
          cases op <;> rfl
        rw [htokens, List.length_cons] at hlength
        rw [htokens]
        refine ReadsOperand.unary ?_ hsign 0
        rcases Nat.lt_or_ge (level style e) 10 with h | h
        · exact (suffixed_within hinner he (by omega) fun hle => absurd hle (by omega)).readsOperand
        · have hbare := length_tokensOf_le_within style 10 e
          rw [within_of_le h]
          rcases Nat.lt_or_ge 10 (level style e) with htight | hloose
          · exact (suffixed_pieces hinner he htight (by omega)).readsOperand
          · exact ih h (by omega) hloose
    | _ =>
        obtain ⟨op, e, he⟩ := exists_unary_of_level (Nat.le_antisymm hloose hlevel)
        cases he

/-- The loosest operator that can follow an expression without being taken into it. -/
def tailOf : Expr → Nat
  | .binary op _ _ => limitAfter op
  | _ => 8

/-- In a place for joined operands an expression is climbed from, if it is climbed from without
parentheses where it has none. -/
theorem climbs_within (hinner : ReadsUpTo style n inner) (he : Printable e)
    (hlength : (tokensOf (within style least e)).length ≤ n + 1) {loosest tail : Nat}
    (htail : tail ≤ 8) (hbare : least ≤ level style e →
      Climbs (parseOperand inner) loosest tail (tokensOf (pieces style e)) e) :
    Climbs (parseOperand inner) loosest tail (tokensOf (within style least e)) e := by
  rcases Nat.lt_or_ge (level style e) least with h | h
  · have hoperand :=
      (suffixed_within hinner he hlength fun hle => absurd hle (by omega)).readsOperand
    exact hoperand.climbs (tokensOf_ne_nil (begins_within he style least)) htail loosest
  · rw [within_of_le h]
    exact hbare h

/-- A tail that ends looser operands also ends tighter ones. -/
theorem Climbs.mono {operand : Parser Expr} {loosest tail tail' : Nat} {ts : Tokens}
    (h : Climbs operand loosest tail ts e) (hle : tail' ≤ tail) :
    Climbs operand loosest tail' ts e := by
  obtain ⟨count, hcount, hclimb⟩ := h
  exact ⟨count, hcount, fun bound rest hbound hrest => hclimb bound rest hbound (hrest.mono hle)⟩

/-- An operator is printed as one token with blanks around it, and read back as itself. -/
theorem token_operatorPiece (op : BinaryOp) :
    ∃ token, tokensOf [.blank, operatorPiece op, .blank] = [(0, token)] ∧
      binaryOp? token = some op ∧ continues token = false := by
  cases op <;> exact ⟨_, rfl, by decide, rfl⟩

/-- A left operand without parentheses leaves its operator to the expression around it. -/
theorem precedence_le_tailOf {op : BinaryOp} {a : Expr} (h : leftLevel op ≤ level style a) :
    op.precedence ≤ tailOf a := by
  have hle := precedence_le op
  have hright := isRightAssociative_iff op
  cases a with
  | binary op' _ _ =>
      have hle' := precedence_le op'
      have hright' := isRightAssociative_iff op'
      rcases hop : op.isRightAssociative <;> rcases hop' : op'.isRightAssociative <;>
        simp [level, leftLevel, tailOf, limitAfter, hop, hop'] at h hright hright' ⊢ <;> omega
  | _ => exact hle

/-- A right operand without parentheses takes what binds tighter than the operator before it. -/
theorem limitAfter_le_tailOf {op : BinaryOp} {b : Expr} (h : rightLevel op ≤ level style b) :
    limitAfter op ≤ tailOf b := by
  have hle := precedence_le op
  have hright := isRightAssociative_iff op
  cases b with
  | binary op' _ _ =>
      have hle' := precedence_le op'
      have hright' := isRightAssociative_iff op'
      rcases hop : op.isRightAssociative <;> rcases hop' : op'.isRightAssociative <;>
        simp [level, rightLevel, tailOf, limitAfter, hop, hop'] at h hright hright' ⊢ <;> omega
  | _ =>
      simp only [limitAfter, tailOf]
      split <;> omega

/-- An expression that is not made with an operator can be followed by everything. -/
theorem tailOf_eq {e : Expr} (h : 10 ≤ level style e) : tailOf e = 8 := by
  cases e with
  | binary op _ _ =>
      have hle := precedence_le op
      simp only [level] at h
      omega
  | _ => rfl

/-- Operands joined by operators are climbed from. The induction is on the expression, with the
level from which climbing starts left free, as it is another one for the right operand. -/
theorem climbs_pieces (hinner : ReadsUpTo style n inner) (he : Printable e)
    (hlevel : 2 ≤ level style e) (hlength : (tokensOf (pieces style e)).length ≤ n + 1)
    {loosest : Nat} (hloosest : loosest + 1 < level style e) :
    Climbs (parseOperand inner) loosest (tailOf e) (tokensOf (pieces style e)) e := by
  have hprintable := he
  induction he generalizing loosest with
  | @binary op a b ha hb iha ihb =>
      obtain ⟨token, htoken, hop, hcontinues⟩ := token_operatorPiece op
      have htokens : tokensOf (pieces style (.binary op a b)) =
          tokensOf (within style (leftLevel op) a) ++
            (0, token) :: tokensOf (within style (rightLevel op) b) := by
        rw [pieces, tokensOf_append, tokensOf_append, htoken, List.append_assoc]
        rfl
      rw [htokens] at hlength ⊢
      simp only [List.length_append, List.length_cons] at hlength
      have hlengthA := length_tokensOf_le_within style (leftLevel op) a
      have hlengthB := length_tokensOf_le_within style (rightLevel op) b
      have hpos := precedence_pos op
      have hle := precedence_le op
      -- The levels of the two operands leave just the operators that may stand in them without
      -- parentheses.
      have hlimit : limitAfter op + 1 < rightLevel op ∧ limitAfter op ≤ 8 := by
        simp only [limitAfter, rightLevel]
        split <;> omega
      have hleast : op.precedence + 1 ≤ leftLevel op := by
        simp only [leftLevel]
        split <;> omega
      simp only [level] at hloosest
      have hleft : Climbs (parseOperand inner) loosest op.precedence
          (tokensOf (within style (leftLevel op) a)) a := by
        refine climbs_within hinner ha (by omega) hle fun hbare => ?_
        have hclimbs := iha (by omega) (by omega) (by omega : loosest + 1 < level style a) ha
        exact hclimbs.mono (precedence_le_tailOf hbare)
      have hright : Climbs (parseOperand inner) (limitAfter op) (limitAfter op)
          (tokensOf (within style (rightLevel op) b)) b := by
        refine climbs_within hinner hb (by omega) hlimit.2 fun hbare => ?_
        have hclimbs := ihb (by omega) (by omega) (by omega : limitAfter op + 1 < level style b) hb
        exact hclimbs.mono (limitAfter_le_tailOf hbare)
      exact hleft.binary hright hop hcontinues (by omega) (Nat.le_refl _) (Nat.le_refl _)
  -- An expression that is no binary one has at least the level of an operand.
  | _ =>
      rcases Nat.lt_or_ge (level style _) 10 with hloose | htight
      · obtain ⟨op, a, b, he⟩ := exists_binary_of_level hlevel hloose
        cases he
      · rw [tailOf_eq htight]
        have hne := tokensOf_ne_nil (begins_pieces style hprintable)
        exact (readsOperand_pieces hinner hprintable htight hlength).climbs hne (Nat.le_refl 8) _

/-- A point alone is the current value in front of what can follow a whole expression. -/
theorem readsWhole_current (inner : Parser Expr) :
    ReadsWhole (parseChoiceWith inner) [(0, .symbol .dot)] .current := by
  intro rest hrest
  rcases rest with _ | ⟨⟨position, token⟩, rest⟩
  · rfl
  · obtain ⟨s, hs, hfound⟩ := hrest (position, token) rfl
    obtain rfl : token = .symbol s := hfound
    simp only [closers, List.mem_cons, List.not_mem_nil, or_false] at hs
    rcases hs with rfl | rfl | rfl | rfl | rfl <;> rfl

/-- A level of nesting more reads back what is longer by a token. Whatever is in brackets is shorter
by the brackets, so the lower level reads it. -/
theorem ReadsUpTo.succ (hinner : ReadsUpTo style n inner) :
    ReadsUpTo style (n + 1) (parseChoiceWith inner) := by
  intro e least he hlength
  rcases Nat.lt_or_ge (level style e) least with h | h
  · have hsuffixed := suffixed_within hinner he hlength fun hle => absurd hle (by omega)
    have hne := tokensOf_ne_nil (begins_within he style least)
    exact (hsuffixed.readsOperand.climbs hne (Nat.le_refl 8) 0).readsWhole
  · rw [within_of_le h] at hlength ⊢
    rcases Nat.lt_or_ge (level style e) 2 with hlow | hlow
    · rcases current_or_choice_of_level hlow with rfl | ⟨condition, yes, no, rfl⟩
      · exact readsWhole_current inner
      · obtain ⟨hcondition, hyes, hno⟩ :
            Printable condition ∧ Printable yes ∧ Printable no := by
          cases he with
          | choice hcondition hyes hno => exact ⟨hcondition, hyes, hno⟩
        have htokens : tokensOf (pieces style (.choice condition yes no)) =
            tokensOf (within style 2 condition) ++ (0, .symbol .question) ::
              (tokensOf (within style 1 yes) ++ (0, .symbol .colon) ::
                tokensOf (within style 1 no)) := by
          simp [pieces, within]
        rw [htokens] at hlength ⊢
        simp only [List.length_append, List.length_cons] at hlength
        have hbare := length_tokensOf_le_within style 2 condition
        have hclimbs : Climbs (parseOperand inner) 0 0 (tokensOf (within style 2 condition))
            condition := by
          refine climbs_within hinner hcondition (by omega) (Nat.zero_le 8) fun hle => ?_
          exact (climbs_pieces hinner hcondition hle (by omega) (by omega)).mono (Nat.zero_le _)
        exact readsWhole_choice hclimbs (hinner yes 1 hyes (by omega))
          (hinner no 1 hno (by omega))
    · exact (climbs_pieces hinner he hlow hlength (by omega)).readsWhole

/-- Parsing with some depth of nesting reads back what has as many tokens. Each level of brackets
takes one level of the depth and at least one token, so the number of tokens bounds the depth
needed. -/
theorem readsUpTo_parseChoice (style : Style) (depth : Nat) :
    ReadsUpTo style depth (parseChoice depth) := by
  induction depth with
  | zero =>
      intro e least he hlength
      have hne := List.length_pos_iff.2 (tokensOf_ne_nil (begins_within he style least))
      omega
  | succ depth ih => exact ih.succ

/-- The tokens of a printed expression are read as that expression, in either style of quoting, and
within parentheses wherever precedence asks for them. -/
theorem ofTokens_tokensOf (style : Style) (least : Nat) (he : Printable e) :
    ofTokens (tokensOf (within style least e)) = .ok e := by
  have hne := tokensOf_ne_nil (begins_within he style least)
  have hread := readsUpTo_parseChoice style ((tokensOf (within style least e)).length + 1) e least
    he (Nat.le_succ _) [] ends_nil
  rw [List.append_nil] at hread
  unfold ofTokens
  rw [if_neg (by simpa using hne), hread]
  rfl

end Expressions

end Stencil.Expr
