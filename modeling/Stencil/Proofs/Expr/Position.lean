import Mathlib.Data.List.Forall2
import Stencil.Expr.Parser

/-!
# Positions of tokens

Where the tokens of an expression stand shows in messages alone.

## Main definitions

* `Moved` — the same tokens at other positions
* `SameRead` — parsers came to the same result, other positions aside

## Main results

* `ofTokens_of_moved` — the expression that tokens are does not depend on their positions

## Design notes

There is one lemma for each parser of the grammar, which takes the parser of the level inside it as
one that is `Settled` already.
-/

namespace Stencil.Expr

/-- The same tokens at other positions. -/
abbrev Moved : Tokens → Tokens → Prop := List.Forall₂ fun found found' => found.2 = found'.2

/-- Both parsers fail, or both read the same and leave the same tokens. -/
inductive SameRead {α : Type} :
    Except SyntaxError (α × Tokens) → Except SyntaxError (α × Tokens) → Prop where
  | ok (a : α) {ts ts' : Tokens} : Moved ts ts' → SameRead (.ok (a, ts)) (.ok (a, ts'))
  | error (e e' : SyntaxError) : SameRead (.error e) (.error e')

/-- What a parser reads does not depend on positions. -/
def Settled {α : Type} (p : Parser α) : Prop := ∀ {ts ts'}, Moved ts ts' → SameRead (p ts) (p ts')

theorem moved_of_map_eq {ts ts' : Tokens} (h : ts.map Prod.snd = ts'.map Prod.snd) :
    Moved ts ts' := by
  have hmaps := List.forall₂_eq_eq_eq ▸ h
  rwa [List.forall₂_map_left_iff, List.forall₂_map_right_iff] at hmaps

variable {α β : Type}

theorem SameRead.bind {r r' : Except SyntaxError (α × Tokens)} (h : SameRead r r')
    {next next' : α × Tokens → Except SyntaxError (β × Tokens)}
    (hnext : ∀ a {ts ts'}, Moved ts ts' → SameRead (next (a, ts)) (next' (a, ts'))) :
    SameRead (r >>= next) (r' >>= next') := by
  cases h with
  | ok a hts => exact hnext a hts
  | error e e' => exact .error e e'

section Steps

variable {ts ts' : Tokens}

/-- A symbol stands at the start of both lists or of neither, and what follows it is the same up to
positions again. -/
theorem skipSymbol?_of_moved (s : Symbol) (h : Moved ts ts') :
    (skipSymbol? s ts = none ∧ skipSymbol? s ts' = none) ∨
      ∃ rest rest', skipSymbol? s ts = some rest ∧ skipSymbol? s ts' = some rest' ∧
        Moved rest rest' := by
  cases h with
  | nil => exact .inl ⟨rfl, rfl⟩
  | @cons found found' rest rest' he hrest =>
      obtain ⟨position, token⟩ := found
      obtain ⟨position', token'⟩ := found'
      obtain rfl : token = token' := he
      cases token with
      | symbol t =>
          by_cases hs : s = t
          · exact .inr ⟨rest, rest', if_pos hs, if_pos hs, hrest⟩
          · exact .inl ⟨if_neg hs, if_neg hs⟩
      | int _ => exact .inl ⟨rfl, rfl⟩
      | float _ => exact .inl ⟨rfl, rfl⟩
      | str _ => exact .inl ⟨rfl, rfl⟩
      | name _ => exact .inl ⟨rfl, rfl⟩

theorem sameRead_expect_bind (s : Symbol) (h : Moved ts ts')
    {next next' : Tokens → Except SyntaxError (α × Tokens)}
    (hnext : ∀ {ts ts'}, Moved ts ts' → SameRead (next ts) (next' ts')) :
    SameRead (expect s ts >>= next) (expect s ts' >>= next') := by
  unfold expect
  rcases skipSymbol?_of_moved s h with ⟨hn, hn'⟩ | ⟨rest, rest', hs, hs', hrest⟩
  · rw [hn, hn']
    exact .error _ _
  · rw [hs, hs']
    exact hnext hrest

theorem takePrefixOps_of_moved (h : Moved ts ts') :
    (takePrefixOps ts).1 = (takePrefixOps ts').1 ∧
      Moved (takePrefixOps ts).2 (takePrefixOps ts').2 := by
  induction h with
  | nil => exact ⟨rfl, .nil⟩
  | @cons found found' rest rest' he hrest ih =>
      obtain ⟨position, token⟩ := found
      obtain ⟨position', token'⟩ := found'
      obtain rfl : token = token' := he
      unfold takePrefixOps
      cases prefixOp? token with
      | none => exact ⟨rfl, .cons rfl hrest⟩
      | some op => exact ⟨congrArg (op.toList ++ ·) ih.1, ih.2⟩

end Steps

/-- If two steps after each other come to a result, so does each of them. -/
theorem exists_of_bind {ε β γ : Type} {first : Except ε β} {next : β → Except ε γ} {c : γ}
    (h : first >>= next = .ok c) : ∃ b, first = .ok b ∧ next b = .ok c := by
  rcases first with fault | b
  · exact nomatch h
  · exact ⟨b, rfl, h⟩

theorem settled_parseMemberName : Settled parseMemberName := by
  intro ts ts' h
  cases h with
  | nil => exact .error _ _
  | @cons found found' rest rest' he hrest =>
      obtain ⟨position, token⟩ := found
      obtain ⟨position', token'⟩ := found'
      obtain rfl : token = token' := he
      cases token with
      | name w => exact .ok w hrest
      | int i => exact .ok _ hrest
      | float _ => exact .error _ _
      | str _ => exact .error _ _
      | symbol _ => exact .error _ _

theorem settled_parseItems {item : Parser α} (hitem : Settled item) (close : Symbol) (bound : Nat) :
    Settled (parseItems item close bound) := by
  induction bound with
  | zero => exact fun _ => .error _ _
  | succ bound ih =>
      intro ts ts' h
      refine (hitem h).bind fun first ts ts' h => ?_
      dsimp only
      rcases skipSymbol?_of_moved close h with ⟨hn, hn'⟩ | ⟨rest, rest', hs, hs', hrest⟩
      · rw [hn, hn']
        refine sameRead_expect_bind .comma h fun h => ?_
        exact (ih h).bind fun others _ _ h => .ok (first :: others) h
      · rw [hs, hs']
        exact .ok [first] hrest

theorem settled_parseList {item : Parser α} (hitem : Settled item) (close : Symbol) :
    Settled (parseList item close) := by
  intro ts ts' h
  unfold parseList
  rcases skipSymbol?_of_moved close h with ⟨hn, hn'⟩ | ⟨rest, rest', hs, hs', hrest⟩
  · rw [hn, hn', h.length_eq]
    exact settled_parseItems hitem close _ h
  · rw [hs, hs']
    exact .ok [] hrest

/-- A point is a member of the current value if a name follows, and else the value itself. -/
theorem sameRead_parsePrimary_dot (inner : Parser Expr) {ts ts' : Tokens} (h : Moved ts ts')
    (position position' : Nat) :
    SameRead (parsePrimary inner ((position, .symbol .dot) :: ts))
      (parsePrimary inner ((position', .symbol .dot) :: ts')) := by
  cases h with
  | nil => exact .ok current .nil
  | @cons found found' rest rest' he hrest =>
      obtain ⟨at₁, token⟩ := found
      obtain ⟨at₁', token'⟩ := found'
      obtain rfl : token = token' := he
      cases token with
      | name w => exact .ok (member current w) hrest
      | int _ => exact .ok current (.cons rfl hrest)
      | float _ => exact .ok current (.cons rfl hrest)
      | str _ => exact .ok current (.cons rfl hrest)
      | symbol _ => exact .ok current (.cons rfl hrest)

section Levels

variable {inner : Parser Expr} (hinner : Settled inner)

include hinner

theorem settled_parseEntry : Settled (parseEntry inner) := by
  intro ts ts' h
  cases h with
  | nil => exact .error _ _
  | @cons found found' rest rest' he hrest =>
      obtain ⟨position, token⟩ := found
      obtain ⟨position', token'⟩ := found'
      obtain rfl : token = token' := he
      have hvalue : ∀ key : String, SameRead
          (expect .colon rest >>= fun ts => inner ts >>= fun found => .ok ((key, found.1), found.2))
          (expect .colon rest' >>= fun ts =>
            inner ts >>= fun found => .ok ((key, found.1), found.2)) := fun key =>
        sameRead_expect_bind .colon hrest fun h =>
          (hinner h).bind fun value _ _ h => .ok (key, value) h
      cases token with
      | name key => exact hvalue key
      | str key => exact hvalue key
      | int _ => exact .error _ _
      | float _ => exact .error _ _
      | symbol _ => exact .error _ _

theorem settled_parsePrimary : Settled (parsePrimary inner) := by
  intro ts ts' h
  cases h with
  | nil => exact .error _ _
  | @cons found found' rest rest' he hrest =>
      obtain ⟨position, token⟩ := found
      obtain ⟨position', token'⟩ := found'
      obtain rfl : token = token' := he
      cases token with
      | int i => exact .ok _ hrest
      | float x => exact .ok _ hrest
      | str s => exact .ok _ hrest
      | name w => exact .ok _ hrest
      | symbol s =>
          cases s with
          | dot => exact sameRead_parsePrimary_dot inner hrest position position'
          | openParen =>
              refine (hinner hrest).bind fun e ts ts' h => ?_
              exact sameRead_expect_bind .closeParen h fun h => .ok e h
          | openBracket =>
              exact (settled_parseList hinner .closeBracket hrest).bind
                fun items _ _ h => .ok (array items) h
          | openBrace =>
              exact (settled_parseList (settled_parseEntry hinner) .closeBrace hrest).bind
                fun entries _ _ h => .ok (mapping entries) h
          | _ => exact .error _ _

theorem settled_parseSuffixes (bound : Nat) : ∀ e, Settled (parseSuffixes inner bound e) := by
  induction bound with
  | zero => exact fun e _ _ h => .ok e h
  | succ bound ih =>
      intro e ts ts' h
      cases h with
      | nil => exact .ok e .nil
      | @cons found found' rest rest' he hrest =>
          obtain ⟨position, token⟩ := found
          obtain ⟨position', token'⟩ := found'
          obtain rfl : token = token' := he
          have hstop : Moved ((position, token) :: rest) ((position', token) :: rest') :=
            .cons rfl hrest
          cases token with
          | symbol s =>
              cases s with
              | dot =>
                  exact (settled_parseMemberName hrest).bind fun field _ _ h => ih _ h
              | openBracket =>
                  refine (hinner hrest).bind fun key _ _ h => ?_
                  exact sameRead_expect_bind .closeBracket h fun h => ih _ h
              | openParen =>
                  cases e with
                  | name f =>
                      exact (settled_parseList hinner .closeParen hrest).bind
                        fun args _ _ h => ih _ h
                  | _ => exact .error _ _
              | _ => exact .ok e hstop
          | _ => exact .ok e hstop

theorem settled_parseOperand : Settled (parseOperand inner) := by
  intro ts ts' h
  obtain ⟨hops, hrest⟩ := takePrefixOps_of_moved h
  unfold parseOperand
  generalize takePrefixOps ts = found at hops hrest ⊢
  generalize takePrefixOps ts' = found' at hops hrest ⊢
  obtain ⟨ops, rest⟩ := found
  obtain ⟨ops', rest'⟩ := found'
  obtain rfl : ops = ops' := hops
  refine (settled_parsePrimary hinner hrest).bind fun e ts ts' h => ?_
  show SameRead (parseSuffixes inner ts.length e ts >>= _)
    (parseSuffixes inner ts'.length e ts' >>= _)
  rw [h.length_eq]
  exact (settled_parseSuffixes hinner _ e h).bind fun e _ _ h => .ok _ h

end Levels

/-- Joining operands goes by the operators between them, and an operator is told by its token alone.
-/
theorem settled_climb {operand : Parser Expr} (hoperand : Settled operand) (bound : Nat) :
    (∀ loosest, Settled (climb operand bound loosest)) ∧
      ∀ loosest left, Settled (climbFrom operand bound loosest left) := by
  induction bound with
  | zero => exact ⟨fun _ _ _ _ => .error _ _, fun _ left _ _ h => .ok left h⟩
  | succ bound ih =>
      obtain ⟨ihclimb, ihfrom⟩ := ih
      constructor
      · intro loosest ts ts' h
        exact (hoperand h).bind fun left _ _ h => ihfrom loosest left h
      · intro loosest left ts ts' h
        cases h with
        | nil => exact .ok left .nil
        | @cons found found' rest rest' he hrest =>
            obtain ⟨position, token⟩ := found
            obtain ⟨position', token'⟩ := found'
            obtain rfl : token = token' := he
            unfold climbFrom
            cases binaryOp? token with
            | none => exact .ok left (.cons rfl hrest)
            | some op =>
                dsimp only
                split
                · exact .ok left (.cons rfl hrest)
                · exact (ihclimb _ hrest).bind fun right _ _ h => ihfrom loosest _ h

theorem settled_parseChoiceWith {inner : Parser Expr} (hinner : Settled inner) :
    Settled (parseChoiceWith inner) := by
  intro ts ts' h
  unfold parseChoiceWith
  rw [h.length_eq]
  refine ((settled_climb (settled_parseOperand hinner) _).1 0 h).bind fun condition ts ts' h => ?_
  dsimp only
  rcases skipSymbol?_of_moved .question h with ⟨hn, hn'⟩ | ⟨rest, rest', hs, hs', hrest⟩
  · rw [hn, hn']
    exact .ok condition h
  · rw [hs, hs']
    refine (hinner hrest).bind fun yes _ _ h => ?_
    refine sameRead_expect_bind .colon h fun h => ?_
    exact (hinner h).bind fun no _ _ h => .ok (choice condition yes no) h

theorem settled_parseChoice (depth : Nat) : Settled (parseChoice depth) := by
  induction depth with
  | zero => exact fun _ => .error _ _
  | succ depth ih => exact settled_parseChoiceWith ih

/-- The expression that tokens are does not depend on their positions. Positions are there for the
messages of errors alone. -/
theorem ofTokens_of_moved {ts ts' : Tokens} (h : Moved ts ts') {e : Expr}
    (hread : ofTokens ts = .ok e) : ofTokens ts' = .ok e := by
  have hempty : ts'.isEmpty = ts.isEmpty := by
    cases h <;> rfl
  have hread' := settled_parseChoice (ts.length + 1) h
  unfold ofTokens at hread ⊢
  rw [hempty, ← h.length_eq]
  split at hread
  · exact nomatch hread
  · rename_i hne
    rw [if_neg hne]
    generalize parseChoice (ts.length + 1) ts = r at hread hread'
    generalize parseChoice (ts.length + 1) ts' = r' at hread'
    cases hread' with
    | error _ _ => exact nomatch hread
    | ok a hrest =>
        cases hrest with
        | nil => exact hread
        | cons _ _ => exact nomatch hread

end Stencil.Expr
