import Stencil.Proofs.Expr.Derivation

/-!
# Points and members

An expression has as many members as points stand before names among its tokens.

## Main definitions

* `members` — the number of members of an expression
* `points` — the number of points before names among tokens

## Main results

* `points_of_ofTokens` — they are the same, whichever names count

## Design notes

A derivation does not tell this, for in it a point may be an operand in front of a word operator.
The parser always takes a name after a point for a member, so the numbers are compared along the
parser: what it reads accounts for the points that it takes off.
-/

namespace Stencil.Expr

variable (counts : String → Bool)

mutual

/-- The number of members of an expression, of those whose name counts. It is the number of points
that were read as a member's. -/
def members : Expr → Nat
  | .literal _ | .name _ | .current => 0
  | .member base field => members base + (counts field).toNat
  | .index base key => members base + members key
  | .call _ args => membersOfItems args
  | .unary _ e => members e
  | .binary _ a b => members a + members b
  | .choice condition yes no => members condition + members yes + members no
  | .array items => membersOfItems items
  | .mapping entries => membersOfEntries entries

/-- The number of members of some expressions. -/
def membersOfItems : List Expr → Nat
  | [] => 0
  | e :: es => members e + membersOfItems es

/-- The number of members of the entries of a mapping. -/
def membersOfEntries : List (String × Expr) → Nat
  | [] => 0
  | (_, e) :: entries => members e + membersOfEntries entries

end

/-- Whether a token is a point and a name that counts follows. -/
def pointAt (t : Token) (ts : List Token) : Nat :=
  match t, ts with
  | .symbol .dot, .name s :: _ => (counts s).toNat
  | _, _ => 0

/-- The number of points before names among tokens, of those names that count. A point in front of a
word operator is counted too, if that word is. -/
def points : List Token → Nat
  | [] => 0
  | t :: ts => pointAt counts t ts + points ts

variable {counts}

/-- Only a point can be one before a name. -/
theorem pointAt_of_ne {t : Token} (ht : t ≠ .symbol .dot) (ts : List Token) :
    pointAt counts t ts = 0 := by
  unfold pointAt
  split
  · exact absurd rfl ht
  · rfl

/-- A token that is no point adds nothing. -/
theorem points_cons_of_ne {t : Token} (ht : t ≠ .symbol .dot) (ts : List Token) :
    points counts (t :: ts) = points counts ts := by
  rw [points, pointAt_of_ne ht, Nat.zero_add]

/-- The same for tokens with their positions. -/
theorem points_words_cons {position : Nat} {t : Token} (ht : t ≠ .symbol .dot) (ts : Tokens) :
    points counts (Tokens.words ((position, t) :: ts)) = points counts ts.words :=
  points_cons_of_ne ht _

/-- Another symbol is no point. -/
theorem ne_dot {s : Symbol} (hs : s ≠ .dot) : Token.symbol s ≠ .symbol .dot :=
  fun h => hs (Token.symbol.inj h)

/-- A name has no members. -/
theorem members_nameExpr (w : String) : members counts (nameExpr w) = 0 := by
  unfold nameExpr
  split
  · rfl
  split
  · rfl
  split
  · rfl
  · rfl

/-- Prefix operators add no members. -/
theorem members_foldr (ops : List UnaryOp) (e : Expr) :
    members counts (ops.foldr .unary e) = members counts e := by
  induction ops with
  | nil => rfl
  | cons op ops ih => rw [List.foldr_cons, members, ih]

/-! ### Parsers -/

/-- What a parser reads accounts for the points that it takes off. -/
def Accounts {α : Type} (counts : String → Bool) (count : α → Nat) (p : Parser α) : Prop :=
  ∀ {ts a rest}, p ts = .ok (a, rest) →
    points counts ts.words = count a + points counts rest.words

section Steps

variable {ts rest : Tokens} {s : Symbol}

/-- Skipping another symbol takes no point off. -/
theorem points_of_skipSymbol? (hs : s ≠ .dot) (h : skipSymbol? s ts = some rest) :
    points counts ts.words = points counts rest.words := by
  rw [words_of_skipSymbol? h, points_cons_of_ne (ne_dot hs)]

/-- Nor does expecting one. -/
theorem points_of_expect (hs : s ≠ .dot) (h : expect s ts = .ok rest) :
    points counts ts.words = points counts rest.words := by
  rw [words_of_expect h, points_cons_of_ne (ne_dot hs)]

/-- Nor does reading the prefix operators. -/
theorem points_of_takePrefixOps (ts : Tokens) :
    points counts (takePrefixOps ts).2.words = points counts ts.words := by
  induction ts with
  | nil => rfl
  | cons found ts ih =>
      obtain ⟨position, t⟩ := found
      unfold takePrefixOps
      split
      · rfl
      · rename_i op hop
        have ht : t ≠ .symbol .dot := by
          rintro rfl
          exact nomatch hop
        exact ih.trans (points_cons_of_ne ht _).symm

end Steps

section Lists

variable {α : Type} {count : α → Nat} {total : List α → Nat} (hnil : total [] = 0)
  (hcons : ∀ a as, total (a :: as) = count a + total as) {item : Parser α} {close : Symbol}

include hnil hcons

/-- A list of items accounts for its points if an item does. Between the items there are commas
only. -/
theorem accounts_parseItems (hitem : Accounts counts count item) (hclose : close ≠ .dot)
    (bound : Nat) : Accounts counts total (parseItems item close bound) := by
  induction bound with
  | zero => exact fun h => nomatch h
  | succ bound ih =>
      intro ts as rest h
      obtain ⟨⟨first, ts₁⟩, hfirst, h⟩ := exists_of_bind h
      have hcount := hitem hfirst
      dsimp only at h
      split at h
      · rename_i found hskip
        obtain ⟨rfl, rfl⟩ := Prod.mk.inj (Except.ok.inj h)
        rw [hcount, points_of_skipSymbol? hclose hskip]
        rw [hcons, hnil, Nat.add_zero]
      · obtain ⟨ts₂, hcomma, h⟩ := exists_of_bind h
        obtain ⟨⟨others, ts₃⟩, hothers, h⟩ := exists_of_bind h
        obtain ⟨rfl, rfl⟩ := Prod.mk.inj (Except.ok.inj h)
        rw [hcount, points_of_expect (by decide) hcomma, ih hothers, hcons, Nat.add_assoc]

/-- So does a list that may be empty. -/
theorem accounts_parseList (hitem : Accounts counts count item) (hclose : close ≠ .dot) :
    Accounts counts total (parseList item close) := by
  intro ts as rest h
  unfold parseList at h
  split at h
  · rename_i found hskip
    obtain ⟨rfl, rfl⟩ := Prod.mk.inj (Except.ok.inj h)
    rw [points_of_skipSymbol? hclose hskip, hnil, Nat.zero_add]
  · exact accounts_parseItems hnil hcons hitem hclose _ h

end Lists

section Levels

variable (hcounts : ∀ i : Int64, counts (toString i.toInt) = false)
  {inner : Parser Expr} (hinner : Accounts counts (members counts) inner)

include hcounts in
/-- A point in front of the name of a member accounts for it. -/
theorem points_of_parseMemberName {position : Nat} {ts rest : Tokens} {field : String}
    (h : parseMemberName ts = .ok (field, rest)) :
    points counts (Tokens.words ((position, .symbol .dot) :: ts)) =
      (counts field).toNat + points counts rest.words := by
  unfold parseMemberName at h
  split at h
  · obtain ⟨rfl, rfl⟩ := Prod.mk.inj (Except.ok.inj h)
    exact congrArg ((counts _).toNat + ·) (points_cons_of_ne (by nofun) _)
  · obtain ⟨rfl, rfl⟩ := Prod.mk.inj (Except.ok.inj h)
    rw [hcounts]
    exact congrArg (0 + ·) (points_cons_of_ne (by nofun) _)
  · exact nomatch h

include hinner

/-- An entry of a mapping accounts for the points of its value; its key has none. -/
theorem accounts_parseEntry :
    Accounts counts (fun entry => members counts entry.2) (parseEntry inner) := by
  have hvalue : ∀ {key : String} {ts : Tokens} {entry : String × Expr} {rest : Tokens},
      (do
        let read ← inner (← expect .colon ts)
        .ok ((key, read.1), read.2) : Except SyntaxError ((String × Expr) × Tokens)) =
          .ok (entry, rest) →
      points counts ts.words = members counts entry.2 + points counts rest.words := by
    intro key ts entry rest h
    obtain ⟨ts₁, hcolon, h⟩ := exists_of_bind h
    obtain ⟨⟨value, ts₂⟩, hread, h⟩ := exists_of_bind h
    obtain ⟨rfl, rfl⟩ := Prod.mk.inj (Except.ok.inj h)
    rw [points_of_expect (by decide) hcolon, hinner hread]
  intro ts entry rest h
  unfold parseEntry at h
  split at h
  · exact (points_cons_of_ne (by nofun) _).trans (hvalue h)
  · exact (points_cons_of_ne (by nofun) _).trans (hvalue h)
  · exact nomatch h

/-- A list of expressions accounts for its points. -/
theorem accounts_parseExprs {close : Symbol} (hclose : close ≠ .dot) :
    Accounts counts (membersOfItems counts) (parseList inner close) :=
  accounts_parseList rfl (fun _ _ => rfl) hinner hclose

/-- The entries of a mapping account for theirs. -/
theorem accounts_parseEntries :
    Accounts counts (membersOfEntries counts) (parseList (parseEntry inner) .closeBrace) :=
  accounts_parseList rfl (fun _ _ => rfl) (accounts_parseEntry hinner) (by decide)

/-- A primary expression accounts for its points, the one of a member of the current value included.
-/
theorem accounts_parsePrimary : Accounts counts (members counts) (parsePrimary inner) := by
  intro ts e rest h
  unfold parsePrimary at h
  split at h
  · exact nomatch h
  · obtain ⟨rfl, rfl⟩ := Prod.mk.inj (Except.ok.inj h)
    exact (points_cons_of_ne (by nofun) _).trans (Nat.zero_add _).symm
  · obtain ⟨rfl, rfl⟩ := Prod.mk.inj (Except.ok.inj h)
    exact (points_cons_of_ne (by nofun) _).trans (Nat.zero_add _).symm
  · obtain ⟨rfl, rfl⟩ := Prod.mk.inj (Except.ok.inj h)
    exact (points_cons_of_ne (by nofun) _).trans (Nat.zero_add _).symm
  · obtain ⟨rfl, rfl⟩ := Prod.mk.inj (Except.ok.inj h)
    rw [members_nameExpr, Nat.zero_add]
    exact points_cons_of_ne (by nofun) _
  -- A member of the current value accounts for the point before its name.
  · obtain ⟨rfl, rfl⟩ := Prod.mk.inj (Except.ok.inj h)
    rename_i position at₁ w rest
    rw [members, members, Nat.zero_add]
    exact congrArg ((counts w).toNat + ·) (points_cons_of_ne (by nofun) _)
  · obtain ⟨rfl, rfl⟩ := Prod.mk.inj (Except.ok.inj h)
    rename_i position rest hname
    -- The current value: no name follows the point, so the point does not count.
    have hnone : pointAt counts (.symbol .dot) (Tokens.words rest) = 0 := by
      rcases rest with _ | ⟨⟨next, t⟩, rest⟩
      · rfl
      · cases t with
        | name s => exact absurd rfl (hname next s rest)
        | _ => rfl
    exact congrArg (· + points counts (Tokens.words rest)) hnone
  · obtain ⟨⟨e', ts₁⟩, hread, h⟩ := exists_of_bind h
    obtain ⟨ts₂, hclose, h⟩ := exists_of_bind h
    obtain ⟨rfl, rfl⟩ := Prod.mk.inj (Except.ok.inj h)
    rw [← points_of_expect (by decide) hclose, ← hinner hread]
    exact points_cons_of_ne (by nofun) _
  · obtain ⟨⟨items, ts₁⟩, hread, h⟩ := exists_of_bind h
    obtain ⟨rfl, rfl⟩ := Prod.mk.inj (Except.ok.inj h)
    rw [members, ← accounts_parseExprs hinner (by decide) hread]
    exact points_cons_of_ne (by nofun) _
  · obtain ⟨⟨entries, ts₁⟩, hread, h⟩ := exists_of_bind h
    obtain ⟨rfl, rfl⟩ := Prod.mk.inj (Except.ok.inj h)
    rw [members, ← accounts_parseEntries hinner hread]
    exact points_cons_of_ne (by nofun) _
  · exact nomatch h

include hcounts

/-- Suffixes account for the points that they take off: a member for one, and what is in brackets
for its own. -/
theorem points_of_parseSuffixes {bound : Nat} {e e' : Expr} {ts rest : Tokens}
    (h : parseSuffixes inner bound e ts = .ok (e', rest)) :
    members counts e + points counts ts.words = members counts e' + points counts rest.words := by
  induction bound generalizing e ts with
  | zero =>
      obtain ⟨rfl, rfl⟩ := Prod.mk.inj (Except.ok.inj h)
      rfl
  | succ bound ih =>
      unfold parseSuffixes at h
      split at h
      · obtain ⟨⟨field, ts₁⟩, hread, h⟩ := exists_of_bind h
        have hmore := ih h
        rw [members] at hmore
        rw [points_of_parseMemberName hcounts hread, ← Nat.add_assoc]
        exact hmore
      · obtain ⟨⟨key, ts₁⟩, hread, h⟩ := exists_of_bind h
        obtain ⟨ts₂, hclose, h⟩ := exists_of_bind h
        have hkey := hinner hread
        rw [points_of_expect (by decide) hclose] at hkey
        have hmore := ih h
        rw [members] at hmore
        rw [points_words_cons (ne_dot (by decide)), hkey, ← Nat.add_assoc]
        exact hmore
      · split at h
        · obtain ⟨⟨args, ts₁⟩, hread, h⟩ := exists_of_bind h
          have hmore := ih h
          rw [members] at hmore
          rw [points_words_cons (ne_dot (by decide)), members, Nat.zero_add,
            accounts_parseExprs hinner (by decide) hread]
          exact hmore
        · cases h
      · obtain ⟨rfl, rfl⟩ := Prod.mk.inj (Except.ok.inj h)
        rfl

/-- An operand accounts for its points. -/
theorem accounts_parseOperand : Accounts counts (members counts) (parseOperand inner) := by
  intro ts e rest h
  have hops : points counts (takePrefixOps ts).2.words = points counts ts.words :=
    points_of_takePrefixOps ts
  unfold parseOperand at h
  generalize takePrefixOps ts = found at h hops
  obtain ⟨ops, ts₁⟩ := found
  obtain ⟨⟨first, ts₂⟩, hprimary, h⟩ := exists_of_bind h
  obtain ⟨⟨operand, ts₃⟩, hsuffixes, h⟩ := exists_of_bind h
  obtain ⟨rfl, rfl⟩ := Prod.mk.inj (Except.ok.inj h)
  rw [members_foldr, ← points_of_parseSuffixes hcounts hinner hsuffixes,
    ← accounts_parsePrimary hinner hprimary]
  exact hops.symm

end Levels

/-- Joining operands accounts for the points in those that it takes off. Both functions of climbing
are covered by one induction on their bound. -/
theorem accounts_climb {operand : Parser Expr} (hoperand : Accounts counts (members counts) operand)
    (bound : Nat) :
    (∀ loosest, Accounts counts (members counts) (climb operand bound loosest)) ∧
      ∀ {loosest left ts e rest}, climbFrom operand bound loosest left ts = .ok (e, rest) →
        members counts left + points counts ts.words =
          members counts e + points counts rest.words := by
  -- Where climbing stops, nothing is taken off.
  have hdone : ∀ {left e : Expr} {ts rest : Tokens},
      (.ok (left, ts) : Except SyntaxError (Expr × Tokens)) = .ok (e, rest) →
      members counts left + points counts ts.words =
        members counts e + points counts rest.words := by
    intro left e ts rest h
    obtain ⟨rfl, rfl⟩ := Prod.mk.inj (Except.ok.inj h)
    rfl
  induction bound with
  | zero =>
      constructor
      · exact fun _ _ _ _ h => nomatch h
      · intro loosest left ts e rest h
        unfold climbFrom at h
        exact hdone h
  | succ bound ih =>
      obtain ⟨ihclimb, ihfrom⟩ := ih
      constructor
      · intro loosest ts e rest h
        obtain ⟨⟨left, ts₁⟩, hread, h⟩ := exists_of_bind h
        rw [hoperand hread]
        exact ihfrom h
      · intro loosest left ts e rest h
        rcases ts with _ | ⟨⟨position, token⟩, ts⟩
        · exact hdone h
        unfold climbFrom at h
        split at h
        · exact hdone h
        rename_i op hop
        split at h
        · exact hdone h
        obtain ⟨⟨right, ts₁⟩, hread, h⟩ := exists_of_bind h
        -- An operator is no point, so the points are those of the right operand and of what comes
        -- after it.
        have htoken : token ≠ .symbol .dot := by
          rintro rfl
          exact nomatch hop
        have hmore := ihfrom h
        rw [members] at hmore
        rw [points_words_cons htoken, ihclimb _ hread, ← Nat.add_assoc]
        exact hmore

section Whole

variable (hcounts : ∀ i : Int64, counts (toString i.toInt) = false)

include hcounts

/-- A whole expression accounts for its points if those one level deeper do. -/
theorem accounts_parseChoiceWith {inner : Parser Expr}
    (hinner : Accounts counts (members counts) inner) :
    Accounts counts (members counts) (parseChoiceWith inner) := by
  intro ts e rest h
  obtain ⟨⟨condition, ts₁⟩, hread, h⟩ := exists_of_bind h
  have hcondition := (accounts_climb (accounts_parseOperand hcounts hinner) _).1 0 hread
  dsimp only at h
  split at h
  · obtain ⟨rfl, rfl⟩ := Prod.mk.inj (Except.ok.inj h)
    exact hcondition
  · rename_i ts₂ hquestion
    obtain ⟨⟨yes, ts₃⟩, hyes, h⟩ := exists_of_bind h
    obtain ⟨ts₄, hcolon, h⟩ := exists_of_bind h
    obtain ⟨⟨no, ts₅⟩, hno, h⟩ := exists_of_bind h
    obtain ⟨rfl, rfl⟩ := Prod.mk.inj (Except.ok.inj h)
    rw [hcondition, points_of_skipSymbol? (by decide) hquestion, hinner hyes,
      points_of_expect (by decide) hcolon, hinner hno, members, Nat.add_assoc, Nat.add_assoc]

/-- A whole expression accounts for its points at every depth: each point before a name that counts
is a member of the expression that is read. -/
theorem accounts_parseChoice (depth : Nat) :
    Accounts counts (members counts) (parseChoice depth) := by
  induction depth with
  | zero => exact fun h => nomatch h
  | succ depth ih => exact accounts_parseChoiceWith hcounts ih

/-- An expression has as many members as points stand before names among its tokens. A point before
a name is therefore never the current value with the name after it. -/
theorem points_of_ofTokens {ts : Tokens} {e : Expr} (h : ofTokens ts = .ok e) :
    points counts ts.words = members counts e := by
  unfold ofTokens at h
  split at h
  · exact nomatch h
  obtain ⟨⟨e', rest⟩, hread, h⟩ := exists_of_bind h
  have hcount := accounts_parseChoice hcounts _ hread
  rcases rest with _ | ⟨t, rest⟩
  · obtain rfl := Except.ok.inj h
    exact hcount
  · exact nomatch h

end Whole

end Stencil.Expr
