import Mathlib.Data.List.Chain
import Stencil.Proofs.Expr.Derivation
import Stencil.Proofs.Expr.Grammar

/-!
# The current value in place of a name

Tokens of a name are replaced by points, and the expression that they are read as has the current
value in place of the name.

## Main definitions

* `atCurrent` — an expression with the current value in place of a name
* `UsesAsOperand` — expressions in which a name is nothing but an operand
* `Pointed` — tokens with points in place of a name that no other name follows
* `Replays` — a parser that reads the same from pointed tokens, but for the name

## Main results

* `ofTokens_of_pointed` — pointed tokens are an expression with the current value for the name

## Design notes

A point after an operand is the beginning of a member, so the parsers are compared only where they
leave tokens that do not begin with the name.  In an expression they always do: what follows an
operand is an operator, a bracket, a separator or the end.  A point in front of a name is the
beginning of a member, too, also where the name is that of an operator.
-/

namespace Stencil.Expr

/-! ### Expressions -/

mutual

/-- An expression with the current value in place of a name. The name is replaced as an operand
alone: names of functions and members stay what they are. -/
def atCurrent (x : String) : Expr → Expr
  | .literal v => .literal v
  | .name s => if s = x then .current else .name s
  | .current => .current
  | .member base field => .member (atCurrent x base) field
  | .index base key => .index (atCurrent x base) (atCurrent x key)
  | .call f args => .call f (itemsAtCurrent x args)
  | .unary op e => .unary op (atCurrent x e)
  | .binary op a b => .binary op (atCurrent x a) (atCurrent x b)
  | .choice condition yes no => .choice (atCurrent x condition) (atCurrent x yes) (atCurrent x no)
  | .array items => .array (itemsAtCurrent x items)
  | .mapping entries => .mapping (entriesAtCurrent x entries)

/-- Expressions with the current value in place of a name. -/
def itemsAtCurrent (x : String) : List Expr → List Expr
  | [] => []
  | e :: es => atCurrent x e :: itemsAtCurrent x es

/-- Entries of a mapping with the current value in place of a name. -/
def entriesAtCurrent (x : String) : List (String × Expr) → List (String × Expr)
  | [] => []
  | (key, e) :: entries => (key, atCurrent x e) :: entriesAtCurrent x entries

end

/-- The current value is put into each item. -/
theorem itemsAtCurrent_eq_map (x : String) (es : List Expr) :
    itemsAtCurrent x es = es.map (atCurrent x) := by
  induction es with
  | nil => rfl
  | cons e es ih => rw [itemsAtCurrent, ih, List.map_cons]

/-- The current value is put into the value of each entry; the keys stay. -/
theorem entriesAtCurrent_eq_map (x : String) (entries : List (String × Expr)) :
    entriesAtCurrent x entries = entries.map (Prod.map id (atCurrent x)) := by
  induction entries with
  | nil => rfl
  | cons entry entries ih => rw [entriesAtCurrent, ih, List.map_cons]; rfl

/-- The expressions in which a name is neither that of a function nor that of a member nor a key. In
them every token that is the name stands for an operand, so replacing tokens replaces operands. -/
inductive UsesAsOperand (x : String) : Expr → Prop where
  | literal (v : Value) : UsesAsOperand x (.literal v)
  | name (s : String) : UsesAsOperand x (.name s)
  | current : UsesAsOperand x .current
  | member {base : Expr} {field : String} : UsesAsOperand x base → field ≠ x →
      UsesAsOperand x (.member base field)
  | index {base key : Expr} : UsesAsOperand x base → UsesAsOperand x key →
      UsesAsOperand x (.index base key)
  | call {f : String} {args : List Expr} : f ≠ x → (∀ e ∈ args, UsesAsOperand x e) →
      UsesAsOperand x (.call f args)
  | unary (op : UnaryOp) {e : Expr} : UsesAsOperand x e → UsesAsOperand x (.unary op e)
  | binary (op : BinaryOp) {a b : Expr} : UsesAsOperand x a → UsesAsOperand x b →
      UsesAsOperand x (.binary op a b)
  | choice {condition yes no : Expr} : UsesAsOperand x condition → UsesAsOperand x yes →
      UsesAsOperand x no → UsesAsOperand x (.choice condition yes no)
  | array {items : List Expr} : (∀ e ∈ items, UsesAsOperand x e) → UsesAsOperand x (.array items)
  | mapping {entries : List (String × Expr)} : (∀ entry ∈ entries, entry.1 ≠ x) →
      (∀ entry ∈ entries, UsesAsOperand x entry.2) → UsesAsOperand x (.mapping entries)

/-! ### Tokens -/

/-- A token with a point in place of a name. -/
def Token.pointFor (x : String) : Token → Token
  | .name s => if s = x then .symbol .dot else .name s
  | t => t

/-- No other name stands right after the name. -/
def NotBeforeName (x : String) (t u : Token) : Prop := t = .name x → ∀ s, u = .name s → s = x

/-- Tokens with points in place of a name that no other name follows. The positions may differ,
since the texts of a name and of a point differ in length. -/
structure Pointed (x : String) (ts ts' : Tokens) : Prop where
  words_eq : ts'.words = ts.words.map (Token.pointFor x)
  apart : ts.words.IsChain (NotBeforeName x)

/-- Tokens do not begin with the name. -/
def NotAt (x : String) (ts : Tokens) : Prop := ∀ found ∈ ts.head?, found.2 ≠ .name x

/-- Tokens begin with no name at all. -/
def NotAtName (ts : Tokens) : Prop := ∀ s, NotAt s ts

variable {x : String} {ts ts' : Tokens}

/-- The name itself becomes a point. -/
theorem pointFor_name_self (x : String) : (Token.name x).pointFor x = .symbol .dot := if_pos rfl

/-- Every other token stays. -/
theorem pointFor_of_ne {t : Token} (h : t ≠ .name x) : t.pointFor x = t := by
  cases t with
  | name s => exact if_neg fun hs => h (congrArg Token.name hs)
  | _ => rfl

/-- Pointed tokens are as many as the tokens. -/
theorem Pointed.length_eq (h : Pointed x ts ts') : ts'.length = ts.length := by
  have hlength := congrArg List.length h.words_eq
  simpa [Tokens.words] using hlength

/-- There are no pointed tokens where there are none. -/
theorem Pointed.eq_nil (h : Pointed x [] ts') : ts' = [] :=
  List.length_eq_zero_iff.1 h.length_eq

/-- Pointed tokens begin with the first token, pointed, and go on with pointed tokens. If the first
token is the name, no other name comes next, hence the point is not read as that of a member. -/
theorem Pointed.exists_cons {position : Nat} {t : Token} (h : Pointed x ((position, t) :: ts) ts') :
    ∃ position' rest', ts' = (position', t.pointFor x) :: rest' ∧ Pointed x ts rest' ∧
      ∀ found ∈ ts.head?, NotBeforeName x t found.2 := by
  rcases ts' with _ | ⟨⟨position', t'⟩, rest'⟩
  · exact nomatch h.words_eq
  · obtain ⟨rfl, hrest⟩ := List.cons.inj h.words_eq
    refine ⟨position', rest', rfl, ⟨hrest, h.apart.tail⟩, fun found hfound => ?_⟩
    rcases ts with _ | ⟨first, ts⟩
    · exact nomatch hfound
    · obtain rfl := Option.some.inj hfound
      exact (List.isChain_cons_cons.1 h.apart).1

/-- Where no other name stands, none comes to stand. -/
theorem Pointed.notAtName (h : Pointed x ts ts')
    (hname : ∀ found ∈ ts.head?, ∀ s, found.2 = .name s → s = x) : NotAtName ts' := by
  intro s found hfound
  rcases ts with _ | ⟨⟨position, t⟩, ts⟩
  · rw [h.eq_nil] at hfound
    exact nomatch hfound
  · obtain ⟨position', rest', rfl, -, -⟩ := h.exists_cons
    obtain rfl := Option.some.inj hfound
    by_cases ht : t = .name x
    · subst ht
      rw [pointFor_name_self]
      exact nofun
    · rw [pointFor_of_ne ht]
      exact fun he => ht (hname (position, t) rfl s he ▸ he)

/-- Tokens whose first one is no name do not begin with the name. -/
theorem notAtName_of_ne (h : ∀ next s rest, ts = (next, Token.name s) :: rest → False) :
    NotAtName ts := by
  intro s found hfound he
  obtain ⟨rest, rfl⟩ := List.head?_eq_some_iff.1 hfound
  obtain ⟨next, t⟩ := found
  exact h next s rest (congrArg (fun t => (next, t) :: rest) he)

/-! ### Steps of parsers -/

section Steps

variable {rest : Tokens}

/-- Where a symbol is skipped there is no name. -/
theorem notAt_of_skipSymbol? {s : Symbol} (h : skipSymbol? s ts = some rest) : NotAt x ts := by
  intro found hfound
  unfold skipSymbol? at h
  split at h
  · exact Option.some.inj hfound ▸ nofun
  · exact nomatch h

/-- Where a symbol is expected and found there is no name. -/
theorem notAt_of_expect {s : Symbol} (h : expect s ts = .ok rest) : NotAt x ts := by
  unfold expect at h
  split at h
  · rename_i found hskip
    exact notAt_of_skipSymbol? hskip
  · exact nomatch h

/-- A symbol that stands at the start of tokens does so with points among them. -/
theorem skipSymbol?_of_pointed {s : Symbol} (h : Pointed x ts ts')
    (hskip : skipSymbol? s ts = some rest) :
    ∃ rest', skipSymbol? s ts' = some rest' ∧ Pointed x rest rest' := by
  unfold skipSymbol? at hskip
  split at hskip
  · split at hskip
    · rename_i position t rest₁ hs
      obtain rfl := Option.some.inj hskip
      obtain ⟨position', rest', rfl, hrest, -⟩ := h.exists_cons
      exact ⟨rest', if_pos hs, hrest⟩
    · exact nomatch hskip
  · exact nomatch hskip

/-- A symbol other than a point does not come to stand at the start. Only a name is replaced, and
only a point comes in its place. -/
theorem skipSymbol?_eq_none_of_pointed {s : Symbol} (hs : s ≠ .dot) (h : Pointed x ts ts')
    (hskip : skipSymbol? s ts = none) : skipSymbol? s ts' = none := by
  rcases ts with _ | ⟨⟨position, t⟩, ts⟩
  · rw [h.eq_nil]
    rfl
  obtain ⟨position', rest', rfl, -, -⟩ := h.exists_cons
  by_cases ht : t = .name x
  · subst ht
    rw [pointFor_name_self]
    exact if_neg hs
  · rw [pointFor_of_ne ht]
    cases t with
    | symbol t =>
        by_cases he : s = t
        · have hfound : skipSymbol? s ((position, .symbol t) :: ts) = some ts := if_pos he
          exact nomatch hfound.symm.trans hskip
        · exact if_neg he
    | _ => rfl

/-- A symbol that is expected is found among the pointed tokens too. -/
theorem expect_of_pointed {s : Symbol} (h : Pointed x ts ts') (hexpect : expect s ts = .ok rest) :
    ∃ rest', expect s ts' = .ok rest' ∧ Pointed x rest rest' := by
  unfold expect at hexpect ⊢
  split at hexpect
  · rename_i found hskip
    obtain rfl := Except.ok.inj hexpect
    obtain ⟨rest', hskip', hrest⟩ := skipSymbol?_of_pointed h hskip
    exact ⟨rest', by rw [hskip'], hrest⟩
  · exact nomatch hexpect

/-- The prefix operators are those of the tokens, for the name is not one of them. What follows the
operators is replaced as before. -/
theorem takePrefixOps_of_pointed (hx : IsFreeName x) (h : Pointed x ts ts') :
    (takePrefixOps ts').1 = (takePrefixOps ts).1 ∧
      Pointed x (takePrefixOps ts).2 (takePrefixOps ts').2 := by
  induction ts generalizing ts' with
  | nil =>
      obtain rfl := h.eq_nil
      exact ⟨rfl, h⟩
  | cons found ts ih =>
      obtain ⟨position, t⟩ := found
      have hwhole := h
      obtain ⟨position', rest', rfl, hrest, -⟩ := h.exists_cons
      have hop : prefixOp? (t.pointFor x) = prefixOp? t := by
        by_cases ht : t = .name x
        · subst ht
          have hnot : x ≠ "not" := by
            rintro rfl
            exact hx.2 (by decide)
          rw [pointFor_name_self, prefixOp?_name hnot]
          rfl
        · rw [pointFor_of_ne ht]
      unfold takePrefixOps
      rw [hop]
      cases prefixOp? t with
      | none => exact ⟨rfl, hwhole⟩
      | some op =>
          obtain ⟨hops, hmore⟩ := ih hrest
          exact ⟨congrArg (op.toList ++ ·) hops, hmore⟩

end Steps

/-! ### Parsers -/

/-- A parser reads from pointed tokens what it reads from the tokens themselves, with the current
value for the name. -/
def Replays {α : Type} (x : String) (uses : α → Prop) (change : α → α) (p : Parser α) : Prop :=
  ∀ {ts ts' a rest}, Pointed x ts ts' → p ts = .ok (a, rest) → uses a →
    ∃ rest', p ts' = .ok (change a, rest') ∧ Pointed x rest rest'

/-- A parser does so unless it stops in front of the name. -/
def ReplaysUpTo {α : Type} (x : String) (uses : α → Prop) (change : α → α) (p : Parser α) : Prop :=
  ∀ {ts ts' a rest}, Pointed x ts ts' → p ts = .ok (a, rest) → uses a → NotAt x rest →
    ∃ rest', p ts' = .ok (change a, rest') ∧ Pointed x rest rest'

section Lists

variable {α : Type} {uses : α → Prop} {change : α → α} {item : Parser α} {close : Symbol}

/-- A list of items, up to its closing symbol, is replayed if an item is. The symbol is no point,
which a pointed token could be mistaken for. -/
theorem replays_parseItems (hitem : ReplaysUpTo x uses change item) (hclose : close ≠ .dot)
    (bound : Nat) :
    Replays x (fun as => ∀ a ∈ as, uses a) (List.map change) (parseItems item close bound) := by
  induction bound with
  | zero => exact fun _ h => nomatch h
  | succ bound ih =>
      intro ts ts' as rest hts h huses
      obtain ⟨⟨first, ts₁⟩, hfirst, h⟩ := exists_of_bind h
      dsimp only at h
      split at h
      · rename_i found hskip
        obtain ⟨rfl, rfl⟩ := Prod.mk.inj (Except.ok.inj h)
        obtain ⟨ts₁', hfirst', hts₁⟩ :=
          hitem hts hfirst (huses first List.mem_cons_self) (notAt_of_skipSymbol? hskip)
        obtain ⟨rest', hskip', hrest'⟩ := skipSymbol?_of_pointed hts₁ hskip
        refine ⟨rest', ?_, hrest'⟩
        simp only [parseItems, hfirst', hskip', bind, Except.bind, List.map_cons, List.map_nil]
      · rename_i hskip
        obtain ⟨ts₂, hcomma, h⟩ := exists_of_bind h
        obtain ⟨⟨others, ts₃⟩, hothers, h⟩ := exists_of_bind h
        obtain ⟨rfl, rfl⟩ := Prod.mk.inj (Except.ok.inj h)
        obtain ⟨ts₁', hfirst', hts₁⟩ :=
          hitem hts hfirst (huses first List.mem_cons_self) (notAt_of_expect hcomma)
        obtain ⟨ts₂', hcomma', hts₂⟩ := expect_of_pointed hts₁ hcomma
        obtain ⟨rest', hothers', hrest'⟩ :=
          ih hts₂ hothers fun a ha => huses a (List.mem_cons_of_mem first ha)
        have hskip' := skipSymbol?_eq_none_of_pointed hclose hts₁ hskip
        refine ⟨rest', ?_, hrest'⟩
        simp only [parseItems, hfirst', hskip', hcomma', hothers', bind, Except.bind, List.map_cons]

/-- So is a list that may be empty. -/
theorem replays_parseList (hitem : ReplaysUpTo x uses change item) (hclose : close ≠ .dot) :
    Replays x (fun as => ∀ a ∈ as, uses a) (List.map change) (parseList item close) := by
  intro ts ts' as rest hts h huses
  unfold parseList at h ⊢
  split at h
  · rename_i found hskip
    obtain ⟨rfl, rfl⟩ := Prod.mk.inj (Except.ok.inj h)
    obtain ⟨rest', hskip', hrest'⟩ := skipSymbol?_of_pointed hts hskip
    exact ⟨rest', by rw [hskip']; rfl, hrest'⟩
  · rename_i hskip
    rw [skipSymbol?_eq_none_of_pointed hclose hts hskip, hts.length_eq]
    exact replays_parseItems hitem hclose _ hts h huses

end Lists

/-- The name of a member is replayed unless it is the name in question. -/
theorem replays_parseMemberName : Replays x (· ≠ x) id parseMemberName := by
  intro ts ts' field rest hts h hne
  unfold parseMemberName at h
  split at h
  · obtain ⟨rfl, rfl⟩ := Prod.mk.inj (Except.ok.inj h)
    obtain ⟨position', rest', rfl, hrest, -⟩ := hts.exists_cons
    rw [pointFor_of_ne fun he => hne (Token.name.inj he)]
    exact ⟨rest', rfl, hrest⟩
  · obtain ⟨rfl, rfl⟩ := Prod.mk.inj (Except.ok.inj h)
    obtain ⟨position', rest', rfl, hrest, -⟩ := hts.exists_cons
    exact ⟨rest', rfl, hrest⟩
  · exact nomatch h

/-- Another name stays as it is. -/
theorem atCurrent_nameExpr {w : String} (h : w ≠ x) : atCurrent x (nameExpr w) = nameExpr w := by
  unfold nameExpr
  split
  · rfl
  split
  · rfl
  split
  · rfl
  · exact if_neg h

/-- A point is the current value where no name follows. -/
theorem parsePrimary_dot {inner : Parser Expr} {position : Nat} (h : NotAtName ts) :
    parsePrimary inner ((position, .symbol .dot) :: ts) = .ok (.current, ts) := by
  rcases ts with _ | ⟨⟨next, t⟩, ts⟩
  · rfl
  · cases t with
    | name s => exact absurd rfl (h s _ rfl)
    | _ => rfl

section Levels

variable {inner : Parser Expr}
  (hinner : ReplaysUpTo x (UsesAsOperand x) (atCurrent x) inner)

include hinner

/-- An entry of a mapping is replayed unless its key is the name: a point is no key, so such an
entry would not be read. -/
theorem replaysUpTo_parseEntry :
    ReplaysUpTo x (fun entry => entry.1 ≠ x ∧ UsesAsOperand x entry.2) (Prod.map id (atCurrent x))
      (parseEntry inner) := by
  -- The value after a key that is told.
  have hvalue : ∀ {key : String} {ts ts' : Tokens} {entry : String × Expr} {rest : Tokens},
      Pointed x ts ts' → UsesAsOperand x entry.2 → NotAt x rest →
      (expect .colon ts >>= fun ts => inner ts >>= fun read => .ok ((key, read.1), read.2)) =
          (.ok (entry, rest) : Except SyntaxError ((String × Expr) × Tokens)) →
      ∃ rest', (expect .colon ts' >>= fun ts => inner ts >>= fun read =>
          .ok ((key, read.1), read.2)) =
            (.ok (Prod.map id (atCurrent x) entry, rest') :
              Except SyntaxError ((String × Expr) × Tokens)) ∧
        entry.1 = key ∧ Pointed x rest rest' := by
    intro key ts ts' entry rest hts huses hat h
    obtain ⟨ts₁, hcolon, h⟩ := exists_of_bind h
    obtain ⟨⟨value, ts₂⟩, hread, h⟩ := exists_of_bind h
    obtain ⟨rfl, rfl⟩ := Prod.mk.inj (Except.ok.inj h)
    obtain ⟨ts₁', hcolon', hts₁⟩ := expect_of_pointed hts hcolon
    obtain ⟨ts₂', hread', hts₂⟩ := hinner hts₁ hread huses hat
    refine ⟨ts₂', ?_, rfl, hts₂⟩
    rw [hcolon']
    show (inner ts₁' >>= _) = _
    rw [hread']
    rfl
  intro ts ts' entry rest hts h huses hat
  unfold parseEntry at h
  split at h
  · obtain ⟨position', rest', rfl, hrest, -⟩ := hts.exists_cons
    obtain ⟨rest'', hread, hkey, hpointed⟩ := hvalue hrest huses.2 hat h
    rw [pointFor_of_ne fun he => huses.1 (hkey.trans (Token.name.inj he))]
    exact ⟨rest'', hread, hpointed⟩
  · obtain ⟨position', rest', rfl, hrest, -⟩ := hts.exists_cons
    obtain ⟨rest'', hread, -, hpointed⟩ := hvalue hrest huses.2 hat h
    exact ⟨rest'', hread, hpointed⟩
  · exact nomatch h

/-- A primary expression is replayed: a point that stands where an expression begins, and that no
name follows, is read as the current value. -/
theorem replays_parsePrimary (hx : IsFreeName x) :
    Replays x (UsesAsOperand x) (atCurrent x) (parsePrimary inner) := by
  intro ts ts' e rest hts h huses
  unfold parsePrimary at h
  split at h
  · exact nomatch h
  · obtain ⟨rfl, rfl⟩ := Prod.mk.inj (Except.ok.inj h)
    obtain ⟨position', rest', rfl, hrest, -⟩ := hts.exists_cons
    exact ⟨rest', rfl, hrest⟩
  · obtain ⟨rfl, rfl⟩ := Prod.mk.inj (Except.ok.inj h)
    obtain ⟨position', rest', rfl, hrest, -⟩ := hts.exists_cons
    exact ⟨rest', rfl, hrest⟩
  · obtain ⟨rfl, rfl⟩ := Prod.mk.inj (Except.ok.inj h)
    obtain ⟨position', rest', rfl, hrest, -⟩ := hts.exists_cons
    exact ⟨rest', rfl, hrest⟩
  -- A name, the one case in which the tokens change.
  · obtain ⟨rfl, rfl⟩ := Prod.mk.inj (Except.ok.inj h)
    obtain ⟨position', rest', rfl, hrest, hnext⟩ := hts.exists_cons
    rename_i position w rest
    by_cases hw : w = x
    · subst hw
      refine ⟨rest', ?_, hrest⟩
      rw [pointFor_name_self, nameExpr_of_isFreeName hx, atCurrent, if_pos rfl]
      exact parsePrimary_dot (hrest.notAtName fun found hfound => hnext found hfound rfl)
    · rw [pointFor_of_ne fun he => hw (Token.name.inj he), atCurrent_nameExpr hw]
      exact ⟨rest', rfl, hrest⟩
  -- A member of the current value: its name is not the one in question.
  · obtain ⟨rfl, rfl⟩ := Prod.mk.inj (Except.ok.inj h)
    rename_i position at₁ w rest
    obtain ⟨position', rest', rfl, hrest, -⟩ := hts.exists_cons
    obtain ⟨at₁', rest'', rfl, hrest, -⟩ := hrest.exists_cons
    have hw : w ≠ x := by
      cases huses with
      | member _ hw => exact hw
    rw [pointFor_of_ne fun he => hw (Token.name.inj he)]
    exact ⟨rest'', rfl, hrest⟩
  -- The current value: no name follows, and pointing the tokens puts none there.
  · obtain ⟨rfl, rfl⟩ := Prod.mk.inj (Except.ok.inj h)
    rename_i position rest hname
    obtain ⟨position', rest', rfl, hrest, -⟩ := hts.exists_cons
    refine ⟨rest', parsePrimary_dot (hrest.notAtName fun found hfound s he => ?_), hrest⟩
    exact absurd he (notAtName_of_ne hname s found hfound)
  -- An expression in parentheses, then a list and a mapping.
  · obtain ⟨⟨e', ts₁⟩, hread, h⟩ := exists_of_bind h
    obtain ⟨ts₂, hclose, h⟩ := exists_of_bind h
    obtain ⟨rfl, rfl⟩ := Prod.mk.inj (Except.ok.inj h)
    obtain ⟨position', rest', rfl, hrest, -⟩ := hts.exists_cons
    obtain ⟨ts₁', hread', hts₁⟩ := hinner hrest hread huses (notAt_of_expect hclose)
    obtain ⟨ts₂', hclose', hts₂⟩ := expect_of_pointed hts₁ hclose
    refine ⟨ts₂', ?_, hts₂⟩
    simp only [Token.pointFor, parsePrimary, hread', hclose', bind, Except.bind]
  · obtain ⟨⟨items, ts₁⟩, hread, h⟩ := exists_of_bind h
    obtain ⟨rfl, rfl⟩ := Prod.mk.inj (Except.ok.inj h)
    obtain ⟨position', rest', rfl, hrest, -⟩ := hts.exists_cons
    have hitems : ∀ e ∈ items, UsesAsOperand x e := by
      cases huses with
      | array hitems => exact hitems
    obtain ⟨ts₁', hread', hts₁⟩ := replays_parseList hinner (by decide) hrest hread hitems
    refine ⟨ts₁', ?_, hts₁⟩
    simp only [Token.pointFor, parsePrimary, hread', bind, Except.bind, atCurrent,
      itemsAtCurrent_eq_map]
  · obtain ⟨⟨entries, ts₁⟩, hread, h⟩ := exists_of_bind h
    obtain ⟨rfl, rfl⟩ := Prod.mk.inj (Except.ok.inj h)
    obtain ⟨position', rest', rfl, hrest, -⟩ := hts.exists_cons
    have hentries : ∀ entry ∈ entries, entry.1 ≠ x ∧ UsesAsOperand x entry.2 := by
      cases huses with
      | mapping hkeys hvalues =>
          exact fun entry hentry => ⟨hkeys entry hentry, hvalues entry hentry⟩
    obtain ⟨ts₁', hread', hts₁⟩ :=
      replays_parseList (replaysUpTo_parseEntry hinner) (by decide) hrest hread hentries
    refine ⟨ts₁', ?_, hts₁⟩
    simp only [Token.pointFor, parsePrimary, hread', bind, Except.bind, atCurrent,
      entriesAtCurrent_eq_map]
  · cases h

omit hinner in
/-- An expression is a part of what suffixes make of it. So a condition on the whole is one on the
expression that the suffixes begin with. -/
theorem usesAsOperand_of_parseSuffixes {bound : Nat} {e e' : Expr} {rest : Tokens}
    (h : parseSuffixes inner bound e ts = .ok (e', rest)) (huses : UsesAsOperand x e') :
    UsesAsOperand x e := by
  induction bound generalizing e ts with
  | zero =>
      obtain ⟨rfl, -⟩ := Prod.mk.inj (Except.ok.inj h)
      exact huses
  | succ bound ih =>
      unfold parseSuffixes at h
      split at h
      · obtain ⟨⟨field, ts₁⟩, -, h⟩ := exists_of_bind h
        cases ih h with
        | member he _ => exact he
      · obtain ⟨⟨key, ts₁⟩, -, h⟩ := exists_of_bind h
        obtain ⟨ts₂, -, h⟩ := exists_of_bind h
        cases ih h with
        | index he _ => exact he
      · split at h
        · exact .name _
        · cases h
      · obtain ⟨rfl, -⟩ := Prod.mk.inj (Except.ok.inj h)
        exact huses

/-- The members, the keys and the calls after a primary expression are replayed. The induction is on
the bound of the loop, with the expression read so far left free. -/
theorem replaysUpTo_parseSuffixes (bound : Nat) {e e' : Expr} {rest : Tokens}
    (hts : Pointed x ts ts') (h : parseSuffixes inner bound e ts = .ok (e', rest))
    (huses : UsesAsOperand x e') (hat : NotAt x rest) :
    ∃ rest', parseSuffixes inner bound (atCurrent x e) ts' = .ok (atCurrent x e', rest') ∧
      Pointed x rest rest' := by
  induction bound generalizing e ts ts' with
  | zero =>
      obtain ⟨rfl, rfl⟩ := Prod.mk.inj (Except.ok.inj h)
      exact ⟨ts', rfl, hts⟩
  | succ bound ih =>
      rcases ts with _ | ⟨⟨position, t⟩, ts⟩
      · obtain ⟨rfl, rfl⟩ := Prod.mk.inj (Except.ok.inj h)
        obtain rfl := hts.eq_nil
        exact ⟨[], rfl, hts⟩
      obtain ⟨position', rest', rfl, htail, -⟩ := hts.exists_cons
      cases t with
      | symbol s =>
          cases s with
          -- Each suffix is replayed with the expression read so far as its base.
          | dot =>
              obtain ⟨⟨field, ts₁⟩, hread, h⟩ := exists_of_bind h
              obtain ⟨-, hfield⟩ : UsesAsOperand x e ∧ field ≠ x := by
                cases usesAsOperand_of_parseSuffixes h huses with
                | member he hfield => exact ⟨he, hfield⟩
              obtain ⟨ts₁', hread', hts₁⟩ := replays_parseMemberName htail hread hfield
              obtain ⟨rest'', hmore, hrest⟩ := ih hts₁ h
              refine ⟨rest'', ?_, hrest⟩
              simp only [Token.pointFor, parseSuffixes, hread', bind, Except.bind]
              exact hmore
          | openBracket =>
              obtain ⟨⟨key, ts₁⟩, hread, h⟩ := exists_of_bind h
              obtain ⟨ts₂, hclose, h⟩ := exists_of_bind h
              have hkey : UsesAsOperand x key := by
                cases usesAsOperand_of_parseSuffixes h huses with
                | index _ hkey => exact hkey
              obtain ⟨ts₁', hread', hts₁⟩ := hinner htail hread hkey (notAt_of_expect hclose)
              obtain ⟨ts₂', hclose', hts₂⟩ := expect_of_pointed hts₁ hclose
              obtain ⟨rest'', hmore, hrest⟩ := ih hts₂ h
              refine ⟨rest'', ?_, hrest⟩
              simp only [Token.pointFor, parseSuffixes, hread', hclose', bind, Except.bind]
              exact hmore
          | openParen =>
              cases e with
              | name f =>
                  obtain ⟨⟨args, ts₁⟩, hread, h⟩ := exists_of_bind h
                  obtain ⟨hf, hargs⟩ : f ≠ x ∧ ∀ arg ∈ args, UsesAsOperand x arg := by
                    cases usesAsOperand_of_parseSuffixes h huses with
                    | call hf hargs => exact ⟨hf, hargs⟩
                  obtain ⟨ts₁', hread', hts₁⟩ :=
                    replays_parseList hinner (by decide) htail hread hargs
                  obtain ⟨rest'', hmore, hrest⟩ := ih hts₁ h
                  refine ⟨rest'', ?_, hrest⟩
                  simp only [Token.pointFor, atCurrent, if_neg hf, parseSuffixes, hread', bind,
                    Except.bind]
                  rw [← itemsAtCurrent_eq_map]
                  exact hmore
              | _ => cases h
          -- Any other symbol ends the suffixes on both sides.
          | _ =>
              obtain ⟨rfl, rfl⟩ := Prod.mk.inj (Except.ok.inj h)
              exact ⟨_, rfl, hts⟩
      -- Where the tokens stop at the name, a point would be read as the start of a suffix; `hat`
      -- excludes this.
      | name s =>
          obtain ⟨rfl, rfl⟩ := Prod.mk.inj (Except.ok.inj h)
          rw [pointFor_of_ne (hat _ rfl)] at hts ⊢
          exact ⟨_, rfl, hts⟩
      | _ =>
          obtain ⟨rfl, rfl⟩ := Prod.mk.inj (Except.ok.inj h)
          exact ⟨_, rfl, hts⟩

omit hinner in
/-- Prefix operators do not change where the name is used. -/
theorem usesAsOperand_of_foldr {ops : List UnaryOp} {e : Expr}
    (h : UsesAsOperand x (ops.foldr .unary e)) : UsesAsOperand x e := by
  induction ops with
  | nil => exact h
  | cons op ops ih =>
      cases h with
      | unary _ h => exact ih h

omit hinner in
/-- The current value is put in behind the prefix operators. -/
theorem atCurrent_foldr (ops : List UnaryOp) (e : Expr) :
    atCurrent x (ops.foldr .unary e) = ops.foldr .unary (atCurrent x e) := by
  induction ops with
  | nil => rfl
  | cons op ops ih => rw [List.foldr_cons, atCurrent, ih, List.foldr_cons]

/-- An operand with its prefix operators and suffixes is replayed, each of the three parts for
itself. -/
theorem replaysUpTo_parseOperand (hx : IsFreeName x) :
    ReplaysUpTo x (UsesAsOperand x) (atCurrent x) (parseOperand inner) := by
  intro ts ts' e rest hts h huses hat
  obtain ⟨hops, hpointed⟩ := takePrefixOps_of_pointed hx hts
  unfold parseOperand at h ⊢
  generalize takePrefixOps ts = found at h hops hpointed
  generalize takePrefixOps ts' = found' at hops hpointed ⊢
  obtain ⟨ops, ts₁⟩ := found
  obtain ⟨ops', ts₁'⟩ := found'
  obtain rfl : ops' = ops := hops
  dsimp only at h hpointed ⊢
  obtain ⟨⟨first, ts₂⟩, hprimary, h⟩ := exists_of_bind h
  obtain ⟨⟨operand, ts₃⟩, hsuffixes, h⟩ := exists_of_bind h
  obtain ⟨rfl, rfl⟩ := Prod.mk.inj (Except.ok.inj h)
  have hoperand : UsesAsOperand x operand := usesAsOperand_of_foldr huses
  obtain ⟨ts₂', hprimary', hts₂⟩ := replays_parsePrimary hinner hx hpointed hprimary
    (usesAsOperand_of_parseSuffixes hsuffixes hoperand)
  obtain ⟨rest', hsuffixes', hrest⟩ :=
    replaysUpTo_parseSuffixes hinner _ hts₂ hsuffixes hoperand hat
  refine ⟨rest', ?_, hrest⟩
  rw [hprimary', atCurrent_foldr]
  show (parseSuffixes inner ts₂'.length (atCurrent x first) ts₂' >>= _) = _
  rw [hts₂.length_eq, hsuffixes']
  rfl

end Levels

/-- The name is not a binary operator. -/
theorem binaryOp?_name (hx : IsFreeName x) : binaryOp? (.name x) = none := by
  have hwords := hx.2
  simp only [reservedWords, List.mem_cons, not_or] at hwords
  obtain ⟨-, -, -, -, -, hand, hor, hin, -⟩ := hwords
  simp [binaryOp?, hand, hor, hin]

section Climbing

variable {operand : Parser Expr}

/-- An operand is a part of what it is joined to, however many operators follow it. -/
theorem usesAsOperand_of_climbFrom {bound loosest : Nat} {left e : Expr} {rest : Tokens}
    (h : climbFrom operand bound loosest left ts = .ok (e, rest)) (huses : UsesAsOperand x e) :
    UsesAsOperand x left := by
  induction bound generalizing left ts with
  | zero =>
      unfold climbFrom at h
      obtain ⟨rfl, -⟩ := Prod.mk.inj (Except.ok.inj h)
      exact huses
  | succ bound ih =>
      rcases ts with _ | ⟨⟨position, token⟩, ts⟩
      · obtain ⟨rfl, -⟩ := Prod.mk.inj (Except.ok.inj h)
        exact huses
      unfold climbFrom at h
      split at h
      · obtain ⟨rfl, -⟩ := Prod.mk.inj (Except.ok.inj h)
        exact huses
      split at h
      · obtain ⟨rfl, -⟩ := Prod.mk.inj (Except.ok.inj h)
        exact huses
      obtain ⟨⟨right, ts₁⟩, -, h⟩ := exists_of_bind h
      cases ih h with
      | binary _ hleft _ => exact hleft

/-- Joining stops in front of the name. -/
theorem notAt_of_climbFrom (hx : IsFreeName x) {bound loosest : Nat} {left e : Expr} {rest : Tokens}
    (h : climbFrom operand bound loosest left ts = .ok (e, rest)) (hat : NotAt x rest) :
    NotAt x ts := by
  intro found hfound he
  rcases ts with _ | ⟨⟨position, token⟩, ts⟩
  · exact nomatch hfound
  obtain rfl := Option.some.inj hfound
  obtain rfl : token = .name x := he
  have hstop : climbFrom operand bound loosest left ((position, .name x) :: ts) =
      .ok (left, (position, .name x) :: ts) := by
    cases bound with
    | zero => rw [climbFrom]
    | succ bound => rw [climbFrom, binaryOp?_name hx]
  obtain ⟨-, rfl⟩ := Prod.mk.inj (Except.ok.inj (hstop.symm.trans h))
  exact hat _ rfl rfl

/-- Operands are joined as they were. Climbing and going on from a left operand call each other, so
both are replayed by one induction on their bound. -/
theorem replaysUpTo_climb (hx : IsFreeName x)
    (hoperand : ReplaysUpTo x (UsesAsOperand x) (atCurrent x) operand) (bound : Nat) :
    (∀ loosest, ReplaysUpTo x (UsesAsOperand x) (atCurrent x) (climb operand bound loosest)) ∧
      ∀ {loosest left ts ts' e rest}, Pointed x ts ts' →
        climbFrom operand bound loosest left ts = .ok (e, rest) → UsesAsOperand x e →
        NotAt x rest → ∃ rest', climbFrom operand bound loosest (atCurrent x left) ts' =
          .ok (atCurrent x e, rest') ∧ Pointed x rest rest' := by
  -- Where climbing stops, it stops on both sides.
  have hdone : ∀ {left e : Expr} {ts ts' rest : Tokens}, Pointed x ts ts' →
      (.ok (left, ts) : Except SyntaxError (Expr × Tokens)) = .ok (e, rest) →
      ∃ rest', (.ok (atCurrent x left, ts') : Except SyntaxError (Expr × Tokens)) =
        .ok (atCurrent x e, rest') ∧ Pointed x rest rest' := by
    intro left e ts ts' rest hts h
    obtain ⟨rfl, rfl⟩ := Prod.mk.inj (Except.ok.inj h)
    exact ⟨ts', rfl, hts⟩
  induction bound with
  | zero =>
      constructor
      · exact fun _ _ _ _ _ _ h => nomatch h
      · intro loosest left ts ts' e rest hts h _ _
        unfold climbFrom at h ⊢
        exact hdone hts h
  | succ bound ih =>
      obtain ⟨ihclimb, ihfrom⟩ := ih
      constructor
      · intro loosest ts ts' e rest hts h huses hat
        obtain ⟨⟨left, ts₁⟩, hread, h⟩ := exists_of_bind h
        obtain ⟨ts₁', hread', hts₁⟩ := hoperand hts hread (usesAsOperand_of_climbFrom h huses)
          (notAt_of_climbFrom hx h hat)
        obtain ⟨rest', hmore, hrest⟩ := ihfrom hts₁ h huses hat
        refine ⟨rest', ?_, hrest⟩
        rw [climb, hread']
        exact hmore
      · intro loosest left ts ts' e rest hts h huses hat
        rcases ts with _ | ⟨⟨position, token⟩, ts⟩
        · obtain rfl := hts.eq_nil
          exact hdone hts h
        -- An operator follows, or climbing stops; in both cases the next token is not the name.
        have htoken : token ≠ .name x := notAt_of_climbFrom hx h hat _ rfl
        obtain ⟨position', rest', rfl, htail, -⟩ := hts.exists_cons
        rw [pointFor_of_ne htoken] at hts ⊢
        unfold climbFrom at h ⊢
        split at h
        · exact hdone hts h
        rename_i op hop
        split at h
        · rename_i hprecedence
          rw [if_pos hprecedence]
          exact hdone hts h
        rename_i hprecedence
        rw [if_neg hprecedence]
        -- The right operand is climbed to first, and then the loop goes on with the whole as its
        -- left one.
        obtain ⟨⟨right, ts₁⟩, hread, h⟩ := exists_of_bind h
        have hright : UsesAsOperand x right := by
          cases usesAsOperand_of_climbFrom h huses with
          | binary _ _ hright => exact hright
        obtain ⟨ts₁', hread', hts₁⟩ := ihclimb _ htail hread hright (notAt_of_climbFrom hx h hat)
        obtain ⟨rest'', hmore, hrest⟩ := ihfrom hts₁ h huses hat
        refine ⟨rest'', ?_, hrest⟩
        dsimp only
        rw [hread']
        exact hmore

end Climbing

/-- A whole expression is replayed if the expressions one level deeper are. The levels are those of
brackets, which is where the parser calls itself. -/
theorem replaysUpTo_parseChoiceWith (hx : IsFreeName x) {inner : Parser Expr}
    (hinner : ReplaysUpTo x (UsesAsOperand x) (atCurrent x) inner) :
    ReplaysUpTo x (UsesAsOperand x) (atCurrent x) (parseChoiceWith inner) := by
  intro ts ts' e rest hts h huses hat
  have hclimb : ReplaysUpTo x (UsesAsOperand x) (atCurrent x)
      (climb (parseOperand inner) (2 * ts.length + 2) 0) :=
    (replaysUpTo_climb hx (replaysUpTo_parseOperand hinner hx) _).1 0
  obtain ⟨⟨condition, ts₁⟩, hread, h⟩ := exists_of_bind h
  dsimp only at h
  split at h
  · rename_i hquestion
    obtain ⟨rfl, rfl⟩ := Prod.mk.inj (Except.ok.inj h)
    obtain ⟨ts₁', hread', hts₁⟩ := hclimb hts hread huses hat
    have hquestion' := skipSymbol?_eq_none_of_pointed (by decide) hts₁ hquestion
    refine ⟨ts₁', ?_, hts₁⟩
    simp only [parseChoiceWith, hts.length_eq, hread', hquestion', bind, Except.bind]
  · rename_i ts₂ hquestion
    obtain ⟨⟨yes, ts₃⟩, hyes, h⟩ := exists_of_bind h
    obtain ⟨ts₄, hcolon, h⟩ := exists_of_bind h
    obtain ⟨⟨no, ts₅⟩, hno, h⟩ := exists_of_bind h
    obtain ⟨rfl, rfl⟩ := Prod.mk.inj (Except.ok.inj h)
    obtain ⟨hcondition, husesYes, husesNo⟩ :
        UsesAsOperand x condition ∧ UsesAsOperand x yes ∧ UsesAsOperand x no := by
      cases huses with
      | choice hcondition hyes hno => exact ⟨hcondition, hyes, hno⟩
    obtain ⟨ts₁', hread', hts₁⟩ := hclimb hts hread hcondition (notAt_of_skipSymbol? hquestion)
    obtain ⟨ts₂', hquestion', hts₂⟩ := skipSymbol?_of_pointed hts₁ hquestion
    obtain ⟨ts₃', hyes', hts₃⟩ := hinner hts₂ hyes husesYes (notAt_of_expect hcolon)
    obtain ⟨ts₄', hcolon', hts₄⟩ := expect_of_pointed hts₃ hcolon
    obtain ⟨ts₅', hno', hts₅⟩ := hinner hts₄ hno husesNo hat
    refine ⟨ts₅', ?_, hts₅⟩
    simp only [parseChoiceWith, hts.length_eq, hread', hquestion', hyes', hcolon', hno', bind,
      Except.bind, atCurrent]

/-- A whole expression is replayed at every depth of nesting. -/
theorem replaysUpTo_parseChoice (hx : IsFreeName x) (depth : Nat) :
    ReplaysUpTo x (UsesAsOperand x) (atCurrent x) (parseChoice depth) := by
  induction depth with
  | zero => exact fun _ h => nomatch h
  | succ depth ih => exact replaysUpTo_parseChoiceWith hx ih

/-- Pointed tokens are an expression with the current value for the name. The parser is followed
from the whole expression down to its operands, with what each stage leaves being pointed again. -/
theorem ofTokens_of_pointed (hx : IsFreeName x) (hts : Pointed x ts ts') {e : Expr}
    (h : ofTokens ts = .ok e) (huses : UsesAsOperand x e) : ofTokens ts' = .ok (atCurrent x e) := by
  unfold ofTokens at h
  split at h
  · exact nomatch h
  rename_i hempty
  obtain ⟨⟨e', rest⟩, hread, h⟩ := exists_of_bind h
  rcases rest with _ | ⟨t, rest⟩
  · obtain rfl := Except.ok.inj h
    obtain ⟨rest', hread', hrest⟩ :=
      replaysUpTo_parseChoice hx _ hts hread huses fun _ hfound => nomatch hfound
    obtain rfl := hrest.eq_nil
    have hempty' : ¬ ts'.isEmpty = true := by
      rwa [List.isEmpty_iff_length_eq_zero, hts.length_eq, ← List.isEmpty_iff_length_eq_zero]
    rw [ofTokens, if_neg hempty', hts.length_eq, hread']
    rfl
  · exact nomatch h

end Stencil.Expr
