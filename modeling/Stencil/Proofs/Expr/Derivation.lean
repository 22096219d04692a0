import Stencil.Proofs.Expr.Position

/-!
# Derivations of expressions

The grammar as a relation between syntax trees and lists of tokens.

## Main definitions

* `Derives` — the tokens that an expression can be written as, whatever its operators bind
* `Takes` — what a parser reads is related to the tokens that it takes off

## Main results

* `derives_of_ofTokens` — the expression that tokens are read as derives them
* `derives_of_parse` — and so does the expression of a text

## Design notes

Precedence plays no part in the relation, so one list of tokens may be derived from several trees.
What all lists of tokens of expressions have in common is shown by induction on a derivation, which
has one case for each form of an expression and none for the loops and bounds of the parsers.
-/

namespace Stencil.Expr

/-- Lists of tokens with commas between them. -/
def commaSeparated (parts : List (List Token)) : List Token :=
  [Token.symbol .comma].intercalate parts

/-- The name that a token after a point stands for. -/
def memberName? : Token → Option String
  | .name w => some w
  | .int i => some (toString i.toInt)
  | _ => none

/-- The key that a token before a colon stands for. -/
def entryKey? : Token → Option String
  | .name key | .str key => some key
  | _ => none

/-- The entry of a mapping, with the token of its key and the tokens of its value. -/
structure DerivedEntry where
  key : String
  keyToken : Token
  value : Expr
  tokens : List Token

/-- The tokens of an entry of a mapping. -/
def DerivedEntry.allTokens (entry : DerivedEntry) : List Token :=
  entry.keyToken :: .symbol .colon :: entry.tokens

/-- The tokens that an expression can be written as, whatever its operators bind. It is a grammar
without levels: enough to tell what the tokens of an expression are, and too wide to read one by. -/
inductive Derives : Expr → List Token → Prop where
  | int (i : Int64) : Derives (.literal (.int i)) [.int i]
  | float (x : Float) : Derives (.literal (.float x)) [.float x]
  | str (s : String) : Derives (.literal (.str s)) [.str s]
  | name (w : String) : Derives (nameExpr w) [.name w]
  | current : Derives .current [.symbol .dot]
  | currentMember (w : String) : Derives (.member .current w) [.symbol .dot, .name w]
  | parenthesized {e : Expr} {ts : List Token} : Derives e ts →
      Derives e (.symbol .openParen :: (ts ++ [.symbol .closeParen]))
  | array {items : List (Expr × List Token)} : (∀ item ∈ items, Derives item.1 item.2) →
      Derives (.array (items.map Prod.fst))
        (.symbol .openBracket :: (commaSeparated (items.map Prod.snd) ++ [.symbol .closeBracket]))
  | mapping {entries : List DerivedEntry} :
      (∀ entry ∈ entries, entryKey? entry.keyToken = some entry.key) →
      (∀ entry ∈ entries, Derives entry.value entry.tokens) →
      Derives (.mapping (entries.map fun entry => (entry.key, entry.value)))
        (.symbol .openBrace ::
          (commaSeparated (entries.map DerivedEntry.allTokens) ++ [.symbol .closeBrace]))
  | member {e : Expr} {ts : List Token} {field : String} {t : Token} : Derives e ts →
      memberName? t = some field → Derives (.member e field) (ts ++ [.symbol .dot, t])
  | index {e key : Expr} {ts ks : List Token} : Derives e ts → Derives key ks →
      Derives (.index e key) (ts ++ .symbol .openBracket :: (ks ++ [.symbol .closeBracket]))
  | call {f : String} {ts : List Token} {args : List (Expr × List Token)} : Derives (.name f) ts →
      (∀ arg ∈ args, Derives arg.1 arg.2) →
      Derives (.call f (args.map Prod.fst)) (ts ++
        .symbol .openParen :: (commaSeparated (args.map Prod.snd) ++ [.symbol .closeParen]))
  | plus {e : Expr} {t : Token} {ts : List Token} : prefixOp? t = some none → Derives e ts →
      Derives e (t :: ts)
  | unary {op : UnaryOp} {e : Expr} {t : Token} {ts : List Token} :
      prefixOp? t = some (some op) → Derives e ts → Derives (.unary op e) (t :: ts)
  | binary {op : BinaryOp} {a b : Expr} {t : Token} {as bs : List Token} :
      binaryOp? t = some op → Derives a as → Derives b bs → Derives (.binary op a b) (as ++ t :: bs)
  | choice {condition yes no : Expr} {cs ys ns : List Token} : Derives condition cs →
      Derives yes ys → Derives no ns →
      Derives (.choice condition yes no)
        (cs ++ .symbol .question :: (ys ++ .symbol .colon :: ns))

theorem Derives.ne_nil {e : Expr} {ts : List Token} (h : Derives e ts) : ts ≠ [] := by
  cases h with
  | member _ _ => exact List.append_ne_nil_of_right_ne_nil _ (List.cons_ne_nil _ _)
  | index _ _ => exact List.append_ne_nil_of_right_ne_nil _ (List.cons_ne_nil _ _)
  | call _ _ => exact List.append_ne_nil_of_right_ne_nil _ (List.cons_ne_nil _ _)
  | binary _ _ _ => exact List.append_ne_nil_of_right_ne_nil _ (List.cons_ne_nil _ _)
  | choice _ _ _ => exact List.append_ne_nil_of_right_ne_nil _ (List.cons_ne_nil _ _)
  | _ => exact List.cons_ne_nil _ _

/-! ### Steps of parsers -/

variable {α : Type} {ts rest : Tokens}

/-- The tokens of a list without their positions. -/
abbrev Tokens.words (ts : Tokens) : List Token := ts.map Prod.snd

/-- What a parser reads is related to the tokens that it takes off. The relation is a parameter, so
that one walk through the parsers serves derivations, depths and counts alike. -/
def Takes (R : α → List Token → Prop) (p : Parser α) : Prop :=
  ∀ {ts a rest}, p ts = .ok (a, rest) → ∃ used, R a used ∧ ts.words = used ++ rest.words

theorem words_of_skipSymbol? {s : Symbol} (h : skipSymbol? s ts = some rest) :
    ts.words = .symbol s :: rest.words := by
  unfold skipSymbol? at h
  split at h
  · split at h
    · rename_i hs
      obtain rfl := Option.some.inj h
      rw [hs]
      rfl
    · exact nomatch h
  · exact nomatch h

theorem words_of_expect {s : Symbol} (h : expect s ts = .ok rest) :
    ts.words = .symbol s :: rest.words := by
  unfold expect at h
  split at h
  · rename_i found hskip
    obtain rfl := Except.ok.inj h
    exact words_of_skipSymbol? hskip
  · exact nomatch h

theorem takes_parseMemberName :
    Takes (fun field used => ∃ t, memberName? t = some field ∧ used = [t]) parseMemberName := by
  intro ts field rest h
  unfold parseMemberName at h
  split at h
  · obtain ⟨rfl, rfl⟩ := Prod.mk.inj (Except.ok.inj h)
    exact ⟨_, ⟨_, rfl, rfl⟩, rfl⟩
  · obtain ⟨rfl, rfl⟩ := Prod.mk.inj (Except.ok.inj h)
    exact ⟨_, ⟨_, rfl, rfl⟩, rfl⟩
  · exact nomatch h

/-! ### Lists -/

section Lists

variable {R : α → List Token → Prop} {item : Parser α} {close : Symbol} {as : List α}

/-- Items in a list, each with the tokens it was read from. -/
def ItemsOf (R : α → List Token → Prop) (close : Symbol) (as : List α) (used : List Token) : Prop :=
  ∃ items : List (α × List Token), (∀ i ∈ items, R i.1 i.2) ∧ as = items.map Prod.fst ∧
    used = commaSeparated (items.map Prod.snd) ++ [.symbol close]

theorem takes_parseItems (hitem : Takes R item) (close : Symbol) (bound : Nat) :
    Takes (fun as used => as ≠ [] ∧ ItemsOf R close as used) (parseItems item close bound) := by
  induction bound with
  | zero => exact fun h => nomatch h
  | succ bound ih =>
      intro ts as rest h
      obtain ⟨⟨first, ts₁⟩, hfirst, h⟩ := exists_of_bind h
      obtain ⟨used₁, hused₁, hwords₁⟩ := hitem hfirst
      dsimp only at h
      split at h
      · rename_i found hskip
        obtain ⟨rfl, rfl⟩ := Prod.mk.inj (Except.ok.inj h)
        refine ⟨used₁ ++ [.symbol close], ⟨List.cons_ne_nil _ _, [(first, used₁)], ?_, rfl, ?_⟩, ?_⟩
        · exact List.forall_mem_singleton.2 hused₁
        · rw [commaSeparated, List.map_singleton, List.intercalate_singleton]
        · rw [hwords₁, words_of_skipSymbol? hskip, List.append_assoc]
          rfl
      · obtain ⟨ts₂, hcomma, h⟩ := exists_of_bind h
        obtain ⟨⟨others, ts₃⟩, hothers, h⟩ := exists_of_bind h
        obtain ⟨rfl, rfl⟩ := Prod.mk.inj (Except.ok.inj h)
        obtain ⟨used₂, ⟨hne, items, hitems, rfl, rfl⟩, hwords₂⟩ := ih hothers
        refine ⟨_, ⟨List.cons_ne_nil _ _, (first, used₁) :: items, ?_, rfl, rfl⟩, ?_⟩
        · exact List.forall_mem_cons.2 ⟨hused₁, hitems⟩
        · rcases items with _ | ⟨second, items⟩
          · exact absurd rfl hne
          · rw [hwords₁, words_of_expect hcomma, hwords₂]
            simp only [commaSeparated, List.map_cons, List.intercalate_cons_cons, List.append_assoc,
              List.cons_append, List.nil_append]

theorem takes_parseList (hitem : Takes R item) (close : Symbol) :
    Takes (ItemsOf R close) (parseList item close) := by
  intro ts as rest h
  unfold parseList at h
  split at h
  · rename_i found hskip
    obtain ⟨rfl, rfl⟩ := Prod.mk.inj (Except.ok.inj h)
    exact ⟨_, ⟨[], List.forall_mem_nil _, rfl, rfl⟩, words_of_skipSymbol? hskip⟩
  · obtain ⟨used, ⟨-, hitems⟩, hwords⟩ := takes_parseItems hitem close _ h
    exact ⟨used, hitems, hwords⟩

end Lists

/-! ### Levels of the grammar -/

section Levels

variable {inner : Parser Expr} (hinner : Takes Derives inner)

include hinner

theorem takes_parseEntry :
    Takes (fun entry used => ∃ t ks, entryKey? t = some entry.1 ∧ Derives entry.2 ks ∧
      used = t :: .symbol .colon :: ks) (parseEntry inner) := by
  have hvalue : ∀ {key : String} {ts : Tokens} {entry : String × Expr} {rest : Tokens},
      (do
        let read ← inner (← expect .colon ts)
        .ok ((key, read.1), read.2) : Except SyntaxError ((String × Expr) × Tokens)) =
          .ok (entry, rest) →
      ∃ ks, key = entry.1 ∧ Derives entry.2 ks ∧ ts.words = .symbol .colon :: ks ++ rest.words := by
    intro key ts entry rest h
    obtain ⟨ts₁, hcolon, h⟩ := exists_of_bind h
    obtain ⟨⟨value, ts₂⟩, hread, h⟩ := exists_of_bind h
    obtain ⟨rfl, rfl⟩ := Prod.mk.inj (Except.ok.inj h)
    obtain ⟨ks, hks, hwords⟩ := hinner hread
    exact ⟨ks, rfl, hks, by rw [words_of_expect hcolon, hwords]; rfl⟩
  intro ts entry rest h
  unfold parseEntry at h
  split at h
  · obtain ⟨ks, rfl, hks, hwords⟩ := hvalue h
    exact ⟨_, ⟨_, ks, rfl, hks, rfl⟩, congrArg (_ :: ·) hwords⟩
  · obtain ⟨ks, rfl, hks, hwords⟩ := hvalue h
    exact ⟨_, ⟨_, ks, rfl, hks, rfl⟩, congrArg (_ :: ·) hwords⟩
  · exact nomatch h

omit hinner in
/-- Entries that were read one by one make a mapping. Keys and values come in pairs of lists there,
which are put together again. -/
theorem derives_mapping {entries : List (String × Expr)} {used : List Token}
    (h : ItemsOf (fun entry used => ∃ t ks, entryKey? t = some entry.1 ∧ Derives entry.2 ks ∧
      used = t :: .symbol .colon :: ks) .closeBrace entries used) :
    Derives (.mapping entries) (.symbol .openBrace :: used) := by
  obtain ⟨items, hitems, rfl, rfl⟩ := h
  obtain ⟨derived, hkeys, hvalues, hentries, htokens⟩ : ∃ derived : List DerivedEntry,
      (∀ entry ∈ derived, entryKey? entry.keyToken = some entry.key) ∧
      (∀ entry ∈ derived, Derives entry.value entry.tokens) ∧
      derived.map (fun entry => (entry.key, entry.value)) = items.map Prod.fst ∧
      derived.map DerivedEntry.allTokens = items.map Prod.snd := by
    induction items with
    | nil => exact ⟨[], List.forall_mem_nil _, List.forall_mem_nil _, rfl, rfl⟩
    | cons item items ih =>
        obtain ⟨⟨t, ks, hkey, hks, htokens⟩, hitems⟩ := List.forall_mem_cons.1 hitems
        obtain ⟨derived, hkeys, hvalues, hentries, hall⟩ := ih hitems
        refine ⟨⟨item.1.1, t, item.1.2, ks⟩ :: derived, List.forall_mem_cons.2 ⟨hkey, hkeys⟩,
          List.forall_mem_cons.2 ⟨hks, hvalues⟩, ?_, ?_⟩
        · rw [List.map_cons, List.map_cons, hentries]
        · rw [List.map_cons, List.map_cons, hall, htokens]
          rfl
  rw [← hentries, ← htokens]
  exact .mapping hkeys hvalues

theorem takes_parsePrimary : Takes Derives (parsePrimary inner) := by
  intro ts e rest h
  unfold parsePrimary at h
  split at h
  · exact nomatch h
  · obtain ⟨rfl, rfl⟩ := Prod.mk.inj (Except.ok.inj h)
    exact ⟨_, .int _, rfl⟩
  · obtain ⟨rfl, rfl⟩ := Prod.mk.inj (Except.ok.inj h)
    exact ⟨_, .float _, rfl⟩
  · obtain ⟨rfl, rfl⟩ := Prod.mk.inj (Except.ok.inj h)
    exact ⟨_, .str _, rfl⟩
  · obtain ⟨rfl, rfl⟩ := Prod.mk.inj (Except.ok.inj h)
    exact ⟨_, .name _, rfl⟩
  · obtain ⟨rfl, rfl⟩ := Prod.mk.inj (Except.ok.inj h)
    exact ⟨_, .currentMember _, rfl⟩
  · obtain ⟨rfl, rfl⟩ := Prod.mk.inj (Except.ok.inj h)
    exact ⟨_, .current, rfl⟩
  · obtain ⟨⟨e', ts₁⟩, hread, h⟩ := exists_of_bind h
    obtain ⟨ts₂, hclose, h⟩ := exists_of_bind h
    obtain ⟨rfl, rfl⟩ := Prod.mk.inj (Except.ok.inj h)
    obtain ⟨used, hused, hwords⟩ := hinner hread
    refine ⟨_, .parenthesized hused, congrArg (_ :: ·) (hwords.trans ?_)⟩
    rw [words_of_expect hclose]
    exact (List.append_assoc used [.symbol .closeParen] ts₂.words).symm
  · obtain ⟨⟨items, ts₁⟩, hread, h⟩ := exists_of_bind h
    obtain ⟨rfl, rfl⟩ := Prod.mk.inj (Except.ok.inj h)
    obtain ⟨used, ⟨items, hitems, rfl, rfl⟩, hwords⟩ := takes_parseList hinner .closeBracket hread
    exact ⟨_, .array hitems, congrArg (_ :: ·) hwords⟩
  · obtain ⟨⟨entries, ts₁⟩, hread, h⟩ := exists_of_bind h
    obtain ⟨rfl, rfl⟩ := Prod.mk.inj (Except.ok.inj h)
    obtain ⟨used, hentries, hwords⟩ := takes_parseList (takes_parseEntry hinner) .closeBrace hread
    exact ⟨_, derives_mapping hentries, congrArg (_ :: ·) hwords⟩
  · exact nomatch h

/-- Suffixes go on from the expression before them. The tokens of that expression stand in front of
those that the suffixes take. -/
theorem derives_of_parseSuffixes {bound : Nat} {e e' : Expr} {before : List Token}
    (hbefore : Derives e before) (h : parseSuffixes inner bound e ts = .ok (e', rest)) :
    ∃ used, Derives e' (before ++ used) ∧ ts.words = used ++ rest.words := by
  induction bound generalizing e before ts with
  | zero =>
      obtain ⟨rfl, rfl⟩ := Prod.mk.inj (Except.ok.inj h)
      exact ⟨[], by rwa [List.append_nil], rfl⟩
  | succ bound ih =>
      -- A suffix and those after it.
      have hnext : ∀ {e₁ : Expr} {suffix : List Token} {ts₁ : Tokens},
          Derives e₁ (before ++ suffix) → ts.words = suffix ++ ts₁.words →
          parseSuffixes inner bound e₁ ts₁ = .ok (e', rest) →
          ∃ used, Derives e' (before ++ used) ∧ ts.words = used ++ rest.words := by
        intro e₁ suffix ts₁ hsuffix hwords hmore
        obtain ⟨used, hused, hwords₁⟩ := ih hsuffix hmore
        refine ⟨suffix ++ used, by rwa [← List.append_assoc], ?_⟩
        rw [hwords, hwords₁, List.append_assoc]
      unfold parseSuffixes at h
      split at h
      · obtain ⟨⟨field, ts₁⟩, hread, h⟩ := exists_of_bind h
        obtain ⟨used, ⟨t, ht, rfl⟩, hwords⟩ := takes_parseMemberName hread
        exact hnext (.member hbefore ht) (congrArg (_ :: ·) hwords) h
      · obtain ⟨⟨key, ts₁⟩, hread, h⟩ := exists_of_bind h
        obtain ⟨ts₂, hclose, h⟩ := exists_of_bind h
        obtain ⟨ks, hks, hwords⟩ := hinner hread
        refine hnext (.index hbefore hks) (congrArg (_ :: ·) (hwords.trans ?_)) h
        rw [words_of_expect hclose]
        exact (List.append_assoc ks [.symbol .closeBracket] ts₂.words).symm
      · split at h
        · obtain ⟨⟨args, ts₁⟩, hread, h⟩ := exists_of_bind h
          obtain ⟨used, ⟨args, hargs, rfl, rfl⟩, hwords⟩ :=
            takes_parseList hinner .closeParen hread
          exact hnext (.call hbefore hargs) (congrArg (_ :: ·) hwords) h
        · exact nomatch h
      · obtain ⟨rfl, rfl⟩ := Prod.mk.inj (Except.ok.inj h)
        exact ⟨[], by rwa [List.append_nil], rfl⟩

omit hinner in
/-- Prefix operators go in front of the operand after them. -/
theorem derives_of_takePrefixOps (ts : Tokens) :
    ∃ used, ts.words = used ++ (takePrefixOps ts).2.words ∧
      ∀ {e : Expr} {tokens : List Token}, Derives e tokens →
        Derives ((takePrefixOps ts).1.foldr .unary e) (used ++ tokens) := by
  induction ts with
  | nil => exact ⟨[], rfl, fun h => h⟩
  | cons found ts ih =>
      obtain ⟨position, t⟩ := found
      unfold takePrefixOps
      split
      · exact ⟨[], rfl, fun h => h⟩
      · rename_i op hop
        obtain ⟨used, hwords, hused⟩ := ih
        refine ⟨t :: used, congrArg (t :: ·) hwords, fun h => ?_⟩
        rcases op with _ | op
        · exact .plus hop (hused h)
        · exact .unary hop (hused h)

theorem takes_parseOperand : Takes Derives (parseOperand inner) := by
  intro ts e rest h
  obtain ⟨ops, hops, hprefix⟩ := derives_of_takePrefixOps ts
  unfold parseOperand at h
  generalize takePrefixOps ts = found at h hops hprefix
  obtain ⟨⟨first, ts₁⟩, hprimary, h⟩ := exists_of_bind h
  obtain ⟨⟨e', ts₂⟩, hsuffixes, h⟩ := exists_of_bind h
  obtain ⟨rfl, rfl⟩ := Prod.mk.inj (Except.ok.inj h)
  obtain ⟨used, hused, hwords⟩ := takes_parsePrimary hinner hprimary
  obtain ⟨more, hmore, hwords₁⟩ := derives_of_parseSuffixes hinner hused hsuffixes
  refine ⟨_, hprefix hmore, ?_⟩
  rw [hops, hwords, hwords₁, List.append_assoc, List.append_assoc]

end Levels

/-- Operands are joined to those on their left. The tokens of the left operand are part of the
statement, since climbing goes on from what was read before. -/
theorem takes_climb {operand : Parser Expr} (hoperand : Takes Derives operand) (bound : Nat) :
    (∀ loosest, Takes Derives (climb operand bound loosest)) ∧
      ∀ {loosest left before ts e rest}, Derives left before →
        climbFrom operand bound loosest left ts = .ok (e, rest) →
        ∃ used, Derives e (before ++ used) ∧ ts.words = used ++ rest.words := by
  -- Where climbing stops, no further tokens are used.
  have hdone : ∀ {left e : Expr} {before : List Token} {ts rest : Tokens}, Derives left before →
      (.ok (left, ts) : Except SyntaxError (Expr × Tokens)) = .ok (e, rest) →
      ∃ used, Derives e (before ++ used) ∧ ts.words = used ++ rest.words := by
    intro left e before ts rest hleft h
    obtain ⟨rfl, rfl⟩ := Prod.mk.inj (Except.ok.inj h)
    exact ⟨[], by rwa [List.append_nil], rfl⟩
  induction bound with
  | zero =>
      constructor
      · intro loosest ts e rest h
        exact nomatch h
      · intro loosest left before ts e rest hleft h
        unfold climbFrom at h
        exact hdone hleft h
  | succ bound ih =>
      obtain ⟨ihclimb, ihfrom⟩ := ih
      constructor
      · intro loosest ts e rest h
        obtain ⟨⟨left, ts₁⟩, hread, h⟩ := exists_of_bind h
        obtain ⟨before, hbefore, hwords⟩ := hoperand hread
        obtain ⟨used, hused, hwords₁⟩ := ihfrom hbefore h
        exact ⟨before ++ used, hused, by rw [hwords, hwords₁, List.append_assoc]⟩
      · intro loosest left before ts e rest hleft h
        rcases ts with _ | ⟨⟨position, token⟩, ts⟩
        · exact hdone hleft h
        unfold climbFrom at h
        split at h
        · exact hdone hleft h
        rename_i op hop
        split at h
        · exact hdone hleft h
        -- The left operand so far, the operator and the right operand make up the left operand of
        -- the next round.
        obtain ⟨⟨right, ts₁⟩, hread, h⟩ := exists_of_bind h
        obtain ⟨bs, hbs, hwords⟩ := ihclimb _ hread
        obtain ⟨used, hused, hwords₁⟩ := ihfrom (.binary hop hleft hbs) h
        refine ⟨token :: (bs ++ used), ?_, congrArg (token :: ·) (hwords.trans ?_)⟩
        · rwa [List.append_assoc] at hused
        · rw [hwords₁]
          exact (List.append_assoc bs _ _).symm

theorem takes_parseChoiceWith {inner : Parser Expr} (hinner : Takes Derives inner) :
    Takes Derives (parseChoiceWith inner) := by
  intro ts e rest h
  obtain ⟨⟨condition, ts₁⟩, hread, h⟩ := exists_of_bind h
  obtain ⟨cs, hcs, hwords⟩ := (takes_climb (takes_parseOperand hinner) _).1 0 hread
  dsimp only at h
  split at h
  · obtain ⟨rfl, rfl⟩ := Prod.mk.inj (Except.ok.inj h)
    exact ⟨cs, hcs, hwords⟩
  · rename_i ts₂ hquestion
    obtain ⟨⟨yes, ts₃⟩, hyes, h⟩ := exists_of_bind h
    obtain ⟨ts₄, hcolon, h⟩ := exists_of_bind h
    obtain ⟨⟨no, ts₅⟩, hno, h⟩ := exists_of_bind h
    obtain ⟨rfl, rfl⟩ := Prod.mk.inj (Except.ok.inj h)
    obtain ⟨ys, hys, hwords₂⟩ := hinner hyes
    obtain ⟨ns, hns, hwords₄⟩ := hinner hno
    refine ⟨_, .choice hcs hys hns, ?_⟩
    rw [hwords, words_of_skipSymbol? hquestion, hwords₂, words_of_expect hcolon, hwords₄]
    simp only [List.append_assoc, List.cons_append]

theorem takes_parseChoice (depth : Nat) : Takes Derives (parseChoice depth) := by
  induction depth with
  | zero => exact fun h => nomatch h
  | succ depth ih => exact takes_parseChoiceWith ih

/-! ### Whole expressions -/

/-- The expression that tokens are read as derives them. Whatever parentheses the tokens have beyond
those needed, the derivation has them too, so that no printed form has to be gone through. -/
theorem derives_of_ofTokens {e : Expr} (h : ofTokens ts = .ok e) : Derives e ts.words := by
  unfold ofTokens at h
  split at h
  · exact nomatch h
  obtain ⟨⟨e', rest⟩, hread, h⟩ := exists_of_bind h
  obtain ⟨used, hused, hwords⟩ := takes_parseChoice _ hread
  rcases rest with _ | ⟨t, rest⟩
  · obtain rfl := Except.ok.inj h
    rwa [hwords, Tokens.words, List.map_nil, List.append_nil]
  · exact nomatch h

/-- The expression of a text derives its tokens. It is the form in which most results on texts
begin. -/
theorem derives_of_parse {s : String} {e : Expr} (h : Expr.parse s = .ok e) :
    ∃ ts, tokenize s = .ok ts ∧ ofTokens ts = .ok e ∧ Derives e (Tokens.words ts) := by
  unfold Expr.parse at h
  split at h
  · rename_i ts hts
    exact ⟨ts, hts, h, derives_of_ofTokens h⟩
  · exact nomatch h

end Stencil.Expr
