import Mathlib
import Stencil.Program
import Stencil.Proofs.Expr.Depth
import Stencil.Proofs.Pipe.Place

/-!
# Texts that are told to be calls

The language of pipes tells a call by a scan for parentheses of its own; the grammar of expressions
agrees with it.

## Main definitions

* `parens` — how many parentheses tokens leave open
* `escapesQuote` — whether a string literal of a text has an escaped quote of its own kind
* `Counts` — text that the scan for a call reads as its tokens

## Main results

* `call_or_not_of_derives` — tokens of the shape of a call are one, or a negation
* `counts_of_lexes` — the scan counts the parentheses of the tokens
* `exists_call_of_asCall?` — an expression that is told to be a call is a call

## Design notes

The scan knows quotes and no escapes, so it takes an escaped quote for the end of a string literal.
Without such quotes it meets the parentheses outside of string literals, which are those of the
tokens.  The parenthesis after the name is then closed at the end of the text and not before, and no
form of an expression but a call and a negation has parentheses there.
-/

namespace Stencil

open Text Stencil.Expr

namespace Pipe

/-! ### Parentheses of tokens -/

/-- How many parentheses are open after a token, unless it closes one that is not open. -/
def parensAfter (depth : Nat) : Token → Option Nat
  | .symbol .openParen => some (depth + 1)
  | .symbol .closeParen => depth.ppred
  | _ => some depth

/-- How many parentheses are open after some tokens. There is no number if one is closed that was
not open, since what is told apart are calls that a closing parenthesis ends too early. -/
def parens (depth : Nat) (ts : List Token) : Option Nat := ts.foldlM parensAfter depth

section Parens

variable {ts : List Token} {t : Token} {d d' : Nat}

/-- No tokens open and close nothing. -/
@[simp] theorem parens_nil (d : Nat) : parens d [] = some d := rfl

/-- The parentheses after some tokens are those after the first and then after the rest. -/
@[simp] theorem parens_cons (d : Nat) (t : Token) (ts : List Token) :
    parens d (t :: ts) = (parensAfter d t).bind (parens · ts) := List.foldlM_cons

/-- The same for two runs of tokens. -/
@[simp] theorem parens_append (d : Nat) (ts us : List Token) :
    parens d (ts ++ us) = (parens d ts).bind (parens · us) := List.foldlM_append

/-- A token does one level deeper what it does at a level. -/
theorem parensAfter_succ (h : parensAfter d t = some d') :
    parensAfter (d + 1) t = some (d' + 1) := by
  unfold parensAfter at h ⊢
  split at h
  · rw [← Option.some.inj h]
  · rw [← Nat.ppred_eq_some.1 h, Nat.ppred_succ]
  · rw [← Option.some.inj h]

/-- Tokens go on as before within more parentheses. -/
theorem parens_succ (h : parens d ts = some d') : parens (d + 1) ts = some (d' + 1) := by
  induction ts generalizing d with
  | nil => exact congrArg (Option.map (· + 1)) h
  | cons t ts ih =>
      rw [parens_cons] at h ⊢
      obtain ⟨d₁, hfirst, hrest⟩ := Option.bind_eq_some_iff.1 h
      rw [parensAfter_succ hfirst]
      exact ih hrest

/-- Nested tokens close the parentheses that they open. The depth is left free, since nested tokens
may stand within others. -/
theorem parens_of_nested (h : Nested ts) (d : Nat) : parens d ts = some d := by
  induction h generalizing d with
  | nil => rfl
  | @single t ht =>
      unfold parens List.foldlM parensAfter
      split
      · exact absurd ht (by decide)
      · exact absurd ht (by decide)
      · rfl
  | append _ _ ih ih' => rw [parens_append, ih d, Option.bind_some, ih' d]
  | parens _ ih =>
      rw [parens_cons, parensAfter, Option.bind_some, parens_append, ih (d + 1)]
      rfl
  | brackets _ ih =>
      rw [parens_cons, parensAfter, Option.bind_some, parens_append, ih d]
      · rfl
      · exact nofun
      · exact nofun
  | braces _ ih =>
      rw [parens_cons, parensAfter, Option.bind_some, parens_append, ih d]
      · rfl
      · exact nofun
      · exact nofun

end Parens

/-! ### Expressions in the shape of a call -/

section Shape

variable {f : String} {ts before after : List Token} {t : Token} {e : Expr}

/-- What is an expression at the front of a call is the name: the parenthesis after the name is
closed by the last token and by none before it. -/
theorem eq_name_of_derives (hinner : parens 0 ts = some 0) (he : Derives e before)
    (h : before ++ t :: after = .name f :: .symbol .openParen :: (ts ++ [.symbol .closeParen])) :
    before = [.name f] ∧ t = .symbol .openParen ∧ after = ts ++ [.symbol .closeParen] := by
  have hclosed := parens_of_nested he.nested 0
  rcases before with _ | ⟨t₁, _ | ⟨t₂, before⟩⟩
  · exact absurd rfl he.ne_nil
  · simp only [List.cons_append, List.nil_append, List.cons.injEq] at h
    obtain ⟨rfl, rfl, rfl⟩ := h
    exact ⟨rfl, rfl, rfl⟩
  · simp only [List.cons_append, List.cons.injEq] at h
    obtain ⟨rfl, rfl, h⟩ := h
    obtain ⟨after', hafter⟩ : ∃ after', ts = before ++ after' := by
      obtain ⟨init, last, hlast⟩ :=
        (List.eq_nil_or_concat (t :: after)).resolve_left (List.cons_ne_nil t after)
      rw [hlast, List.concat_eq_append, ← List.append_assoc] at h
      exact ⟨init, (List.append_inj_left' h rfl).symm⟩
    rw [hafter, parens_append] at hinner
    obtain ⟨d, hbefore, -⟩ := Option.bind_eq_some_iff.1 hinner
    have hopen : parens 0 (.name f :: .symbol .openParen :: before) = some (d + 1) :=
      parens_succ hbefore
    exact absurd (Option.some.inj (hclosed.symm.trans hopen)) (Nat.succ_ne_zero d).symm

/-- A name is read as itself. -/
theorem eq_of_derives_name {g : String} (h : Derives (.name g) [.name f]) : g = f := by
  generalize htokens : [Token.name f] = tokens at h
  generalize hexpr : Expr.name g = e at h
  cases h with
  | name w =>
      obtain rfl := Token.name.inj (List.cons.inj htokens).1
      unfold nameExpr at hexpr
      split at hexpr
      · exact nomatch hexpr
      split at hexpr
      · exact nomatch hexpr
      split at hexpr
      · exact nomatch hexpr
      · exact Expr.name.inj hexpr
  | plus _ he => exact absurd (List.cons.inj htokens).2.symm he.ne_nil
  | parenthesized => exact nomatch htokens
  | _ => exact nomatch hexpr

/-- The only word in front of an operand is the one that negates it. -/
theorem eq_not_of_prefixOp? {op : Option UnaryOp} (h : prefixOp? (.name f) = some op) :
    f = "not" ∧ op = some .not := by
  change (if f == "not" then some (some UnaryOp.not) else none) = some op at h
  split at h
  · rename_i hf
    exact ⟨beq_iff_eq.1 hf, (Option.some.inj h).symm⟩
  · exact nomatch h

/-- Tokens of the shape of a call are one, or a negation of what stands in parentheses. Between the
parentheses no other one may close the first, or it would be something like a product of two calls.
-/
theorem call_or_not_of_derives (hinner : parens 0 ts = some 0)
    (h : Derives e (.name f :: .symbol .openParen :: (ts ++ [.symbol .closeParen]))) :
    (∃ args : List (Expr × List Token), (∀ arg ∈ args, Derives arg.1 arg.2) ∧
        ts = commaSeparated (args.map Prod.snd) ∧ e = .call f (args.map Prod.fst)) ∨
      (f = "not" ∧ ∃ operand, e = .unary .not operand ∧
        Derives operand (.symbol .openParen :: (ts ++ [.symbol .closeParen]))) := by
  generalize htokens : Token.name f :: .symbol .openParen :: (ts ++ [.symbol .closeParen]) = tokens
    at h
  -- The last token tells members and indices, the one after the name what is made of two operands.
  have hlast : tokens.getLast? = some (.symbol .closeParen) := by
    rw [← htokens, ← List.cons_append, ← List.cons_append, List.getLast?_concat]
  cases h with
  | int | float | str | name | current | currentMember | parenthesized | array | mapping =>
      exact nomatch htokens
  | @member e ts' field t he hfield =>
      have htail : (ts' ++ [.symbol .dot, t]).getLast? = some t := by
        rw [List.getLast?_append]
        rfl
      obtain rfl := Option.some.inj (hlast.symm.trans htail)
      exact nomatch hfield
  | @index e key ts' ks he hkey =>
      rw [← List.cons_append, ← List.append_assoc, List.getLast?_concat] at hlast
      exact nomatch hlast
  | @call g ts' args hg hargs =>
      obtain ⟨rfl, -, hafter⟩ := eq_name_of_derives hinner hg htokens.symm
      obtain rfl := eq_of_derives_name hg
      exact .inl ⟨args, hargs, (List.append_cancel_right hafter).symm, rfl⟩
  | @plus e t ts' ht he =>
      obtain ⟨rfl, rfl⟩ := List.cons.inj htokens
      exact nomatch (eq_not_of_prefixOp? ht).2
  | @unary op e t ts' ht he =>
      obtain ⟨rfl, rfl⟩ := List.cons.inj htokens
      obtain ⟨rfl, hop⟩ := eq_not_of_prefixOp? ht
      obtain rfl := Option.some.inj hop
      exact .inr ⟨rfl, e, rfl, he⟩
  | @binary op a b t as bs ht ha hb =>
      obtain ⟨-, rfl, -⟩ := eq_name_of_derives hinner ha htokens.symm
      exact nomatch ht
  | @choice condition yes no cs ys ns hcondition hyes hno =>
      obtain ⟨-, ht, -⟩ := eq_name_of_derives hinner hcondition htokens.symm
      exact nomatch ht

end Shape

/-! ### Quotes within string literals -/

/-- Whether a text, read from outside or within a string literal on, has a quote that is escaped in
a literal of its own kind. -/
def escapesQuote : (quote : Option Char) → List Char → Bool
  | _, [] => false
  | none, c :: cs => escapesQuote (if isQuote c then some c else none) cs
  | some q, '\\' :: c :: cs => c == q || escapesQuote (some q) cs
  | some q, c :: cs => escapesQuote (if c == q then none else some q) cs

/-- Outside of literals a character that is no quote escapes nothing. -/
theorem escapesQuote_plain {c : Char} (hc : isQuote c = false) (cs : List Char) :
    escapesQuote none (c :: cs) = escapesQuote none cs := by
  rw [escapesQuote, hc]
  rfl

/-- Within a literal a character that is no backslash escapes nothing, and its quote ends it. -/
theorem escapesQuote_cons {q c : Char} (hc : c ≠ '\\') (cs : List Char) :
    escapesQuote (some q) (c :: cs) = escapesQuote (if c == q then none else some q) cs := by
  rw [escapesQuote]
  exact fun _ _ he _ => hc he

/-- A string literal without such quotes ends for the scan where it ends. The scan ignores
backslashes, so an escaped quote would end the string too early for it. -/
theorem balanced_string {q : Char} (hq : isQuote q = true) {body content : List Char}
    (h : StringBody q body content) {more : List Char}
    (hquotes : escapesQuote (some q) (body ++ more) = false) :
    escapesQuote none more = false ∧
      ∀ d more', balanced d (some q) (body ++ more') = balanced d none more' := by
  induction h with
  | closing hne =>
      rw [List.singleton_append, escapesQuote_cons hne, beq_self_eq_true, if_pos rfl] at hquotes
      refine ⟨hquotes, fun d more' => ?_⟩
      rw [List.singleton_append, balanced, beq_self_eq_true, if_pos rfl]
  | @escaped body content c hbody ih =>
      rw [List.cons_append, List.cons_append, escapesQuote, Bool.or_eq_false_iff] at hquotes
      obtain ⟨hmore, hsame⟩ := ih hquotes.2
      refine ⟨hmore, fun d more' => ?_⟩
      have hne : ('\\' == q) = false := by
        rw [beq_eq_false_iff_ne]
        rintro rfl
        exact absurd hq (by decide)
      rw [List.cons_append, List.cons_append, balanced, hne, if_neg Bool.false_ne_true, balanced,
        hquotes.1, if_neg Bool.false_ne_true, hsame]
  | @plain c body content hbackslash hc hbody ih =>
      have hne : (c == q) = false := beq_eq_false_iff_ne.2 hc
      rw [List.cons_append, escapesQuote_cons hbackslash, hne, if_neg Bool.false_ne_true] at hquotes
      obtain ⟨hmore, hsame⟩ := ih hquotes
      refine ⟨hmore, fun d more' => ?_⟩
      rw [List.cons_append, balanced, hne, if_neg Bool.false_ne_true, hsame]

/-- What a text without such quotes is for the scan: it is read over, and counts for the parentheses
of its tokens. -/
def Counts (cs : List Char) (ts : List Token) : Prop :=
  ∀ more, escapesQuote none (cs ++ more) = false →
    escapesQuote none more = false ∧
      ∀ d more', balanced d none (cs ++ more') = (parens d ts).any (balanced · none more')

/-- An empty text counts for no tokens. -/
theorem counts_nil : Counts [] [] := fun _ hquotes => ⟨hquotes, fun _ _ => rfl⟩

/-- Two texts count one after the other. What comes after both is the same for each of them, which
is why `Counts` speaks of every continuation. -/
theorem Counts.append {cs cs' : List Char} {ts ts' : List Token} (h : Counts cs ts)
    (h' : Counts cs' ts') : Counts (cs ++ cs') (ts ++ ts') := by
  intro more hquotes
  rw [List.append_assoc] at hquotes
  obtain ⟨hrest, hfirst⟩ := h _ hquotes
  obtain ⟨hmore, hsecond⟩ := h' _ hrest
  refine ⟨hmore, fun d more' => ?_⟩
  rw [List.append_assoc, hfirst, parens_append]
  rcases parens d ts with _ | d'
  · rfl
  · exact hsecond d' more'

/-- A character that means nothing to the scan. -/
def isSkipped (c : Char) : Bool := !isQuote c && c != '(' && c != ')'

/-- Characters that mean nothing to the scan count for no tokens. -/
theorem counts_skipped {cs : List Char} (h : ∀ c ∈ cs, isSkipped c = true) : Counts cs [] := by
  induction cs with
  | nil => exact counts_nil
  | cons c cs ih =>
      have hc := h c List.mem_cons_self
      simp only [isSkipped, Bool.and_eq_true, Bool.not_eq_true', bne_iff_ne] at hc
      obtain ⟨⟨hquote, hopen⟩, hclose⟩ := hc
      intro more hquotes
      rw [List.cons_append, escapesQuote_plain hquote] at hquotes
      obtain ⟨hmore, hsame⟩ := ih (fun d hd => h d (List.mem_cons_of_mem c hd)) more hquotes
      refine ⟨hmore, fun d more' => ?_⟩
      rw [List.cons_append, balanced_cons hquote hopen hclose, hsame]

/-- A text that counts for no tokens counts for any token that is no parenthesis. -/
theorem Counts.of_parensAfter {cs : List Char} {t : Token} (h : Counts cs [])
    (ht : ∀ d, parensAfter d t = some d) : Counts cs [t] := by
  intro more hquotes
  obtain ⟨hmore, hsame⟩ := h more hquotes
  refine ⟨hmore, fun d more' => ?_⟩
  rw [hsame, parens_cons, ht]
  rfl

/-- An opening parenthesis counts for its token. -/
theorem counts_openParen : Counts ['('] [.symbol .openParen] := by
  intro more hquotes
  refine ⟨hquotes, fun d more' => ?_⟩
  cases d with
  | zero => rfl
  | succ d => rfl

/-- So does a closing one. -/
theorem counts_closeParen : Counts [')'] [.symbol .closeParen] := by
  intro more hquotes
  refine ⟨hquotes, fun d more' => ?_⟩
  cases d with
  | zero => rfl
  | succ d => rfl

/-- Of all the symbols the scan knows the two parentheses alone; the others mean nothing to it, the
brackets and braces included. -/
theorem spellings_parens : ∀ entry ∈ Symbol.spellings,
    (entry.1.all isSkipped = true ∧ entry.2 ≠ .openParen ∧ entry.2 ≠ .closeParen) ∨
      entry = (['('], .openParen) ∨ entry = ([')'], .closeParen) := by
  decide

/-- What is inert for the splitter means nothing to the scan either. -/
theorem isSkipped_of_isInert {c : Char} (h : isInert c = true) : isSkipped c = true := by
  simp only [isInert, Bool.and_eq_true, Bool.not_eq_true', bne_iff_ne] at h
  obtain ⟨⟨⟨hquote, hopens⟩, hcloses⟩, -⟩ := h
  simp only [isSkipped, hquote, Bool.not_false, Bool.true_and, Bool.and_eq_true, bne_iff_ne]
  constructor
  · rintro rfl
    exact absurd hopens (by decide)
  · rintro rfl
    exact absurd hcloses (by decide)

/-- The text of a token counts for the token. For a string this needs that no quote is escaped in
it: the scan takes such a quote for the end. -/
theorem counts_lexeme {t : Token} {word : List Char} (h : Lexeme t word) : Counts word [t] := by
  cases h with
  | word hword _ hchars _ =>
      refine Counts.of_parensAfter (counts_skipped fun c hc => ?_) fun d => ?_
      · exact isSkipped_of_isInert (isInert_of_isWordChar (hchars c hc))
      · cases t with
        | symbol => exact nomatch hword
        | _ => rfl
  | @symbol s word hmem =>
      rcases spellings_parens _ hmem with ⟨hchars, hopen, hclose⟩ | hentry | hentry
      · refine Counts.of_parensAfter (counts_skipped (List.all_eq_true.1 hchars)) fun d => ?_
        cases s with
        | openParen => exact absurd rfl hopen
        | closeParen => exact absurd rfl hclose
        | _ => rfl
      · obtain ⟨rfl, rfl⟩ := Prod.mk.inj hentry
        exact counts_openParen
      · obtain ⟨rfl, rfl⟩ := Prod.mk.inj hentry
        exact counts_closeParen
  | @string q body content hq hbody =>
      intro more hquotes
      rw [List.cons_append, escapesQuote, if_pos hq] at hquotes
      obtain ⟨hmore, hsame⟩ := balanced_string hq hbody hquotes
      refine ⟨hmore, fun d more' => ?_⟩
      rw [List.cons_append, balanced_quote hq, hsame]
      rfl

/-- The scan counts the parentheses of the tokens. The two read strings in different ways, and agree
only as no string has an escaped quote of its own kind. -/
theorem counts_of_lexes {rest cs : List Char} {ts : List Token} (h : Lexes rest cs ts) :
    Counts cs ts := by
  induction h with
  | nil => exact counts_nil
  | @blank c cs ts hc _ ih =>
      have hblank : Counts [c] [] := counts_skipped fun d hd =>
        List.mem_singleton.1 hd ▸ isSkipped_of_isInert (isInert_of_isBlank hc)
      exact hblank.append ih
  | token hspells _ ih => exact (counts_lexeme hspells.lexeme).append ih

/-! ### The tokens of a call -/

/-- Nothing but a parenthesis ends with one. A string ends with its quote, and a word has no such
character. -/
theorem eq_closeParen_of_lexeme {t : Token} {cs : List Char} (h : Lexeme t (cs ++ [')'])) :
    cs = [] ∧ t = .symbol .closeParen := by
  generalize hword : cs ++ [')'] = word at h
  have hlast : word.getLast? = some ')' := by
    rw [← hword, List.getLast?_concat]
  cases h with
  | word _ _ hchars _ =>
      exact absurd (hchars ')' (List.mem_of_getLast? hlast)) (by decide)
  | @symbol s word hmem =>
      rcases spellings_parens _ hmem with ⟨hchars, -⟩ | hentry | hentry
      · exact absurd (List.all_eq_true.1 hchars ')' (List.mem_of_getLast? hlast)) (by decide)
      · obtain ⟨rfl, rfl⟩ := Prod.mk.inj hentry
        exact absurd hlast (by decide)
      · obtain ⟨rfl, rfl⟩ := Prod.mk.inj hentry
        exact ⟨List.self_eq_append_left.1 hword.symm, rfl⟩
  | @string q body content hq hbody =>
      rw [List.getLast?_cons, hbody.getLast?_eq] at hlast
      obtain rfl := Option.some.inj hlast
      exact absurd hq (by decide)

/-- An empty text has no tokens. -/
theorem eq_nil_of_lexes_nil {rest : List Char} {ts : List Token} (h : Lexes rest [] ts) :
    ts = [] := by
  generalize hnil : ([] : List Char) = cs at h
  cases h with
  | nil => rfl
  | blank _ _ => exact nomatch hnil
  | token hspells _ =>
      exact absurd (List.append_eq_nil_iff.1 hnil.symm).1 hspells.lexeme.ne_nil

/-- The tokens of a text in front of a closing parenthesis are told without it. The parenthesis is a
token of its own, as nothing else ends with one. -/
theorem exists_of_lexes_closeParen {cs : List Char} {ts : List Token}
    (h : Lexes [] (cs ++ [')']) ts) :
    ∃ ts', ts = ts' ++ [.symbol .closeParen] ∧ Lexes [')'] cs ts' := by
  generalize hall : cs ++ [')'] = all at h
  induction h generalizing cs with
  | nil => exact absurd hall (List.append_ne_nil_of_right_ne_nil _ (List.cons_ne_nil _ _))
  | @blank c rest ts hc _ ih =>
      rcases cs with _ | ⟨d, cs⟩
      · obtain ⟨rfl, -⟩ := List.cons.inj hall
        exact absurd hc (by decide)
      · obtain ⟨rfl, hrest⟩ := List.cons.inj hall
        obtain ⟨ts', rfl, hcs⟩ := ih hrest
        exact ⟨ts', rfl, .blank hc hcs⟩
  | @token t word rest ts hspells hrest ih =>
      rw [List.append_nil] at hspells
      rcases List.eq_nil_or_concat rest with rfl | ⟨rest, last, rfl⟩
      · rw [List.append_nil] at hall
        obtain ⟨rfl, rfl⟩ := eq_closeParen_of_lexeme (hall ▸ hspells.lexeme)
        obtain rfl := eq_nil_of_lexes_nil hrest
        exact ⟨[], rfl, .nil⟩
      · rw [List.concat_eq_append, ← List.append_assoc] at hall
        obtain ⟨rfl, hlast⟩ := List.append_inj' hall rfl
        rw [List.concat_eq_append, ← hlast] at hspells ih
        obtain ⟨ts', rfl, hcs⟩ := ih rfl
        exact ⟨t :: ts', rfl, .token hspells hcs⟩

/-- The first token of a text is the one that is spelled at its front. Reading is a function, so a
text has no two divisions. -/
theorem exists_of_lexes_append {t : Token} {word cs : List Char} {ts : List Token}
    (hword : Spells t word cs) (h : Lexes [] (word ++ cs) ts) :
    ∃ ts', ts = t :: ts' ∧ Lexes [] cs ts' := by
  obtain ⟨c, word, rfl, hblank, htake⟩ := hword
  generalize hall : c :: word ++ cs = all at h
  cases h with
  | nil => exact nomatch hall
  | blank hc _ =>
      obtain ⟨rfl, -⟩ := List.cons.inj hall
      exact absurd (hblank.symm.trans hc) Bool.false_ne_true
  | token hspells hrest =>
      obtain ⟨d, word', rfl, -, htake'⟩ := hspells
      rw [List.cons_append, List.cons_append, List.cons.injEq] at hall
      obtain ⟨rfl, hall⟩ := hall
      have hfirst := htake' 0
      rw [List.append_nil, ← hall] at hfirst
      obtain ⟨rfl, rfl⟩ := Prod.mk.inj (Except.ok.inj ((htake 0).symm.trans hfirst))
      exact ⟨_, rfl, hrest⟩

/-- An expression that is told to be a call is one of the function and the arguments that are told,
unless a word operator stands before the parentheses or a string literal has an escaped quote of its
own kind. -/
theorem exists_call_of_asCall? {source : String} {p : Program} {f inner : List Char}
    (hp : Program.compile source = .ok p) (hcall : asCall? source.toList = some (f, inner))
    (hf : f ≠ "not".toList) (hquotes : escapesQuote none source.toList = false) :
    trim source.toList = f ++ '(' :: (inner ++ [')']) ∧
      ∃ args : List (Expr × List Token), (∀ arg ∈ args, Derives arg.1 arg.2) ∧
        Lexes [')'] inner (commaSeparated (args.map Prod.snd)) ∧
        p.expr = .call (String.ofList f) (args.map Prod.fst) := by
  obtain ⟨htrim, hname, hbalanced⟩ := asCall?_eq_some_iff.1 hcall
  refine ⟨htrim, ?_⟩
  obtain ⟨pre, post, htext, hpre, -⟩ := exists_trim source.toList
  rw [htrim] at htext
  -- The tokens of the text: the name, a parenthesis, those between the parentheses and the last.
  obtain ⟨e, he, rfl⟩ := Program.compile_eq_ok_iff.1 hp
  obtain ⟨ts, hts, -, hderives⟩ := derives_of_parse (parse_trimmed he)
  have hlexes := lexes_of_tokenize hts
  rw [trimmed, String.toList_ofList, htrim] at hlexes
  have hspells : Spells (.name (String.ofList f)) f ('(' :: (inner ++ [')'])) :=
    spells_ofList hname fun c hc => Option.some.inj hc ▸ rfl
  have hopen : Spells (.symbol .openParen) ['('] (inner ++ [')']) :=
    ⟨'(', [], rfl, rfl, fun _ => rfl⟩
  obtain ⟨others, hothers, hlexes₁⟩ := exists_of_lexes_append hspells hlexes
  obtain ⟨ts₂, rfl, hlexes₂⟩ := exists_of_lexes_append hopen hlexes₁
  obtain ⟨tokens, rfl, hinner⟩ := exists_of_lexes_closeParen hlexes₂
  rw [Tokens.words, hothers] at hderives
  -- The scan has counted the parentheses between them.
  have hfront : Counts (pre ++ (f ++ ['(']))
      ([] ++ ([.name (String.ofList f)] ++ [.symbol .openParen])) :=
    (counts_skipped fun c hc => isSkipped_of_isInert (isInert_of_isBlank (hpre c hc))).append
      ((counts_lexeme hspells.lexeme).append counts_openParen)
  have hbehind : escapesQuote none (inner ++ ')' :: post) = false := by
    rw [htext] at hquotes
    simp only [List.append_assoc, List.cons_append, List.nil_append] at hquotes
    refine (hfront _ ?_).1
    simpa only [List.append_assoc, List.cons_append, List.nil_append] using hquotes
  have hcounted := (counts_of_lexes hinner _ hbehind).2 0 []
  rw [List.append_nil, hbalanced] at hcounted
  obtain ⟨d, hparens, hd⟩ := (Option.any_eq_true _ _).1 hcounted.symm
  obtain rfl : d = 0 := beq_iff_eq.1 hd
  rcases call_or_not_of_derives hparens hderives with ⟨args, hargs, rfl, he⟩ | ⟨hnot, -⟩
  · exact ⟨args, hargs, hinner, he⟩
  · exact absurd (String.ofList_injective hnot) hf

/-- Quotes, parentheses and a word operator within the parentheses are told from those of the
call. -/
theorem exists_call_of_asCall?_quotes :
    (Program.compile " f(')\\\"', (\"'\\n\"), not (a)) " =
        .ok ⟨" f(')\\\"', (\"'\\n\"), not (a)) ",
          .call "f" [.literal (.str ")\""), .literal (.str "'\n"), .unary .not (.name "a")]⟩ ∧
      asCall? " f(')\\\"', (\"'\\n\"), not (a)) ".toList =
        some ("f".toList, "')\\\"', (\"'\\n\"), not (a)".toList) ∧
      "f".toList ≠ "not".toList ∧
      escapesQuote none " f(')\\\"', (\"'\\n\"), not (a)) ".toList = false) ∧
    ∃ args : List (Expr × List Token), (∀ arg ∈ args, Derives arg.1 arg.2) ∧
      Lexes [')'] "')\\\"', (\"'\\n\"), not (a)".toList (commaSeparated (args.map Prod.snd)) ∧
      Expr.call "f" [.literal (.str ")\""), .literal (.str "'\n"), .unary .not (.name "a")] =
        .call (String.ofList "f".toList) (args.map Prod.fst) := by
  have hcompile : Program.compile " f(')\\\"', (\"'\\n\"), not (a)) " =
      .ok ⟨" f(')\\\"', (\"'\\n\"), not (a)) ",
        .call "f" [.literal (.str ")\""), .literal (.str "'\n"), .unary .not (.name "a")]⟩ := by cbv
  have hcall : asCall? " f(')\\\"', (\"'\\n\"), not (a)) ".toList =
      some ("f".toList, "')\\\"', (\"'\\n\"), not (a)".toList) := by rfl
  exact ⟨⟨hcompile, hcall, by decide, by rfl⟩,
    (exists_call_of_asCall? hcompile hcall (by decide) (by rfl)).2⟩

/-- A negation whose operand is in parentheses is told to be a call.  So is the sum of two calls, if
a string literal in the first one has an escaped quote: the scan takes the literal to end there, and
the parentheses behind it to be inside of the next literal. -/
theorem not_exists_call_of_asCall? :
    (¬ ∀ (source : String) (p : Program) (f inner : List Char),
      Program.compile source = .ok p → asCall? source.toList = some (f, inner) →
        ∃ args, p.expr = .call (String.ofList f) args) ∧
    ¬ ∀ (source : String) (p : Program) (f inner : List Char),
      Program.compile source = .ok p → asCall? source.toList = some (f, inner) →
        f ≠ "not".toList → ∃ args, p.expr = .call (String.ofList f) args := by
  constructor
  · intro hall
    have hcompile : Program.compile "not(a)" = .ok ⟨"not(a)", .unary .not (.name "a")⟩ := by cbv
    obtain ⟨args, hcall⟩ := hall "not(a)" _ "not".toList "a".toList hcompile rfl
    cases hcall
  · intro hall
    have hcompile : Program.compile "f('a\\'') + g('b')" =
        .ok ⟨"f('a\\'') + g('b')", .binary .add (.call "f" [.literal (.str "a'")])
          (.call "g" [.literal (.str "b")])⟩ := by cbv
    have hcall : asCall? "f('a\\'') + g('b')".toList =
        some ("f".toList, "'a\\'') + g('b'".toList) := by rfl
    obtain ⟨args, hsum⟩ := hall _ _ _ _ hcompile hcall (by decide)
    cases hsum

end Pipe
end Stencil
