import Mathlib.Data.List.Chain
import Stencil.Proofs.Expr.Derivation
import Stencil.Proofs.Expr.Trim

/-!
# Spellings of equality

Equality and its negation have a longer spelling each.

## Main definitions

* `literals` — the string literals of a text
* `Tidy`, `IsOperand` — tokens among which equality comes after operands alone
* `shorten` — a text with a shorter spelling in place of the longer one

## Main results

* `Derives.isOperand` — so it is with the tokens of an expression
* `lexes_shorten` — a text with such tokens keeps them when it is shortened

## Design notes

Replacing text knows nothing of tokens, so a longer spelling could come to stand across the seam of
two of them, or the character that is left out could join two into one.  Neither happens after an
operand: no operand ends with a mark of equality, and what follows an operator for equality is not
an equals sign.
-/

namespace Stencil.Expr

open Text

/-! ### Texts that begin alike -/

/-- The characters that the spellings of equality begin with. -/
def isMark (c : Char) : Bool := c == '=' || c == '!'

/-- Texts that are the same, or the same up to a mark. -/
inductive Alike : List Char → List Char → Prop where
  | refl (cs : List Char) : Alike cs cs
  | mark {d : Char} (shared cs cs' : List Char) : isMark d = true →
      Alike (shared ++ d :: cs) (shared ++ d :: cs')

/-- Texts that begin alike still do with one word in front of both. -/
theorem Alike.append {cs cs' : List Char} (h : Alike cs cs') (word : List Char) :
    Alike (word ++ cs) (word ++ cs') := by
  cases h with
  | refl => exact .refl _
  | mark shared cs cs' hd =>
      rw [← List.append_assoc, ← List.append_assoc]
      exact .mark (word ++ shared) cs cs' hd

/-- Texts that begin alike have the same first character, be it the mark itself. -/
theorem Alike.head?_eq {cs cs' : List Char} (h : Alike cs cs') : cs.head? = cs'.head? := by
  cases h with
  | refl => rfl
  | mark shared cs cs' hd => rcases shared with _ | ⟨c, shared⟩ <;> rfl

/-- The two characters that begin a long spelling of an equality. -/
theorem eq_of_isMark {d : Char} (h : isMark d = true) : d = '=' ∨ d = '!' := by
  simpa [isMark] using h

/-- A mark begins nothing but symbols. -/
theorem classes_of_isMark {d : Char} (h : isMark d = true) : isBlank d = false ∧
    d.isDigit = false ∧ isNameStart d = false ∧ isQuote d = false := by
  rcases eq_of_isMark h with rfl | rfl
  · exact ⟨rfl, rfl, rfl, rfl⟩
  · exact ⟨rfl, rfl, rfl, rfl⟩

/-- A mark ends a number and a name. -/
theorem isWordChar_of_isMark {d : Char} (h : isMark d = true) : isWordChar d = false := by
  rcases eq_of_isMark h with rfl | rfl
  · rfl
  · rfl

/-- A token is read in front of texts that begin alike. -/
theorem Spells.of_alike {token : Token} {text rest rest' : List Char} (h : Spells token text rest)
    (hrest : Alike rest rest') : Spells token text rest' := by
  have hhead := hrest.head?_eq
  cases hrest with
  | refl => exact h
  | mark shared cs cs' hd =>
      exact h.of_cuts (cuts_of_isWordChar (isWordChar_of_isMark hd) cs') (.inl hhead)

/-! ### String literals -/

/-- The string literals of a text, one after the other with their quotes. -/
def literalsFrom : (quote : Option Char) → List Char → List Char
  | _, [] => []
  | none, c :: cs => if isQuote c then c :: literalsFrom (some c) cs else literalsFrom none cs
  | some _, ['\\'] => ['\\']
  | some q, '\\' :: c :: cs => '\\' :: c :: literalsFrom (some q) cs
  | some q, c :: cs => c :: literalsFrom (if c = q then none else some q) cs

/-- The string literals of a text, one after the other with their quotes. Whether a spelling of
equality stands in one of them is what decides if shortening the text changes a string. -/
abbrev literals (cs : List Char) : List Char := literalsFrom none cs

/-- Inside a string an ordinary character is copied; the string is left at its own quote. -/
theorem literalsFrom_quoted {q c : Char} (hc : c ≠ '\\') (cs : List Char) :
    literalsFrom (some q) (c :: cs) = c :: literalsFrom (if c = q then none else some q) cs := by
  rw [literalsFrom]
  · exact fun he _ => hc he
  · exact fun _ _ he => absurd he hc

/-- Text without quotes contributes no literal. -/
theorem literals_unquoted {word : List Char} (hword : ∀ c ∈ word, isQuote c = false)
    (rest : List Char) : literals (word ++ rest) = literals rest := by
  induction word with
  | nil => rfl
  | cons c word ih =>
      rw [List.cons_append, literals, literalsFrom, hword c List.mem_cons_self]
      exact ih fun d hd => hword d (List.mem_cons_of_mem c hd)

/-- Text without quotes has no literals at all. -/
theorem literals_of_unquoted {word : List Char} (hword : ∀ c ∈ word, isQuote c = false) :
    literals word = [] := by
  have hnone := literals_unquoted hword []
  rw [List.append_nil] at hnone
  exact hnone

/-- The body of a string, closing quote included, is copied as it stands, and the scan goes on after
it outside of any string. -/
theorem literalsFrom_string {q : Char} {body content : List Char} (h : StringBody q body content)
    (rest : List Char) : literalsFrom (some q) (body ++ rest) = body ++ literals rest := by
  induction h with
  | closing hq =>
      rw [List.cons_append, literalsFrom_quoted hq, if_pos rfl]
      rfl
  | escaped c _ ih =>
      rw [List.cons_append, List.cons_append, literalsFrom, ih]
      rfl
  | plain hbackslash hc _ ih =>
      rw [List.cons_append, literalsFrom_quoted hbackslash, if_neg hc, ih]
      rfl

/-- A string is a literal of its text. -/
theorem literals_string {q : Char} (hq : isQuote q = true) {body content : List Char}
    (h : StringBody q body content) (rest : List Char) :
    literals (q :: body ++ rest) = q :: body ++ literals rest := by
  rw [List.cons_append, literals, literalsFrom, if_pos hq, literalsFrom_string h]
  rfl

/-- A string is its own list of literals. -/
theorem literals_of_string {q : Char} (hq : isQuote q = true) {body content : List Char}
    (h : StringBody q body content) : literals (q :: body) = q :: body := by
  have hwhole := literals_string hq h []
  rw [List.append_nil] at hwhole
  exact hwhole.trans (List.append_nil _)

/-! ### Equality after operands -/

/-- Whether an operand can end with a token. -/
def Token.endsOperand : Token → Bool
  | .int _ | .float _ | .str _ | .name _ => true
  | .symbol s => s == .dot || s == .closeParen || s == .closeBracket || s == .closeBrace

/-- What can stand in front of an operator for equality. -/
def Token.Precedes (t u : Token) : Prop := u = .symbol .equal → t.endsOperand = true

/-- Equality comes after operands alone. -/
structure Tidy (ts : List Token) : Prop where
  head : ∀ t ∈ ts.head?, t ≠ .symbol .equal
  chain : ts.IsChain Token.Precedes

/-- Tidy tokens that end as an operand does. Such tokens may stand in front of an equality, and be
joined with what follows it. -/
structure IsOperand (ts : List Token) : Prop extends Tidy ts where
  last : ∃ t ∈ ts.getLast?, t.endsOperand = true

section Tidy

variable {t : Token} {ts us : List Token}

/-- No tokens are in order. -/
theorem tidy_nil : Tidy [] := ⟨fun _ h => (nomatch h), .nil⟩

/-- A single token is in order if it is not an equality, which would have nothing in front of it. -/
theorem tidy_singleton (ht : t ≠ .symbol .equal) : Tidy [t] where
  head _ h := Option.some.inj h ▸ ht
  chain := .singleton t

/-- Runs of tokens in order may be joined. -/
theorem Tidy.append (h : Tidy ts) (h' : Tidy us) : Tidy (ts ++ us) where
  head t ht := by
    rw [List.head?_append, Option.mem_def, Option.or_eq_some_iff] at ht
    rcases ht with ht | ⟨-, ht⟩
    · exact h.head t ht
    · exact h'.head t ht
  chain := by
    refine h.chain.append h'.chain fun t _ u hu he => ?_
    exact absurd he (h'.head u hu)

/-- A token that is no equality may be put in front. -/
theorem Tidy.cons (ht : t ≠ .symbol .equal) (h : Tidy ts) : Tidy (t :: ts) :=
  (tidy_singleton ht).append h

/-- A run that is in order is an operand once a token that can end an operand stands behind it. -/
theorem Tidy.concat (h : Tidy ts) (ht : t.endsOperand = true) : IsOperand (ts ++ [t]) where
  toTidy := by
    refine h.append (tidy_singleton ?_)
    rintro rfl
    exact Bool.noConfusion ht
  last := ⟨t, List.getLast?_concat, ht⟩

/-- What ends with an operand ends with a token that can end one. -/
theorem IsOperand.last_append (h : IsOperand us) (ts : List Token) :
    ∃ t ∈ (ts ++ us).getLast?, t.endsOperand = true := by
  obtain ⟨t, ht, hends⟩ := h.last
  refine ⟨t, ?_, hends⟩
  rw [List.getLast?_append, Option.mem_def.1 ht]
  rfl

/-- Tokens in order followed by an operand are again an operand. -/
theorem Tidy.append_operand (h : Tidy ts) (h' : IsOperand us) : IsOperand (ts ++ us) where
  toTidy := h.append h'.toTidy
  last := h'.last_append ts

/-- An operator may be one for equality if it stands between operands. -/
theorem IsOperand.binary (h : IsOperand ts) (t : Token) (h' : IsOperand us) :
    IsOperand (ts ++ t :: us) where
  head u hu := by
    obtain ⟨last, hlast, -⟩ := h.last
    rcases ts with _ | ⟨first, ts⟩
    · exact nomatch hlast
    · exact h.head u hu
  chain := by
    have hright : (t :: us).IsChain Token.Precedes :=
      List.IsChain.append (.singleton t) h'.chain fun t _ u hu he => absurd he (h'.head u hu)
    refine h.chain.append hright fun u hu _ _ _ => ?_
    obtain ⟨last, hlast, hends⟩ := h.last
    obtain rfl : u = last := Option.some.inj (hu.symm.trans hlast)
    exact hends
  last := by
    rw [List.append_cons]
    exact h'.last_append (ts ++ [t])

/-- A symbol other than an equality is in order by itself. -/
theorem tidy_symbol (s : Symbol) (hs : s ≠ .equal) : Tidy [.symbol s] :=
  tidy_singleton fun he => hs (Token.symbol.inj he)

/-- Tokens in order between brackets are an operand: the closing bracket ends it. -/
theorem Tidy.enclosed (h : Tidy ts) (first last : Symbol) (hfirst : first ≠ .equal)
    (hlast : (Token.symbol last).endsOperand = true) :
    IsOperand (.symbol first :: (ts ++ [.symbol last])) :=
  ((tidy_symbol first hfirst).append h).concat hlast

/-- A list of arguments is in order if every argument is. -/
theorem tidy_commaSeparated {parts : List (List Token)} (h : ∀ part ∈ parts, Tidy part) :
    Tidy (commaSeparated parts) := by
  induction parts with
  | nil => exact tidy_nil
  | cons part parts ih =>
      obtain ⟨hpart, hparts⟩ := List.forall_mem_cons.1 h
      rcases parts with _ | ⟨next, parts⟩
      · rw [commaSeparated, List.intercalate_singleton]
        exact hpart
      · rw [commaSeparated, List.intercalate_cons_cons]
        exact (hpart.append (tidy_symbol .comma (by decide))).append (ih hparts)

/-- The key of an object entry is not an equality. -/
theorem ne_equal_of_entryKey? {key : String} (h : entryKey? t = some key) :
    t ≠ .symbol .equal := by
  rintro rfl
  exact nomatch h

/-- A prefix operator is not an equality. -/
theorem ne_equal_of_prefixOp? {op : Option UnaryOp} (h : prefixOp? t = some op) :
    t ≠ .symbol .equal := by
  rintro rfl
  exact nomatch h

/-- A token that names a member can end an operand. -/
theorem endsOperand_of_memberName? {field : String} (h : memberName? t = some field) :
    t.endsOperand = true := by
  unfold memberName? at h
  split at h
  · rfl
  · rfl
  · exact nomatch h

end Tidy

/-- The tokens of an expression are those of an operand: they end with a token that ends operands,
and every equality in them stands after an operand. The induction is on the derivation. -/
theorem Derives.isOperand {e : Expr} {ts : List Token} (h : Derives e ts) : IsOperand ts := by
  induction h with
  | int _ => exact tidy_nil.concat rfl
  | float _ => exact tidy_nil.concat rfl
  | str _ => exact tidy_nil.concat rfl
  | name _ => exact tidy_nil.concat rfl
  | current => exact tidy_nil.concat rfl
  | currentMember w => exact Tidy.concat (t := .name w) (tidy_symbol .dot (by decide)) rfl
  | parenthesized _ ih => exact ih.toTidy.enclosed .openParen .closeParen (by decide) rfl
  | array _ ih =>
      have hitems := tidy_commaSeparated (List.forall_mem_map.2 fun item hitem =>
        (ih item hitem).toTidy)
      exact hitems.enclosed .openBracket .closeBracket (by decide) rfl
  | mapping hkeys _ ih =>
      refine Tidy.enclosed ?_ .openBrace .closeBrace (by decide) rfl
      refine tidy_commaSeparated (List.forall_mem_map.2 fun entry hentry => ?_)
      refine .cons (ne_equal_of_entryKey? (hkeys entry hentry)) ?_
      exact .cons nofun (ih entry hentry).toTidy
  | @member e ts field t _ hfield ih =>
      rw [List.append_cons]
      refine (ih.toTidy.append (tidy_symbol .dot (by decide))).concat ?_
      exact endsOperand_of_memberName? hfield
  | index _ _ ih ihkey =>
      exact ih.toTidy.append_operand
        (ihkey.toTidy.enclosed .openBracket .closeBracket (by decide) rfl)
  | call _ _ ih ihargs =>
      have hargs := tidy_commaSeparated (List.forall_mem_map.2 fun arg harg =>
        (ihargs arg harg).toTidy)
      exact ih.toTidy.append_operand (hargs.enclosed .openParen .closeParen (by decide) rfl)
  | plus ht _ ih => exact (tidy_singleton (ne_equal_of_prefixOp? ht)).append_operand ih
  | unary ht _ ih => exact (tidy_singleton (ne_equal_of_prefixOp? ht)).append_operand ih
  | binary ht _ _ iha ihb => exact iha.binary _ ihb
  | choice _ _ _ ihcondition ihyes ihno =>
      exact ihcondition.binary _ (ihyes.binary _ ihno)

/-! ### Shorter spellings -/

/-- The longer spelling of equality, or of its negation, by the mark that it begins with. -/
def longSpelling (mark : Char) : List Char := [mark, '=', '=']

/-- The shorter spelling of equality, or of its negation. -/
def shortSpelling (mark : Char) : List Char := [mark, '=']

/-- A text with a shorter spelling in place of the longer one, wherever that occurs: inside the
string literals too. -/
def shorten (mark : Char) (cs : List Char) : List Char :=
  replaceAll (longSpelling mark) (shortSpelling mark) cs

section Lexeme

variable {mark : Char} {token : Token} {text rest : List Char}

/-- The table of symbols has two spellings of three characters, and both are equalities. -/
theorem spellings_long : ∀ entry ∈ Symbol.spellings, entry.1.length = 3 →
    entry = (longSpelling '=', .equal) ∨ entry = (longSpelling '!', .notEqual) := by
  decide

/-- A quote is not a mark. -/
theorem isMark_of_isQuote {c : Char} (h : isQuote c = true) : isMark c = false := by
  rw [Bool.eq_false_iff]
  exact fun hmark => Bool.false_ne_true ((classes_of_isMark hmark).2.2.2.symm.trans h)

/-- A blank is not a mark. -/
theorem isMark_of_isBlank {c : Char} (h : isBlank c = true) : isMark c = false := by
  rw [Bool.eq_false_iff]
  exact fun hmark => Bool.false_ne_true ((classes_of_isMark hmark).1.symm.trans h)

/-- No character of a word is a mark. -/
theorem isMark_of_isWordChar {c : Char} (h : isWordChar c = true) : isMark c = false := by
  rw [Bool.eq_false_iff]
  exact fun hmark => Bool.false_ne_true ((isWordChar_of_isMark hmark).symm.trans h)

/-- A long spelling occurs in the table only as itself, and the symbol it spells cannot end an
operand. So no other symbol is torn apart where the long spelling is replaced. -/
theorem spellings_shortened (hmark : isMark mark = true) : ∀ entry ∈ Symbol.spellings,
    ¬ longSpelling mark <:+: entry.1 ∨ entry.1 = longSpelling mark ∧
      (Token.symbol entry.2).endsOperand = false := by
  rcases eq_of_isMark hmark with rfl | rfl
  · decide
  · decide

/-- A symbol that can end an operand does not end in a mark, hence no long spelling starts inside of
it. -/
theorem spellings_last : ∀ entry ∈ Symbol.spellings, (Token.symbol entry.2).endsOperand = true →
    (entry.1.getLast?.all fun c => !isMark c) = true := by
  decide

/-- The only symbol that starts with an equals sign is the equality. -/
theorem spellings_first : ∀ entry ∈ Symbol.spellings, entry.1.head? = some '=' →
    entry.2 = .equal := by
  decide

/-- No symbol is spelled with a quote. -/
theorem spellings_unquoted : ∀ entry ∈ Symbol.spellings,
    (entry.1.all fun c => !isQuote c) = true := by
  decide

/-- The same for each character of a spelling, in the form the scan for literals needs. -/
theorem isQuote_of_mem_spellings {s : Symbol} (hmem : (text, s) ∈ Symbol.spellings) :
    ∀ c ∈ text, isQuote c = false := by
  intro c hc
  simpa using List.all_eq_true.1 (spellings_unquoted _ hmem) c hc

/-- The literals of a lexeme stand before those of the text after it. -/
theorem Lexeme.literals_append (h : Lexeme token text) (rest : List Char) :
    literals (text ++ rest) = literals text ++ literals rest := by
  have hunquoted : (∀ c ∈ text, isQuote c = false) →
      literals (text ++ rest) = literals text ++ literals rest := by
    intro hall
    rw [literals_unquoted hall, literals_of_unquoted hall]
    rfl
  cases h with
  | word _ _ hchars => exact hunquoted fun c hc => isQuote_of_isWordChar (hchars c hc)
  | symbol hmem => exact hunquoted (isQuote_of_mem_spellings hmem)
  | string hq hbody => rw [literals_string hq hbody, literals_of_string hq hbody]

/-- The longer spelling occurs in no lexeme but its own, unless it stands in a literal. -/
theorem Lexeme.longSpelling_cases (h : Lexeme token text) (hmark : isMark mark = true)
    (hliterals : ¬ longSpelling mark <:+: literals text) :
    ¬ longSpelling mark <:+: text ∨
      ∃ s, (longSpelling mark, s) ∈ Symbol.spellings ∧ text = longSpelling mark ∧
        token = .symbol s ∧ token.endsOperand = false := by
  cases h with
  | word _ _ hchars =>
      refine .inl fun hoccurs => ?_
      have hmem := hchars mark (hoccurs.subset List.mem_cons_self)
      exact Bool.false_ne_true ((isMark_of_isWordChar hmem).symm.trans hmark)
  | @symbol s text hmem =>
      refine (spellings_shortened hmark _ hmem).imp_right ?_
      rintro ⟨htext, hends⟩
      exact ⟨s, htext ▸ hmem, htext, rfl, hends⟩
  | string hq hbody => exact .inl (literals_of_string hq hbody ▸ hliterals)

/-- No mark ends an operand. -/
theorem Lexeme.isMark_last (h : Lexeme token text) (hends : token.endsOperand = true) :
    ∀ c ∈ text.getLast?, isMark c = false := by
  intro c hc
  cases h with
  | word _ _ hchars => exact isMark_of_isWordChar (hchars c (List.mem_of_getLast? hc))
  | symbol hmem =>
      have hlast := spellings_last _ hmem hends
      rw [Option.mem_def.1 hc] at hlast
      simpa using hlast
  | @string q body content hq hbody =>
      rw [List.getLast?_cons, hbody.getLast?_eq] at hc
      obtain rfl := Option.some.inj hc
      exact isMark_of_isQuote hq

/-- Text that begins with an equals sign begins with equality: a single sign is no token, and of
several the first two are one. -/
theorem Lexes.head_equal {cs : List Char} {tokens : List Token} (h : Lexes rest cs tokens)
    (hcs : cs.head? = some '=') : tokens.head? = some (.symbol .equal) := by
  cases h with
  | nil => exact nomatch hcs
  | blank hc _ =>
      obtain rfl := Option.some.inj hcs
      exact absurd hc (by decide)
  | @token token text cs tokens hspells _ =>
      have htext : text.head? = some '=' := by
        obtain ⟨c, text, rfl, -⟩ := hspells
        exact hcs
      refine congrArg some ?_
      cases hspells.lexeme with
      | word _ _ hchars => exact absurd (hchars '=' (List.mem_of_head? htext)) (by decide)
      | symbol hmem => exact congrArg Token.symbol (spellings_first _ hmem htext)
      | string hq _ =>
          obtain rfl := Option.some.inj htext
          exact absurd hq (by decide)

end Lexeme

/-! ### Shortening -/

section Shorten

variable {mark : Char} (hmark : isMark mark = true)

include hmark

/-- Where no occurrence begins in a text and none goes on into what follows, the text is kept. At
the seam only its last character matters: an occurrence that goes across has a mark there. -/
theorem shorten_append {text rest : List Char} (hoccurs : ¬ longSpelling mark <:+: text)
    (hseam : rest.head? = some '=' → ∀ c ∈ text.getLast?, isMark c = false) :
    shorten mark (text ++ rest) = text ++ shorten mark rest := by
  refine replaceAll_append fun start hne hsuffix hprefix => ?_
  have hlast : ∀ c ∈ start.getLast?, rest.head? = some '=' → isMark c = false := by
    intro c hc hrest
    obtain ⟨before, rfl⟩ := hsuffix
    refine hseam hrest c ?_
    rw [List.getLast?_append, Option.mem_def.1 hc]
    rfl
  rcases start with _ | ⟨c, _ | ⟨d, _ | ⟨e, start⟩⟩⟩
  · exact hne rfl
  · obtain ⟨rfl, hrest⟩ := List.cons_prefix_cons.1 hprefix
    obtain ⟨after, rfl⟩ := hrest
    exact Bool.false_ne_true ((hlast mark rfl rfl).symm.trans hmark)
  · obtain ⟨rfl, hrest⟩ := List.cons_prefix_cons.1 hprefix
    obtain ⟨rfl, after, hafter⟩ := List.cons_prefix_cons.1 hrest
    obtain rfl : '=' :: after = rest := hafter
    exact Bool.false_ne_true ((hlast '=' rfl rfl).symm.trans rfl)
  · obtain ⟨rfl, hrest⟩ := List.cons_prefix_cons.1 hprefix
    obtain ⟨rfl, hmore⟩ := List.cons_prefix_cons.1 hrest
    obtain ⟨rfl, -⟩ := List.cons_prefix_cons.1 hmore
    exact hoccurs ((List.prefix_append (longSpelling mark) start).isInfix.trans hsuffix.isInfix)

/-- The shorter spelling is read as the same operator in front of anything but an equals sign. In
front of one it would be read as the longer spelling. -/
theorem spells_shortSpelling {s : Symbol} (hmem : (longSpelling mark, s) ∈ Symbol.spellings)
    {rest : List Char} (hrest : rest.head? ≠ some '=') :
    Spells (.symbol s) (shortSpelling mark) rest := by
  have hread : Symbol.take? (shortSpelling mark ++ rest) = some (s, rest) := by
    rcases spellings_long _ hmem rfl with he | he
    · obtain ⟨hlong, rfl⟩ := Prod.mk.inj he
      obtain rfl : mark = '=' := (List.cons.inj hlong).1
      rcases rest with _ | ⟨c, rest⟩
      · rfl
      · have hc : ¬ '=' = c := fun he => hrest (congrArg some he.symm)
        simp [shortSpelling, Symbol.take?, Symbol.spellings, Symbol.text, stripPrefix?, hc]
    · obtain ⟨hlong, rfl⟩ := Prod.mk.inj he
      obtain rfl : mark = '!' := (List.cons.inj hlong).1
      rcases rest with _ | ⟨c, rest⟩
      · rfl
      · have hc : ¬ '=' = c := fun he => hrest (congrArg some he.symm)
        simp [shortSpelling, Symbol.take?, Symbol.spellings, Symbol.text, stripPrefix?, hc]
  obtain ⟨hblank, hdigit, hname, hquote⟩ := classes_of_isMark hmark
  refine ⟨mark, ['='], rfl, hblank, fun position => ?_⟩
  have htake : Symbol.take? (mark :: (['='] ++ rest)) = some (s, rest) := hread
  rw [takeToken, hdigit, hname, hquote, htake]
  rfl

/-- A text keeps its tokens where the longer spelling of an operator is replaced, unless it stands
in a literal. -/
theorem lexes_shorten {cs : List Char} {tokens : List Token} (h : Lexes [] cs tokens)
    (hchain : tokens.IsChain Token.Precedes) (hliterals : ¬ longSpelling mark <:+: literals cs) :
    Lexes [] (shorten mark cs) tokens ∧ Alike cs (shorten mark cs) := by
  induction h with
  | nil => exact ⟨.nil, .refl []⟩
  | @blank c cs tokens hc _ ih =>
      have hplain : isMark c = false := isMark_of_isBlank hc
      have hunquoted : ∀ d ∈ [c], isQuote d = false :=
        List.forall_mem_singleton.2 (isQuote_of_isBlank hc)
      have hoccurs : ¬ longSpelling mark <:+: [c] := fun h => nomatch h.length_le
      have hkept : shorten mark (c :: cs) = c :: shorten mark cs := by
        refine shorten_append hmark hoccurs fun _ d hd => ?_
        obtain rfl := Option.some.inj hd
        exact hplain
      have hsame : literals (c :: cs) = literals cs := literals_unquoted hunquoted cs
      rw [hsame] at hliterals
      obtain ⟨hlexes, halike⟩ := ih hchain hliterals
      rw [hkept]
      exact ⟨.blank hc hlexes, halike.append [c]⟩
  | @token token text cs tokens hspells hcs ih =>
      have hlexeme := hspells.lexeme
      rw [hlexeme.literals_append] at hliterals
      obtain ⟨hlexes, halike⟩ := ih hchain.tail fun hoccurs =>
        hliterals (hoccurs.trans (List.suffix_append _ _).isInfix)
      -- An equals sign behind the token is that of an equality, hence the token ends an operand.
      have hends : cs.head? = some '=' → token.endsOperand = true := by
        intro hhead
        exact (List.isChain_cons.1 hchain).1 _ (hcs.head_equal hhead) rfl
      rw [List.append_nil] at hspells
      rcases hlexeme.longSpelling_cases hmark fun hoccurs =>
        hliterals (hoccurs.trans (List.prefix_append _ _).isInfix) with
        hoccurs | ⟨s, hmem, rfl, rfl, hoperator⟩
      -- The longer spelling does not occur in the token, nor does it begin in it and go on behind
      -- it.
      · rw [shorten_append hmark hoccurs fun hhead => hlexeme.isMark_last (hends hhead)]
        refine ⟨.token ?_ hlexes, halike.append text⟩
        rw [List.append_nil]
        exact hspells.of_alike halike
      -- The token is the longer spelling. What follows its shorter one is no equals sign.
      · have hnext : (shorten mark cs).head? ≠ some '=' := by
          rw [← halike.head?_eq]
          exact fun hhead => Bool.false_ne_true (hoperator.symm.trans (hends hhead))
        rw [shorten, longSpelling, replaceAll_old, ← longSpelling, ← shorten]
        refine ⟨.token ?_ hlexes, .mark [] _ _ hmark⟩
        rw [List.append_nil]
        exact spells_shortSpelling hmark hmem hnext

end Shorten

end Stencil.Expr
