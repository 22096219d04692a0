import Stencil.Proofs.Decimal
import Stencil.Proofs.Expr.Print
import Stencil.Proofs.Text

/-!
# Words of printed expressions

The lexer on the text of pieces.

## Main definitions

* `Stops` — text in front of which a name or a number ends
* `Piece.EndsBefore`, `Spaced` — pieces that are told from the text after them
* `Spells` — text that is read as a token
* `Lexes` — text that is divided into tokens

## Main results

* `Piece.spells` — a printed piece is read as its token
* `tokenizeFrom_textOf` — the text of spaced pieces is divided into their tokens
-/

namespace Stencil.Expr

open Text

/-! ### Single tokens -/

/-- No symbol grows by the first character of a text. -/
def Apart (rest : List Char) : Prop := ∀ c ∈ rest.head?, c ∉ ['=', '*', '?']

/-- Neither a name nor a number nor a symbol goes on at the start of a text. -/
structure Stops (rest : List Char) : Prop where
  isNameChar : ∀ c ∈ rest.head?, isNameChar c = false
  isDigit : ∀ c cs, rest = '.' :: c :: cs → c.isDigit = false
  apart : Apart rest

/-- A piece is told from the text after it. -/
def Piece.EndsBefore (rest : List Char) : Piece → Prop
  | .int _ | .name _ => Stops rest
  | .symbol _ => Apart rest
  | .str _ | .blank => True

/-- A piece is written as what it is. -/
def Piece.Proper : Piece → Prop
  | .int i => 0 ≤ i.toInt
  | .name s => isName s.toList = true
  | _ => True

/-- A number ends where neither digits, a fraction nor an exponent follow. Its digits are then all
of it, and it is an integer. -/
theorem takeNumber_digits {digits : List Char} (hdigits : ∀ c ∈ digits, c.isDigit = true)
    {i : Int64} (hread : Decimal.readInt64? digits = some i) {rest : List Char}
    (hrest : Stops rest) : takeNumber (digits ++ rest) = (.int i, rest) := by
  have hstop : ∀ c ∈ rest.head?, c.isDigit = false := by
    intro c hc
    rw [Bool.eq_false_iff]
    intro hdigit
    exact Bool.false_ne_true ((hrest.isNameChar c hc).symm.trans (isNameChar_iff.2 (.inr hdigit)))
  obtain ⟨htake, hdrop⟩ := takeWhile_append hdigits hstop
  have hfraction : splitFraction rest = ([], rest) := by
    unfold splitFraction
    split
    · rename_i d cs
      rw [hrest.isDigit d cs rfl]
      rfl
    · rfl
  have hexponent : splitExponent rest = ([], rest) := by
    unfold splitExponent
    split
    · rename_i mark sign cs
      have hmark := hrest.isNameChar mark rfl
      have hne : mark ≠ 'e' ∧ mark ≠ 'E' := by
        constructor
        · rintro rfl
          exact absurd hmark (by decide)
        · rintro rfl
          exact absurd hmark (by decide)
      simp [hne.1, hne.2]
    · rfl
  simp only [takeNumber, htake, hdrop, hfraction, hexponent, hread]
  rfl

/-- A character that escapes nothing ends a string or belongs to it. -/
theorem takeString?_cons {quote c : Char} (hc : c ≠ '\\') (cs : List Char) :
    takeString? quote (c :: cs) = if c = quote then some ([], cs)
      else (takeString? quote cs).map fun (content, rest) => (c :: content, rest) := by
  rw [takeString?]
  · exact fun he _ => hc he
  · exact fun _ _ he => absurd he hc

/-- An escaped character is read as that character. It is written after a backslash, or as it is if
it needs none. -/
theorem takeString?_escapedIn {quote : Char} (hquote : isQuote quote = true) (c : Char)
    (cs : List Char) :
    takeString? quote (escapedIn quote c ++ cs) =
      (takeString? quote cs).map fun (content, rest) => (c :: content, rest) := by
  unfold escapedIn
  split
  · subst c
    rfl
  split
  · subst c
    rfl
  split
  · subst c
    rfl
  split
  · rename_i hc
    have hvalue : escapeValue c = c := by
      rcases hc with rfl | rfl
      · simp only [isQuote, Bool.or_eq_true, beq_iff_eq] at hquote
        rcases hquote with rfl | rfl
        · rfl
        · rfl
      · rfl
    show (takeString? quote cs).map _ = _
    rw [hvalue]
  · rename_i hc
    rw [not_or] at hc
    rw [List.singleton_append, takeString?_cons hc.2, if_neg hc.1]

/-- A string ends at the quote after its escaped content. -/
theorem takeString?_escaped {quote : Char} (hquote : isQuote quote = true) (cs rest : List Char) :
    takeString? quote (cs.flatMap (escapedIn quote) ++ quote :: rest) = some (cs, rest) := by
  induction cs with
  | nil =>
      have hne : quote ≠ '\\' := by
        rintro rfl
        exact absurd hquote (by decide)
      show takeString? quote (quote :: rest) = _
      rw [takeString?_cons hne, if_pos rfl]
  | cons c cs ih =>
      rw [List.flatMap_cons, List.append_assoc, takeString?_escapedIn hquote, ih]
      rfl

theorem takeString?_plain {quote : Char} (hquote : quote ≠ '\\') {content : List Char}
    (hcontent : quote ∉ content) (hescape : '\\' ∉ content) (rest : List Char) :
    takeString? quote (content ++ quote :: rest) = some (content, rest) := by
  induction content with
  | nil =>
      rw [List.nil_append, takeString?_cons hquote, if_pos rfl]
  | cons c content ih =>
      rw [List.mem_cons, not_or] at hcontent hescape
      rw [List.cons_append, takeString?_cons (Ne.symm hescape.1), if_neg (Ne.symm hcontent.1),
        ih hcontent.2 hescape.2]
      rfl

/-- A text is read as a token in front of `rest`. It is stated for every position, since a token is
the same wherever it stands. -/
def Spells (token : Token) (text rest : List Char) : Prop :=
  ∃ c cs, text = c :: cs ∧ isBlank c = false ∧
    ∀ position, takeToken position c (cs ++ rest) = .ok (token, rest)

/-- A name ends where something else begins. -/
theorem spells_name {s : String} (hs : isName s.toList = true) {rest : List Char}
    (hrest : ∀ c ∈ rest.head?, isNameChar c = false) : Spells (.name s) s.toList rest := by
  obtain ⟨c, cs, htext, hc, hcs⟩ := exists_cons_of_isName hs
  obtain ⟨htake, hdrop⟩ := takeWhile_append hcs hrest
  refine ⟨c, cs, htext, isBlank_of_isNameChar (isNameChar_of_isNameStart hc), fun position => ?_⟩
  have hname : String.ofList (c :: cs) = s := by
    rw [← htext, String.ofList_toList]
  rw [takeToken, isDigit_of_isNameStart hc, hc, htake, hdrop, hname]
  rfl

theorem spells_ofList {word rest : List Char} (hword : isName word = true)
    (hrest : ∀ c ∈ rest.head?, isNameChar c = false) :
    Spells (.name (String.ofList word)) word rest := by
  have hspells : Spells (.name (String.ofList word)) (String.ofList word).toList rest :=
    spells_name (by rwa [String.toList_ofList]) hrest
  rwa [String.toList_ofList] at hspells

theorem spells_digits {digits : List Char} (hne : digits ≠ [])
    (hdigits : ∀ c ∈ digits, c.isDigit = true) {i : Int64}
    (hread : Decimal.readInt64? digits = some i) {rest : List Char} (hrest : Stops rest) :
    Spells (.int i) digits rest := by
  have htake := takeNumber_digits hdigits hread hrest
  rcases digits with _ | ⟨c, cs⟩
  · exact absurd rfl hne
  have hc := hdigits c List.mem_cons_self
  refine ⟨c, cs, rfl, isBlank_of_isNameChar (isNameChar_iff.2 (.inr hc)), fun position => ?_⟩
  rw [takeToken, if_pos hc]
  exact congrArg Except.ok htake

theorem spells_int {i : Int64} (h : 0 ≤ i.toInt) {rest : List Char} (hrest : Stops rest) :
    Spells (.int i) (Nat.toDigits 10 i.toInt.toNat) rest :=
  spells_digits Nat.toDigits_ne_nil Decimal.isDigit_of_mem_toDigits (Decimal.readInt64?_toDigits h)
    hrest

theorem spells_str (style : Style) (s : String) (rest : List Char) :
    Spells (.str s) (Piece.chars style (.str s)) rest := by
  obtain ⟨hblank, hdigit, hname⟩ := quote_classes style.isQuote_quote
  refine ⟨style.quote, s.toList.flatMap (escapedIn style.quote) ++ [style.quote], rfl, hblank,
    fun position => ?_⟩
  rw [takeToken, hdigit, hname, style.isQuote_quote, List.append_assoc, List.singleton_append,
    takeString?_escaped style.isQuote_quote]
  show Except.ok (Token.str (String.ofList s.toList), rest) = _
  rw [String.ofList_toList]

/-- What stands between quotes without escapes is a string. -/
theorem spells_quoted {quote : Char} (hquote : isQuote quote = true) {content : List Char}
    (hcontent : quote ∉ content) (hescape : '\\' ∉ content) (rest : List Char) :
    Spells (.str (String.ofList content)) (quote :: (content ++ [quote])) rest := by
  obtain ⟨hblank, hdigit, hname⟩ := quote_classes hquote
  have hne : quote ≠ '\\' := by
    rintro rfl
    exact absurd hquote (by decide)
  refine ⟨quote, content ++ [quote], rfl, hblank, fun position => ?_⟩
  rw [takeToken, hdigit, hname, hquote, List.append_assoc, List.singleton_append,
    takeString?_plain hne hcontent hescape]
  rfl

/-- A symbol is no beginning of a longer one where none grows. -/
theorem take?_text (s : Symbol) {rest : List Char} (h : Apart rest) :
    Symbol.take? (s.text.toList ++ rest) = some (s, rest) := by
  rcases rest with _ | ⟨c, cs⟩
  · cases s <;> rfl
  · have hc := h c rfl
    simp only [List.mem_cons, not_or, List.not_mem_nil, not_false_eq_true, and_true] at hc
    obtain ⟨hequal, hstar, hquestion⟩ := hc
    cases s <;>
      simp [Symbol.take?, Symbol.spellings, Symbol.text, stripPrefix?, Ne.symm hequal,
        Ne.symm hstar, Ne.symm hquestion]

/-- The first character of a symbol begins no other word. -/
theorem symbol_cons (s : Symbol) : ∃ c cs, s.text.toList = c :: cs ∧ isBlank c = false ∧
    c.isDigit = false ∧ isNameStart c = false ∧ isQuote c = false := by
  cases s <;> exact ⟨_, _, rfl, by decide, by decide, by decide, by decide⟩

theorem spells_symbol (s : Symbol) {rest : List Char} (h : Apart rest) :
    Spells (.symbol s) s.text.toList rest := by
  have hread := take?_text s h
  obtain ⟨c, cs, htext, hblank, hdigit, hname, hquote⟩ := symbol_cons s
  rw [htext, List.cons_append] at hread
  refine ⟨c, cs, htext, hblank, fun position => ?_⟩
  rw [takeToken, hdigit, hname, hquote, hread]
  rfl

/-- A printed piece is read as its token, whatever text it ends before: a number is not followed by
digits or a point, a name not by characters of names, a symbol by nothing that makes it a longer
one. -/
theorem Piece.spells (style : Style) {p : Piece} {token : Token} (htoken : p.token? = some token)
    (hp : p.Proper) {rest : List Char} (hrest : p.EndsBefore rest) :
    Spells token (p.chars style) rest := by
  cases p with
  | int i =>
      obtain rfl := Option.some.inj htoken
      exact spells_int hp hrest
  | str s =>
      obtain rfl := Option.some.inj htoken
      exact spells_str style s rest
  | name s =>
      obtain rfl := Option.some.inj htoken
      exact spells_name hp hrest.isNameChar
  | symbol s =>
      obtain rfl := Option.some.inj htoken
      exact spells_symbol s hrest
  | blank => cases htoken

/-! ### Token lists -/

/-- A text is divided into tokens in front of `rest`, with blanks between them. The relation has no
bound, unlike the loop that divides texts. -/
inductive Lexes (rest : List Char) : List Char → List Token → Prop where
  | nil : Lexes rest [] []
  | blank {c : Char} {cs : List Char} {tokens : List Token} : isBlank c = true →
      Lexes rest cs tokens → Lexes rest (c :: cs) tokens
  | token {token : Token} {text cs : List Char} {tokens : List Token} :
      Spells token text (cs ++ rest) → Lexes rest cs tokens →
      Lexes rest (text ++ cs) (token :: tokens)

namespace Lexes

variable {rest cs cs' : List Char} {tokens tokens' : List Token}

theorem append (h : Lexes (cs' ++ rest) cs tokens) (h' : Lexes rest cs' tokens') :
    Lexes rest (cs ++ cs') (tokens ++ tokens') := by
  induction h with
  | nil => exact h'
  | blank hc _ ih => exact .blank hc ih
  | token hspells _ ih =>
      rw [← List.append_assoc] at hspells
      rw [List.append_assoc]
      exact .token hspells ih

theorem single {token : Token} {text : List Char} (h : Spells token text rest) :
    Lexes rest text [token] := by
  rw [← List.append_nil text]
  exact .token h .nil

theorem blanks (h : ∀ c ∈ cs, isBlank c = true) : Lexes rest cs [] := by
  induction cs with
  | nil => exact .nil
  | cons c cs ih =>
      exact .blank (h c List.mem_cons_self) (ih fun d hd => h d (List.mem_cons_of_mem c hd))

/-- The tokens of a text are found at some positions. The bound counts characters, of which each
token and each blank takes off at least one. -/
theorem tokenizeFrom (h : Lexes [] cs tokens) {bound : Nat} (hbound : cs.length ≤ bound)
    (position : Nat) :
    ∃ ts, Expr.tokenizeFrom bound position cs = .ok ts ∧ ts.map Prod.snd = tokens := by
  induction h generalizing bound position with
  | nil =>
      refine ⟨[], ?_, rfl⟩
      cases bound with
      | zero => rfl
      | succ bound => rfl
  | @blank c cs tokens hc hcs ih =>
      rw [List.length_cons] at hbound
      obtain ⟨bound, rfl⟩ : ∃ n, bound = n + 1 := ⟨bound - 1, by omega⟩
      rw [Expr.tokenizeFrom, hc]
      exact ih (by omega) _
  | @token token text cs tokens hspells hcs ih =>
      obtain ⟨c, text, rfl, hblank, htake⟩ := hspells
      rw [List.append_nil] at htake
      rw [List.length_append, List.length_cons] at hbound
      obtain ⟨bound, rfl⟩ : ∃ n, bound = n + 1 := ⟨bound - 1, by omega⟩
      obtain ⟨ts, hts, hsame⟩ := ih (show _ ≤ bound by omega)
        (position + (byteLength (c :: (text ++ cs)) - byteLength cs))
      refine ⟨(position, token) :: ts, ?_, congrArg (token :: ·) hsame⟩
      rw [List.cons_append, Expr.tokenizeFrom, hblank, htake]
      show (Expr.tokenizeFrom bound _ _ >>= _) = _
      rw [hts]
      rfl

end Lexes

/-- Each piece is told from what follows it, where `rest` follows the last. -/
def Spaced (style : Style) (rest : List Char) : List Piece → Prop
  | [] => True
  | p :: ps => p.Proper ∧ p.EndsBefore (textOf style ps ++ rest) ∧ Spaced style rest ps

theorem textOf_append (style : Style) (ps qs : List Piece) :
    textOf style (ps ++ qs) = textOf style ps ++ textOf style qs :=
  List.flatMap_append

theorem textOf_cons (style : Style) (p : Piece) (ps : List Piece) :
    textOf style (p :: ps) = p.chars style ++ textOf style ps :=
  List.flatMap_cons

theorem spaced_append {style : Style} {rest : List Char} {ps qs : List Piece} :
    Spaced style rest (ps ++ qs) ↔
      Spaced style (textOf style qs ++ rest) ps ∧ Spaced style rest qs := by
  induction ps with
  | nil => exact (and_iff_right trivial).symm
  | cons p ps ih =>
      rw [List.cons_append, Spaced, Spaced, ih, textOf_append, List.append_assoc, and_assoc,
        and_assoc]

/-- The tokens of spaced pieces are those of their text. -/
theorem lexes_textOf (style : Style) {rest : List Char} {ps : List Piece}
    (h : Spaced style rest ps) : Lexes rest (textOf style ps) ((tokensOf ps).map Prod.snd) := by
  induction ps with
  | nil => exact .nil
  | cons p ps ih =>
      obtain ⟨hp, hends, hps⟩ := h
      rw [textOf_cons, tokensOf, List.filterMap_cons]
      cases htoken : p.token? with
      | none =>
          obtain rfl : p = .blank := by
            cases p with
            | blank => rfl
            | _ => cases htoken
          exact .blank rfl (ih hps)
      | some token => exact .token (Piece.spells style htoken hp hends) (ih hps)

/-- The text of spaced pieces is divided into their tokens. Spaces are pieces without a token; every
other piece must be told from the one after it, which is all that being spaced says. -/
theorem tokenizeFrom_textOf (style : Style) {ps : List Piece} (h : Spaced style [] ps)
    {bound : Nat} (hbound : (textOf style ps).length ≤ bound) (position : Nat) :
    ∃ ts, tokenizeFrom bound position (textOf style ps) = .ok ts ∧
      ts.map Prod.snd = (tokensOf ps).map Prod.snd :=
  (lexes_textOf style h).tokenizeFrom hbound position

end Stencil.Expr
