import Mathlib.Data.List.TakeWhile
import Stencil.Proofs.Expr.Position
import Stencil.Proofs.Expr.Words

/-!
# Lexemes

What the texts of tokens look like.

## Main definitions

* `StringBody` — the text of a string literal after its opening quote
* `Lexeme` — the text of a token
* `Cuts` — text that neither a name nor a number goes on into
* `LexesAt` — text that is divided into tokens at positions

## Main results

* `exists_lexeme` — a token is taken off with a lexeme
* `Spells.of_cuts` — a token that ends before some text is read in front of another one
* `lexesAt_of_tokenize` — a text whose tokens are found is divided into them where they are found
-/

namespace Stencil.Expr

open Text

/-! ### The texts of tokens -/

/-- A character of names and numbers. -/
def isWordChar (c : Char) : Bool := isNameChar c || c == '.' || c == '+' || c == '-'

/-- Names and numbers. -/
def Token.isWord : Token → Bool
  | .int _ | .float _ | .name _ => true
  | .str _ | .symbol _ => false

/-- The text of a string literal after its opening quote, and what it is read as. The closing quote
is part of the body; a backslash takes the character after it along. -/
inductive StringBody (q : Char) : (body content : List Char) → Prop where
  | closing : q ≠ '\\' → StringBody q [q] []
  | escaped {body content : List Char} (c : Char) : StringBody q body content →
      StringBody q ('\\' :: c :: body) (escapeValue c :: content)
  | plain {c : Char} {body content : List Char} : c ≠ '\\' → c ≠ q →
      StringBody q body content → StringBody q (c :: body) (c :: content)

/-- The text of a token: a name or a number, a symbol, or a string up to its closing quote. A text
may be that of several tokens here; which of them is read depends on what follows. -/
inductive Lexeme : Token → List Char → Prop where
  | word {token : Token} {word : List Char} : token.isWord = true → word ≠ [] →
      (∀ c ∈ word, isWordChar c = true) → (∀ s, token = .name s → s.toList = word) →
      Lexeme token word
  | symbol {s : Symbol} {word : List Char} : (word, s) ∈ Symbol.spellings →
      Lexeme (.symbol s) word
  | string {q : Char} {body content : List Char} : isQuote q = true →
      StringBody q body content → Lexeme (.str (String.ofList content)) (q :: body)

/-- A string ends with its closing quote. -/
theorem StringBody.getLast?_eq {q : Char} {body content : List Char}
    (h : StringBody q body content) : body.getLast? = some q := by
  induction h with
  | closing => rfl
  | escaped c _ ih =>
      rw [List.getLast?_cons, List.getLast?_cons, ih]
      rfl
  | plain _ _ _ ih =>
      rw [List.getLast?_cons, ih]
      rfl

/-- Every symbol has at least one character. -/
theorem spellings_ne_nil : ∀ entry ∈ Symbol.spellings, entry.1 ≠ [] := by
  decide

/-- The text of a token is never empty, so each step of the lexer makes progress. -/
theorem Lexeme.ne_nil {token : Token} {word : List Char} (h : Lexeme token word) : word ≠ [] := by
  cases h with
  | word _ hne => exact hne
  | symbol hmem => exact spellings_ne_nil _ hmem
  | string _ _ => exact List.cons_ne_nil _ _

/-! ### Characters of words -/

/-- A character of names is one of words. -/
theorem isWordChar_of_isNameChar {c : Char} (h : isNameChar c = true) : isWordChar c = true := by
  simp [isWordChar, h]

/-- A digit is a character of words. -/
theorem isWordChar_of_isDigit {c : Char} (h : c.isDigit = true) : isWordChar c = true :=
  isWordChar_of_isNameChar (isNameChar_iff.2 (.inr h))

/-- A character of words differs from any that is none. -/
theorem ne_of_isWordChar {c d : Char} (hc : isWordChar c = true) (hd : isWordChar d = false) :
    c ≠ d := by
  rintro rfl
  exact Bool.false_ne_true (hd.symm.trans hc)

/-- No character of a word is a quote. -/
theorem isQuote_of_isWordChar {c : Char} (h : isWordChar c = true) : isQuote c = false := by
  simp [isQuote, ne_of_isWordChar h (d := '\'') rfl, ne_of_isWordChar h (d := '"') rfl]

/-- Two characters of words and a run of digits. -/
theorem isWordChar_of_mem_digits {c d : Char} (hc : isWordChar c = true) (hd : isWordChar d = true)
    (cs : List Char) : ∀ e ∈ c :: d :: cs.takeWhile Char.isDigit, isWordChar e = true := by
  intro e he
  rcases List.mem_cons.1 he with rfl | he
  · exact hc
  rcases List.mem_cons.1 he with rfl | he
  · exact hd
  · exact isWordChar_of_isDigit (List.mem_takeWhile_imp he)

/-- A text is divided into characters of words and a rest. -/
def Divides (cs : List Char) (parts : List Char × List Char) : Prop :=
  cs = parts.1 ++ parts.2 ∧ ∀ c ∈ parts.1, isWordChar c = true

/-- Nothing may be taken off. -/
theorem divides_nil (cs : List Char) : Divides cs ([], cs) := ⟨rfl, fun _ hc => nomatch hc⟩

/-- Two characters of words and the digits after them are taken off. A fraction begins this way with
a point and a digit, an exponent with its mark and a sign or a digit. -/
theorem divides_digits {c d : Char} (hc : isWordChar c = true) (hd : isWordChar d = true)
    (cs : List Char) :
    Divides (c :: d :: cs) (c :: d :: cs.takeWhile Char.isDigit, cs.dropWhile Char.isDigit) := by
  refine ⟨?_, isWordChar_of_mem_digits hc hd cs⟩
  show c :: d :: cs = c :: d :: (cs.takeWhile Char.isDigit ++ cs.dropWhile Char.isDigit)
  rw [List.takeWhile_append_dropWhile]

/-- What is taken off as a fraction consists of characters of words. -/
theorem divides_splitFraction (cs : List Char) : Divides cs (splitFraction cs) := by
  unfold splitFraction
  split
  · rename_i d cs
    split
    · rename_i hd
      exact divides_digits rfl (isWordChar_of_isDigit hd) cs
    · exact divides_nil _
  · exact divides_nil _

/-- So does what is taken off as an exponent. Without digits after the mark and the sign nothing is
taken off. -/
theorem divides_splitExponent (cs : List Char) : Divides cs (splitExponent cs) := by
  unfold splitExponent
  split
  · rename_i mark sign cs
    split
    · rename_i hmark
      have hmark : isWordChar mark = true := by
        simp only [Bool.or_eq_true, beq_iff_eq] at hmark
        rcases hmark with rfl | rfl
        · rfl
        · rfl
      split
      · rename_i hsign
        exact divides_digits hmark (isWordChar_of_isDigit hsign) cs
      split
      · rename_i hsign
        have hsign : isWordChar sign = true := by
          simp only [Bool.and_eq_true, Bool.or_eq_true, beq_iff_eq] at hsign
          rcases hsign.1 with rfl | rfl
          · rfl
          · rfl
        exact divides_digits hmark hsign cs
      · exact divides_nil _
    · exact divides_nil _
  · exact divides_nil _

/-- The lexer makes a number of the text of a number, and never a name. -/
theorem isWord_takeNumber (cs : List Char) :
    (takeNumber cs).1.isWord = true ∧ ∀ s, (takeNumber cs).1 ≠ .name s := by
  simp only [takeNumber]
  split
  · split
    · exact ⟨rfl, fun _ => Token.noConfusion⟩
    · exact ⟨rfl, fun _ => Token.noConfusion⟩
  · exact ⟨rfl, fun _ => Token.noConfusion⟩

/-- A number that begins with a digit is taken off with its lexeme: digits, a fraction and an
exponent, all of whose characters are those of words. -/
theorem exists_takeNumber {c : Char} (hc : c.isDigit = true) {cs rest : List Char} {token : Token}
    (h : takeNumber (c :: cs) = (token, rest)) :
    ∃ word, c :: cs = word ++ rest ∧ Lexeme token word := by
  obtain ⟨hfraction, hfractionChars⟩ := divides_splitFraction ((c :: cs).dropWhile Char.isDigit)
  obtain ⟨hexponent, hexponentChars⟩ :=
    divides_splitExponent (splitFraction ((c :: cs).dropWhile Char.isDigit)).2
  obtain rfl : (splitExponent (splitFraction ((c :: cs).dropWhile Char.isDigit)).2).2 = rest :=
    congrArg Prod.snd h
  have htoken : (takeNumber (c :: cs)).1 = token := congrArg Prod.fst h
  obtain ⟨hword, hnumber⟩ : token.isWord = true ∧ ∀ s, token ≠ .name s :=
    htoken ▸ isWord_takeNumber (c :: cs)
  refine ⟨(c :: cs).takeWhile Char.isDigit ++
    ((splitFraction ((c :: cs).dropWhile Char.isDigit)).1 ++
      (splitExponent (splitFraction ((c :: cs).dropWhile Char.isDigit)).2).1), ?_, ?_⟩
  · rw [List.append_assoc, List.append_assoc, ← hexponent, ← hfraction,
      List.takeWhile_append_dropWhile]
  · refine .word hword ?_ (fun d hd => ?_) fun s hs => absurd hs (hnumber s)
    · rw [List.takeWhile_cons_of_pos hc]
      exact List.cons_ne_nil _ _
    · rcases List.mem_append.1 hd with hd | hd
      · exact isWordChar_of_isDigit (List.mem_takeWhile_imp hd)
      rcases List.mem_append.1 hd with hd | hd
      · exact hfractionChars d hd
      · exact hexponentChars d hd

/-- A character of a string to which neither case of a backslash applies is no backslash. -/
theorem ne_backslash {c : Char} {cs : List Char} (hlast : c = '\\' → cs = [] → False)
    (hescape : ∀ d ds, c = '\\' → cs = d :: ds → False) : c ≠ '\\' := by
  intro hc
  rcases cs with _ | ⟨d, ds⟩
  · exact hlast hc rfl
  · exact hescape d ds hc rfl

/-- A string literal is divided from what follows it at its closing quote. The induction is that of
the scan, which steps over a backslash together with the character after it. -/
theorem exists_takeString? {q : Char} {cs content rest : List Char}
    (h : takeString? q cs = some (content, rest)) :
    ∃ body, cs = body ++ rest ∧ StringBody q body content := by
  fun_induction takeString? q cs generalizing content with
  | case1 => exact nomatch h
  | case2 => exact nomatch h
  | case3 c cs ih =>
      obtain ⟨⟨content', rest'⟩, hread, he⟩ := Option.map_eq_some_iff.1 h
      obtain ⟨rfl, rfl⟩ := Prod.mk.inj he
      obtain ⟨body, rfl, hbody⟩ := ih hread
      exact ⟨'\\' :: c :: body, rfl, hbody.escaped c⟩
  | case4 cs hlast hescape =>
      obtain ⟨rfl, rfl⟩ := Prod.mk.inj (Option.some.inj h)
      exact ⟨[q], rfl, .closing (ne_backslash hlast hescape)⟩
  | case5 c cs hlast hescape hc ih =>
      obtain ⟨⟨content', rest'⟩, hread, he⟩ := Option.map_eq_some_iff.1 h
      obtain ⟨rfl, rfl⟩ := Prod.mk.inj he
      obtain ⟨body, rfl, hbody⟩ := ih hread
      exact ⟨c :: body, rfl, .plain (ne_backslash hlast hescape) hc hbody⟩

/-- What follows a string literal plays no part in it. -/
theorem takeString?_append {q : Char} {body content : List Char} (h : StringBody q body content)
    (rest : List Char) : takeString? q (body ++ rest) = some (content, rest) := by
  induction h with
  | closing hq =>
      rw [List.cons_append, takeString?_cons hq, if_pos rfl]
      rfl
  | escaped c _ ih =>
      rw [List.cons_append, List.cons_append, takeString?, ih]
      rfl
  | plain hbackslash hc _ ih =>
      rw [List.cons_append, takeString?_cons hbackslash, if_neg hc, ih]
      rfl

/-- What is taken for a symbol is one of its spellings. -/
theorem exists_symbolTake? {cs rest : List Char} {s : Symbol}
    (h : Symbol.take? cs = some (s, rest)) :
    ∃ word, cs = word ++ rest ∧ (word, s) ∈ Symbol.spellings := by
  obtain ⟨entry, hentry, hread⟩ := List.exists_of_findSome?_eq_some h
  obtain ⟨rest', hstrip, he⟩ := Option.map_eq_some_iff.1 hread
  obtain ⟨rfl, rfl⟩ := Prod.mk.inj he
  exact ⟨entry.1, stripPrefix?_eq_some_iff.1 hstrip, hentry⟩

/-- A token is taken off with a lexeme: the text of a name, a number, a symbol or a string, with the
rest of the text behind it. -/
theorem exists_lexeme {position : Nat} {c : Char} {cs rest : List Char} {token : Token}
    (h : takeToken position c cs = .ok (token, rest)) :
    ∃ word, c :: cs = word ++ rest ∧ Lexeme token word := by
  unfold takeToken at h
  split at h
  · rename_i hdigit
    exact exists_takeNumber hdigit (Except.ok.inj h)
  split at h
  · rename_i hname
    obtain ⟨rfl, rfl⟩ := Prod.mk.inj (Except.ok.inj h)
    refine ⟨c :: cs.takeWhile isNameChar, ?_,
      .word rfl (List.cons_ne_nil _ _) (fun d hd => ?_) fun s hs => ?_⟩
    · rw [List.cons_append, List.takeWhile_append_dropWhile]
    · rcases List.mem_cons.1 hd with rfl | hd
      · exact isWordChar_of_isNameChar (isNameChar_of_isNameStart hname)
      · exact isWordChar_of_isNameChar (List.mem_takeWhile_imp hd)
    · rw [← Token.name.inj hs, String.toList_ofList]
  split at h
  · rename_i hquote
    split at h
    · rename_i content rest' hread
      obtain ⟨rfl, rfl⟩ := Prod.mk.inj (Except.ok.inj h)
      obtain ⟨body, rfl, hbody⟩ := exists_takeString? hread
      exact ⟨c :: body, rfl, .string hquote hbody⟩
    · exact nomatch h
  · split at h
    · rename_i s rest' hread
      obtain ⟨rfl, rfl⟩ := Prod.mk.inj (Except.ok.inj h)
      obtain ⟨word, hword, hmem⟩ := exists_symbolTake? hread
      exact ⟨word, hword, .symbol hmem⟩
    · exact nomatch h

/-- A text that is read as a token is a lexeme of it. -/
theorem Spells.lexeme {token : Token} {text rest : List Char} (h : Spells token text rest) :
    Lexeme token text := by
  obtain ⟨c, cs, rfl, -, htake⟩ := h
  obtain ⟨word, hword, hlexeme⟩ := exists_lexeme (htake 0)
  rw [← List.cons_append] at hword
  rwa [List.append_cancel_right hword]

/-! ### Numbers -/

/-- Neither a name nor a number goes on at the start of a text. In front of such a text a word ends
where it seems to. -/
structure Cuts (rest : List Char) : Prop where
  isNameChar : ∀ c ∈ rest.head?, isNameChar c = false
  sign : ∀ c ∈ rest.head?, c ≠ '+' ∧ c ≠ '-'
  fraction : ∀ c cs, rest = '.' :: c :: cs → c.isDigit = false

/-- A run of a class does not go on into a text that does not begin with the class. -/
theorem takeWhile_append_of_head {p : Char → Bool} {rest : List Char}
    (h : ∀ c ∈ rest.head?, p c = false) (cs : List Char) :
    (cs ++ rest).takeWhile p = cs.takeWhile p ∧
      (cs ++ rest).dropWhile p = cs.dropWhile p ++ rest := by
  induction cs with
  | nil => exact takeWhile_append (List.forall_mem_nil _) h
  | cons c cs ih =>
      rw [List.cons_append, List.takeWhile_cons, List.dropWhile_cons, List.takeWhile_cons,
        List.dropWhile_cons, ih.1, ih.2]
      split
      · exact ⟨rfl, rfl⟩
      · exact ⟨rfl, rfl⟩

/-- A fraction is a point that a digit follows. A point before anything else is left to be a symbol.
-/
theorem splitFraction_cons_cons (point d : Char) (cs : List Char) :
    splitFraction (point :: d :: cs) =
      if point = '.' ∧ d.isDigit = true then
        (point :: d :: cs.takeWhile Char.isDigit, cs.dropWhile Char.isDigit)
      else ([], point :: d :: cs) := by
  by_cases hpoint : point = '.'
  · subst hpoint
    simp [splitFraction]
  · simp [splitFraction, hpoint]

/-- A character that is not one of words ends them. -/
theorem cuts_of_isWordChar {d : Char} (hd : isWordChar d = false) (rest : List Char) :
    Cuts (d :: rest) where
  isNameChar c hc := by
    obtain rfl := Option.some.inj hc
    rw [Bool.eq_false_iff]
    exact fun h => Bool.false_ne_true (hd.symm.trans (isWordChar_of_isNameChar h))
  sign c hc := by
    obtain rfl := Option.some.inj hc
    exact ⟨(ne_of_isWordChar rfl hd).symm, (ne_of_isWordChar rfl hd).symm⟩
  fraction c cs h := absurd (List.cons.inj h).1 (ne_of_isWordChar rfl hd).symm

section Cut

variable {rest : List Char} (hrest : Cuts rest)

include hrest

/-- Where a number is cut off, no digit follows. -/
theorem Cuts.isDigit : ∀ c ∈ rest.head?, c.isDigit = false := by
  intro c hc
  rw [Bool.eq_false_iff]
  intro hdigit
  exact Bool.false_ne_true ((hrest.isNameChar c hc).symm.trans (isNameChar_iff.2 (.inr hdigit)))

/-- Behind a cut, the text that follows is not taken for a part of the fraction, whether the
fraction is complete or has not begun. -/
theorem splitFraction_append (cs : List Char) :
    splitFraction (cs ++ rest) = ((splitFraction cs).1, (splitFraction cs).2 ++ rest) := by
  rcases cs with _ | ⟨point, _ | ⟨c, cs⟩⟩
  · rcases rest with _ | ⟨d, _ | ⟨c, rest⟩⟩
    · rfl
    · simp [splitFraction]
    · rw [List.nil_append, splitFraction_cons_cons, if_neg]
      · rfl
      · rintro ⟨rfl, hdigit⟩
        exact Bool.false_ne_true ((hrest.fraction c rest rfl).symm.trans hdigit)
  · rcases rest with _ | ⟨d, rest⟩
    · simp [splitFraction]
    · rw [List.cons_append, List.nil_append, splitFraction_cons_cons, hrest.isDigit d rfl]
      simp [splitFraction]
  · obtain ⟨htake, hdrop⟩ := takeWhile_append_of_head hrest.isDigit cs
    rw [List.cons_append, List.cons_append, splitFraction_cons_cons, splitFraction_cons_cons,
      htake, hdrop]
    split
    · rfl
    · rfl

/-- Nor is it taken for a part of the exponent. A cut has neither a digit nor a sign at its start,
so an exponent that is cut short stays so. -/
theorem splitExponent_append (cs : List Char) :
    splitExponent (cs ++ rest) = ((splitExponent cs).1, (splitExponent cs).2 ++ rest) := by
  rcases cs with _ | ⟨mark, _ | ⟨sign, cs⟩⟩
  -- The text ends before the exponent would begin, within it, or after it has begun.
  · rcases rest with _ | ⟨d, _ | ⟨c, rest⟩⟩
    · rfl
    · rfl
    · have hmark := hrest.isNameChar d rfl
      have hne : d ≠ 'e' ∧ d ≠ 'E' := by
        constructor
        · rintro rfl
          exact absurd hmark (by decide)
        · rintro rfl
          exact absurd hmark (by decide)
      simp [splitExponent, hne.1, hne.2]
  · rcases rest with _ | ⟨d, rest⟩
    · rfl
    · simp [splitExponent, hrest.isDigit d rfl, (hrest.sign d rfl).1, (hrest.sign d rfl).2]
  · obtain ⟨htake, hdrop⟩ := takeWhile_append_of_head hrest.isDigit cs
    have hhead : ((cs ++ rest).head?.map Char.isDigit).getD false =
        (cs.head?.map Char.isDigit).getD false := by
      rcases cs with _ | ⟨c, cs⟩
      · rcases rest with _ | ⟨d, rest⟩
        · rfl
        · exact hrest.isDigit d rfl
      · rfl
    simp only [List.cons_append, splitExponent, htake, hdrop, hhead]
    split
    · split
      · rfl
      · split
        · rfl
        · rfl
    · rfl

/-- A number does not go on into a text that cuts it. -/
theorem takeNumber_append (cs : List Char) :
    takeNumber (cs ++ rest) = ((takeNumber cs).1, (takeNumber cs).2 ++ rest) := by
  obtain ⟨htake, hdrop⟩ := takeWhile_append_of_head hrest.isDigit cs
  simp only [takeNumber, htake, hdrop, splitFraction_append hrest, splitExponent_append hrest]

end Cut

/-! ### Texts that are cut off -/

/-- An exponent is a mark with a digit behind it, or with a sign and a digit. A letter before
anything else is left to be the start of a name. -/
theorem splitExponent_cons_cons (mark sign : Char) (cs : List Char) :
    splitExponent (mark :: sign :: cs) =
      if (mark = 'e' ∨ mark = 'E') ∧ (sign.isDigit = true ∨ (sign = '+' ∨ sign = '-') ∧
        cs.head?.any Char.isDigit = true) then
        (mark :: sign :: cs.takeWhile Char.isDigit, cs.dropWhile Char.isDigit)
      else ([], mark :: sign :: cs) := by
  have hdigit : (cs.head?.map Char.isDigit).getD false = cs.head?.any Char.isDigit := by
    cases cs with
    | nil => rfl
    | cons c cs => rfl
  simp only [splitExponent, Bool.or_eq_true, Bool.and_eq_true, beq_iff_eq, hdigit]
  by_cases hmark : mark = 'e' ∨ mark = 'E'
  · by_cases hsign : sign.isDigit = true
    · simp only [hmark, hsign, true_or, and_self, if_true]
    · simp only [hmark, hsign, true_and, false_or, if_true, Bool.false_eq_true, if_false]
  · simp only [hmark, false_and, if_false]

section Prefix

variable {cs cs' rest found : List Char}

/-- A run that ends before a rest is the same without it. -/
theorem takeWhile_of_append {p : Char → Bool} (h : (cs ++ rest).dropWhile p = cs' ++ rest) :
    (cs ++ rest).takeWhile p = cs.takeWhile p ∧ cs.dropWhile p = cs' := by
  induction cs with
  | nil =>
      rw [List.nil_append] at h ⊢
      have hparts := List.takeWhile_append_dropWhile (p := p) (l := rest)
      rw [h, ← List.append_assoc, List.append_left_eq_self, List.append_eq_nil_iff] at hparts
      exact ⟨hparts.1, hparts.2.symm⟩
  | cons c cs ih =>
      rw [List.cons_append, List.dropWhile_cons] at h
      rw [List.cons_append, List.takeWhile_cons, List.takeWhile_cons, List.dropWhile_cons]
      split at h
      · rename_i hc
        obtain ⟨htake, hdrop⟩ := ih h
        rw [if_pos hc, if_pos hc, if_pos hc, htake]
        exact ⟨rfl, hdrop⟩
      · rename_i hc
        rw [if_neg hc, if_neg hc, if_neg hc]
        exact ⟨rfl, List.append_cancel_right h⟩

/-- A fraction that ends inside a text is the same without what follows the text. Nothing is asked
of what follows, unlike where a text is read on behind a cut. -/
theorem splitFraction_of_append (h : splitFraction (cs ++ rest) = (found, cs' ++ rest)) :
    splitFraction cs = (found, cs') := by
  have hparts := (divides_splitFraction (cs ++ rest)).1
  rw [h, ← List.append_assoc] at hparts
  have hcs : cs = found ++ cs' := List.append_cancel_right hparts
  rcases cs with _ | ⟨point, _ | ⟨d, cs⟩⟩
  · obtain ⟨rfl, rfl⟩ := List.append_eq_nil_iff.1 hcs.symm
    rfl
  · have hsingle : splitFraction [point] = ([], [point]) := by simp [splitFraction]
    rcases rest with _ | ⟨d, rest⟩
    · rwa [List.append_nil, List.append_nil] at h
    · rw [List.cons_append, List.nil_append, splitFraction_cons_cons] at h
      split at h
      · obtain ⟨rfl, -⟩ := Prod.mk.inj h
        exact nomatch (List.cons.inj hcs).2
      · obtain ⟨rfl, -⟩ := Prod.mk.inj h
        rw [hsingle, hcs, List.nil_append]
  · rw [List.cons_append, List.cons_append, splitFraction_cons_cons] at h
    rw [splitFraction_cons_cons]
    split at h
    · rename_i hpoint
      obtain ⟨rfl, hdrop⟩ := Prod.mk.inj h
      obtain ⟨htake, rfl⟩ := takeWhile_of_append hdrop
      rw [if_pos hpoint, htake]
    · rename_i hpoint
      obtain ⟨rfl, -⟩ := Prod.mk.inj h
      rw [if_neg hpoint, hcs, List.nil_append]

/-- So is an exponent. -/
theorem splitExponent_of_append (h : splitExponent (cs ++ rest) = (found, cs' ++ rest)) :
    splitExponent cs = (found, cs') := by
  have hparts := (divides_splitExponent (cs ++ rest)).1
  rw [h, ← List.append_assoc] at hparts
  have hcs : cs = found ++ cs' := List.append_cancel_right hparts
  rcases cs with _ | ⟨mark, _ | ⟨sign, cs⟩⟩
  · obtain ⟨rfl, rfl⟩ := List.append_eq_nil_iff.1 hcs.symm
    rfl
  · have hsingle : splitExponent [mark] = ([], [mark]) := rfl
    rcases rest with _ | ⟨d, rest⟩
    · rwa [List.append_nil, List.append_nil] at h
    · rw [List.cons_append, List.nil_append, splitExponent_cons_cons] at h
      split at h
      · obtain ⟨rfl, -⟩ := Prod.mk.inj h
        exact nomatch (List.cons.inj hcs).2
      · obtain ⟨rfl, -⟩ := Prod.mk.inj h
        rw [hsingle, hcs, List.nil_append]
  · rw [List.cons_append, List.cons_append, splitExponent_cons_cons] at h
    rw [splitExponent_cons_cons]
    split at h
    · rename_i hmark
      obtain ⟨rfl, hdrop⟩ := Prod.mk.inj h
      obtain ⟨htake, rfl⟩ := takeWhile_of_append hdrop
      rw [if_pos, htake]
      -- A digit after the sign belongs to the exponent, so it is no part of the rest.
      rcases cs with _ | ⟨c, cs⟩
      · refine ⟨hmark.1, hmark.2.imp_right fun hsign => ?_⟩
        rcases rest with _ | ⟨c, rest⟩
        · exact absurd hsign.2 Bool.false_ne_true
        · have hdigit : c.isDigit = true := hsign.2
          rw [List.nil_append, List.takeWhile_cons_of_pos hdigit] at htake
          exact nomatch htake
      · exact hmark
    · rename_i hmark
      obtain ⟨rfl, -⟩ := Prod.mk.inj h
      rw [if_neg, hcs, List.nil_append]
      rcases cs with _ | ⟨c, cs⟩
      · exact fun ⟨hmark', hdigit⟩ =>
          hmark ⟨hmark', hdigit.imp_right fun hsign => absurd hsign.2 Bool.false_ne_true⟩
      · exact hmark

/-- A number that ends before a rest is the same without it. This is what makes a slice of a text
readable alone. -/
theorem takeNumber_of_append {token : Token} (h : takeNumber (cs ++ rest) = (token, cs' ++ rest)) :
    takeNumber cs = (token, cs') := by
  rcases hfraction : splitFraction ((cs ++ rest).dropWhile Char.isDigit) with ⟨fraction, after⟩
  rcases hexponent : splitExponent after with ⟨exponent, after'⟩
  simp only [takeNumber, hfraction, hexponent] at h
  obtain ⟨htoken, rfl⟩ := Prod.mk.inj h
  -- Each part of the number ends before the rest, for what follows the part goes on to it.
  obtain rfl : after = exponent ++ cs' ++ rest := by
    have hparts := (divides_splitExponent after).1
    rwa [hexponent, ← List.append_assoc] at hparts
  have hdigits : (cs ++ rest).dropWhile Char.isDigit =
      fraction ++ (exponent ++ cs') ++ rest := by
    have hparts := (divides_splitFraction ((cs ++ rest).dropWhile Char.isDigit)).1
    rwa [hfraction, ← List.append_assoc] at hparts
  obtain ⟨hwhole, hdrop⟩ := takeWhile_of_append hdigits
  rw [hdigits] at hfraction
  rw [hwhole] at htoken
  simp only [takeNumber, hdrop, splitFraction_of_append hfraction,
    splitExponent_of_append hexponent, htoken]

end Prefix

/-! ### Symbols -/

/-- Each symbol is spelled as its text, and equality and its negation in a second way. -/
theorem spellings_cases : ∀ entry ∈ Symbol.spellings, entry.1 = entry.2.text.toList ∨
    entry = (['=', '=', '='], .equal) ∨ entry = (['!', '=', '='], .notEqual) := by
  decide

/-- An exclamation mark is no symbol of its own in front of an equals sign. -/
theorem symbolTake?_bang (rest : List Char) :
    Symbol.take? ('!' :: '=' :: rest) ≠ some (.bang, '=' :: rest) := by
  rcases rest with _ | ⟨c, rest⟩
  · decide
  · by_cases hc : '=' = c
    · subst hc
      show some (Symbol.notEqual, rest) ≠ _
      simp
    · simp [Symbol.take?, Symbol.spellings, Symbol.text, stripPrefix?, hc]

/-- A symbol is read in front of a text by which none grows. -/
theorem symbolTake?_of_apart {word : List Char} {s : Symbol} (hmem : (word, s) ∈ Symbol.spellings)
    {rest : List Char} (hrest : Apart rest) : Symbol.take? (word ++ rest) = some (s, rest) := by
  rcases spellings_cases _ hmem with htext | hlong | hlong
  · dsimp only at htext
    rw [htext]
    exact take?_text s hrest
  · obtain ⟨rfl, rfl⟩ := Prod.mk.inj hlong
    rfl
  · obtain ⟨rfl, rfl⟩ := Prod.mk.inj hlong
    rfl

/-- A symbol depends on no more than one character after it: by that character it is told whether
the symbol goes on. -/
theorem symbolTake?_congr {word : List Char} {s : Symbol} (hmem : (word, s) ∈ Symbol.spellings)
    {rest rest' : List Char} (hhead : rest.head? = rest'.head?)
    (h : Symbol.take? (word ++ rest) = some (s, rest)) :
    Symbol.take? (word ++ rest') = some (s, rest') := by
  rcases spellings_cases _ hmem with htext | hlong | hlong
  · dsimp only at htext
    subst htext
    by_cases hrest : Apart rest
    · refine take?_text s ?_
      rwa [Apart, ← hhead]
    · rcases rest with _ | ⟨d, rest⟩
      · exact absurd (fun c hc => nomatch hc) hrest
      rcases rest' with _ | ⟨d', rest'⟩
      · exact nomatch hhead
      obtain rfl := Option.some.inj hhead
      have hd : d = '=' ∨ d = '*' ∨ d = '?' := by
        by_contra hne
        refine hrest fun c hc => ?_
        obtain rfl := Option.some.inj hc
        simpa using hne
      -- In front of one of these either the symbol would have grown or nothing else is needed.
      rcases hd with rfl | rfl | rfl
      · cases s with
        | bang => exact absurd h (symbolTake?_bang rest)
        | _ => first
          | rfl
          | simp [Symbol.take?, Symbol.spellings, Symbol.text, stripPrefix?] at h
      · cases s <;> first
          | rfl
          | simp [Symbol.take?, Symbol.spellings, Symbol.text, stripPrefix?] at h
      · cases s <;> first
          | rfl
          | simp [Symbol.take?, Symbol.spellings, Symbol.text, stripPrefix?] at h
  · obtain ⟨rfl, rfl⟩ := Prod.mk.inj hlong
    rfl
  · obtain ⟨rfl, rfl⟩ := Prod.mk.inj hlong
    rfl

/-! ### What follows a token -/

/-- A token that ends before some text is read in front of another one that neither a name nor a
number goes on into, and no symbol. -/
theorem Spells.of_cuts {token : Token} {text shared rest rest' : List Char}
    (h : Spells token text (shared ++ rest)) (hcuts : Cuts rest')
    (hsymbol : (shared ++ rest).head? = (shared ++ rest').head? ∨ Apart (shared ++ rest')) :
    Spells token text (shared ++ rest') := by
  obtain ⟨c, text, rfl, hblank, htake⟩ := h
  refine ⟨c, text, rfl, hblank, fun position => ?_⟩
  have htake := htake position
  unfold takeToken at htake ⊢
  -- The branches of the lexer in turn: a number first, then a name, a string and a symbol. A number
  -- and a name end at the cut.
  split at htake
  · rename_i hdigit
    rw [if_pos hdigit]
    rw [← List.append_assoc, ← List.cons_append] at htake ⊢
    rw [takeNumber_append hcuts, takeNumber_of_append (Except.ok.inj htake)]
  rename_i hdigit
  rw [if_neg hdigit]
  split at htake
  · rename_i hname
    rw [if_pos hname]
    rw [← List.append_assoc] at htake ⊢
    obtain ⟨rfl, hrest⟩ := Prod.mk.inj (Except.ok.inj htake)
    obtain ⟨hword, hdrop⟩ := takeWhile_of_append hrest
    obtain ⟨hword', hdrop'⟩ := takeWhile_append_of_head hcuts.isNameChar (text ++ shared)
    rw [hword', hdrop', hword, hdrop]
  rename_i hname
  rw [if_neg hname]
  split at htake
  -- A string ends with its quote, whatever follows.
  · rename_i hquote
    rw [if_pos hquote]
    split at htake
    · rename_i content found hread
      obtain ⟨rfl, rfl⟩ := Prod.mk.inj (Except.ok.inj htake)
      obtain ⟨body, hbody, hread⟩ := exists_takeString? hread
      obtain rfl := List.append_cancel_right hbody
      rw [takeString?_append hread]
    · exact nomatch htake
  -- A symbol may look one character further, which is the same on both sides or cannot go on the
  -- symbol.
  · rename_i hquote
    rw [if_neg hquote]
    split at htake
    · rename_i s found hread
      obtain ⟨rfl, rfl⟩ := Prod.mk.inj (Except.ok.inj htake)
      obtain ⟨word, hword, hmem⟩ := exists_symbolTake? hread
      rw [← List.cons_append] at hword hread ⊢
      obtain rfl := List.append_cancel_right hword
      have hread' : Symbol.take? (c :: text ++ (shared ++ rest')) = some (s, shared ++ rest') := by
        rcases hsymbol with hhead | hapart
        · exact symbolTake?_congr hmem hhead hread
        · exact symbolTake?_of_apart hmem hapart
      rw [hread']
    · exact nomatch htake

/-! ### Token lists -/

/-- What is left after a token is no longer than what was left after its first character. -/
theorem length_of_takeToken {position : Nat} {c : Char} {cs rest : List Char} {token : Token}
    (h : takeToken position c cs = .ok (token, rest)) : rest.length ≤ cs.length := by
  obtain ⟨word, hword, hlexeme⟩ := exists_lexeme h
  have hlength := congrArg List.length hword
  have hpos := List.length_pos_iff.2 hlexeme.ne_nil
  rw [List.length_append, List.length_cons] at hlength
  omega

/-- The position of a token shows in errors alone. A text can thus be divided once and placed
anywhere. -/
theorem takeToken_position {position : Nat} {c : Char} {cs : List Char}
    {found : Token × List Char} (h : takeToken position c cs = .ok found) (position' : Nat) :
    takeToken position' c cs = .ok found := by
  unfold takeToken at h ⊢
  split at h
  · rename_i hdigit
    rw [if_pos hdigit, h]
  rename_i hdigit
  rw [if_neg hdigit]
  split at h
  · rename_i hname
    rw [if_pos hname, h]
  rename_i hname
  rw [if_neg hname]
  split at h
  · rename_i hquote
    rw [if_pos hquote]
    generalize takeString? c cs = found? at h ⊢
    rcases found? with _ | ⟨content, rest⟩
    · exact nomatch h
    · exact h
  · rename_i hquote
    rw [if_neg hquote]
    generalize Symbol.take? (c :: cs) = found? at h ⊢
    rcases found? with _ | ⟨s, rest⟩
    · exact nomatch h
    · exact h

/-- A blank is passed over, and the position grows by the bytes of the blank. -/
theorem tokenizeFrom_blank {bound position : Nat} {c : Char} (hc : isBlank c = true)
    (cs : List Char) :
    tokenizeFrom (bound + 1) position (c :: cs) = tokenizeFrom bound (position + c.utf8Size) cs :=
  if_pos hc

/-- The tokens of a text are its first one and those of the rest. -/
theorem tokenizeFrom_cons {bound position : Nat} {c : Char} {cs : List Char}
    (hc : isBlank c = false) {ts : Tokens} :
    tokenizeFrom (bound + 1) position (c :: cs) = .ok ts ↔
      ∃ token rest others, takeToken position c cs = .ok (token, rest) ∧
        tokenizeFrom bound (position + (byteLength (c :: cs) - byteLength rest)) rest =
          .ok others ∧ ts = (position, token) :: others := by
  rw [tokenizeFrom, hc]
  constructor
  · intro h
    obtain ⟨⟨token, rest⟩, htake, h⟩ := exists_of_bind h
    obtain ⟨others, hothers, h⟩ := exists_of_bind h
    exact ⟨token, rest, others, htake, hothers, (Except.ok.inj h).symm⟩
  · rintro ⟨token, rest, others, htake, hrest, rfl⟩
    rw [htake]
    show (tokenizeFrom bound _ rest >>= _) = _
    rw [hrest]
    rfl

/-- A token that is taken off has its own text at the start, and the text that follows lets it end
there. -/
theorem exists_spells {position : Nat} {c : Char} {cs rest : List Char} {token : Token}
    (hc : isBlank c = false) (h : takeToken position c cs = .ok (token, rest)) :
    ∃ word, c :: cs = word ++ rest ∧ Spells token word rest := by
  obtain ⟨word, hword, hlexeme⟩ := exists_lexeme h
  rcases word with _ | ⟨d, word⟩
  · exact absurd rfl hlexeme.ne_nil
  obtain ⟨rfl, rfl⟩ := List.cons.inj hword
  exact ⟨c :: word, rfl, c, word, rfl, hc, takeToken_position h⟩

/-- A text is divided into tokens, each at the byte position where its own text begins; `position`
is that of the text. -/
inductive LexesAt : (position : Nat) → List Char → Tokens → Prop where
  | nil {position : Nat} : LexesAt position [] []
  | blank {position : Nat} {c : Char} {cs : List Char} {ts : Tokens} : isBlank c = true →
      LexesAt (position + c.utf8Size) cs ts → LexesAt position (c :: cs) ts
  | token {position : Nat} {token : Token} {text cs : List Char} {ts : Tokens} :
      Spells token text cs → LexesAt (position + byteLength text) cs ts →
      LexesAt position (text ++ cs) ((position, token) :: ts)

/-- Without the positions, the tokens are a reading of the text. -/
theorem LexesAt.lexes {position : Nat} {cs : List Char} {ts : Tokens} (h : LexesAt position cs ts) :
    Lexes [] cs (ts.map Prod.snd) := by
  induction h with
  | nil => exact .nil
  | blank hc _ ih => exact .blank hc ih
  | token hspells _ ih =>
      refine .token ?_ ih
      rwa [List.append_nil]

/-- The tokens that the lexer returns are a reading of the text with their true positions. The bound
on its steps needs only to be the length of the text. -/
theorem lexesAt_of_tokenizeFrom {bound position : Nat} {cs : List Char} {ts : Tokens}
    (hbound : cs.length ≤ bound) (h : tokenizeFrom bound position cs = .ok ts) :
    LexesAt position cs ts := by
  induction bound generalizing position cs ts with
  | zero =>
      obtain rfl := List.length_eq_zero_iff.1 (Nat.le_zero.1 hbound)
      obtain rfl := Except.ok.inj h
      exact .nil
  | succ bound ih =>
      rcases cs with _ | ⟨c, cs⟩
      · obtain rfl := Except.ok.inj h
        exact .nil
      rw [List.length_cons] at hbound
      cases hc : isBlank c with
      | true =>
          rw [tokenizeFrom_blank hc] at h
          exact .blank hc (ih (by omega) h)
      | false =>
          obtain ⟨token, rest, others, htake, hothers, rfl⟩ := (tokenizeFrom_cons hc).1 h
          have hlength := length_of_takeToken htake
          obtain ⟨word, hword, hspells⟩ := exists_spells hc htake
          rw [hword, byteLength_append, Nat.add_sub_cancel] at hothers
          rw [hword]
          exact .token hspells (ih (by omega) hothers)

/-- A text whose tokens are found is divided into them where they are found. The positions are those
of bytes, and between the tokens there is nothing but blanks. -/
theorem lexesAt_of_tokenize {s : String} {ts : Tokens} (h : tokenize s = .ok ts) :
    LexesAt 0 s.toList ts :=
  lexesAt_of_tokenizeFrom (Nat.le_refl _) h

/-- The tokens of a source are a reading of it. -/
theorem lexes_of_tokenize {s : String} {ts : Tokens} (h : tokenize s = .ok ts) :
    Lexes [] s.toList (ts.map Prod.snd) :=
  (lexesAt_of_tokenize h).lexes

end Stencil.Expr
