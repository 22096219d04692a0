import Stencil.Proofs.Markup.StartTag

/-!
# The tokens of a text

What the tokenizer reads, without the bounds of its recursion and the positions of its errors.

## Main definitions

* `beginsMarkup` — whether a comment, a declaration or a tag begins a text
* `Begins` — what that is read as, and what follows it
* `Lexes` — the tokens of a text that comes after some text without markup

## Main results

* `takeMarkup_eq_some_iff`, `takeMarkup_eq_none_iff` — what is found at a less-than sign
* `lexes_of_tokenizeFrom`, `Lexes.tokenizeFrom` — the tokens that are found are those of the
  relation
* `Lexes.forall_mem` — what holds of texts, and of all that markup is read as, holds of every token
-/

namespace Stencil.Markup

open Text

/-! ### What is taken -/

/-- What is taken up to a quote stands in front of it. -/
theorem eq_of_takeQuoted? {quote : Char} {cs : List Char} :
    ∀ {value rest}, takeQuoted? quote cs = some (value, rest) → cs = value ++ quote :: rest := by
  induction cs with
  | nil => exact fun h => nomatch h
  | cons c cs ih =>
      intro value rest h
      rw [takeQuoted?] at h
      split at h
      · rename_i hquote
        obtain ⟨rfl, rfl⟩ := Prod.mk.inj (Option.some.inj h)
        rw [hquote]
        rfl
      · obtain ⟨found, hfound, he⟩ := Option.map_eq_some_iff.1 h
        obtain ⟨rfl, rfl⟩ := Prod.mk.inj he
        rw [ih hfound]
        rfl

/-- After the name of an attribute there is a rest of the text. -/
theorem suffix_takeAttributeName (cs : List Char) : (takeAttributeName cs).2 <:+ cs := by
  induction cs with
  | nil => exact List.suffix_refl _
  | cons c cs ih =>
      unfold takeAttributeName
      split
      · exact List.suffix_refl _
      · exact ih.trans (List.suffix_cons c cs)

/-- So it is after the value of an attribute. -/
theorem suffix_takeValue? {cs value rest : List Char} (h : takeValue? cs = some (value, rest)) :
    rest <:+ cs := by
  have hskip : ∀ cs, skipSpace cs <:+ cs := fun cs => List.dropWhile_suffix _
  unfold takeValue? at h
  split at h
  · rename_i after hequals
    have hafter : after <:+ cs := (List.suffix_cons '=' after).trans (hequals ▸ hskip cs)
    split at h
    · obtain ⟨-, rfl⟩ := Prod.mk.inj (Option.some.inj h)
      exact List.nil_suffix
    · rename_i c others hbegin
      have hothers : c :: others <:+ cs := (hbegin ▸ hskip after).trans hafter
      split at h
      · rw [eq_of_takeQuoted? h] at hothers
        refine List.IsSuffix.trans ?_ hothers
        exact ⟨c :: (value ++ [c]), by simp⟩
      · obtain ⟨-, rfl⟩ := Prod.mk.inj (Option.some.inj h)
        exact (List.dropWhile_suffix _).trans hothers
  · obtain ⟨-, rfl⟩ := Prod.mk.inj (Option.some.inj h)
    exact hskip cs

/-- What follows a start tag is the end of what it was taken from. The induction is on the bound,
which an attribute takes one off. -/
theorem suffix_takeAttributes (bound : Nat) :
    ∀ {cs found}, takeAttributes bound cs = .ok found → found.2.2 <:+ cs := by
  induction bound with
  | zero =>
      intro cs found h
      cases h
  | succ bound ih =>
      intro cs found h
      have hskip : skipSpace cs <:+ cs := List.dropWhile_suffix _
      rcases hs : skipSpace cs with _ | ⟨c, after⟩
      · rw [takeAttributes, hs] at h
        cases h
      · rw [hs] at hskip
        have hafter : after <:+ cs := (List.suffix_cons c after).trans hskip
        by_cases hclose : c = '>'
        · subst hclose
          rw [takeAttributes_end hs] at h
          obtain rfl := Except.ok.inj h
          exact hafter
        · by_cases hslash : c = '/'
          -- A slash ends the tag or is passed over.
          · subst hslash
            rcases takeAttributes_slash hs with ⟨rest, rfl, hclosed⟩ | hskipped
            · rw [hclosed] at h
              obtain rfl := Except.ok.inj h
              exact (List.suffix_cons '>' rest).trans hafter
            · rw [hskipped] at h
              exact (ih h).trans hafter
          -- An attribute is taken off, and the others after it.
          · obtain ⟨hnone, hsome⟩ := takeAttributes_attribute hs hclose hslash
            rcases hvalue : takeValue? (takeAttributeName (c :: after)).2 with _ | ⟨value, rest⟩
            · rw [hnone hvalue] at h
              cases h
            · have hrest : rest <:+ cs := ((suffix_takeValue? hvalue).trans
                (suffix_takeAttributeName (c :: after))).trans hskip
              rw [hsome value rest hvalue] at h
              rcases hothers : takeAttributes bound rest with _ | others
              · rw [hothers] at h
                cases h
              · rw [hothers] at h
                obtain rfl := Except.ok.inj h
                exact (ih hothers).trans hrest

/-- A start tag is read in the same way wherever it is. -/
theorem takeStartTag_position {position : Nat} {cs : List Char}
    {found : String × List (String × String) × Bool × List Char}
    (h : takeStartTag position cs = .ok found) (position' : Nat) :
    takeStartTag position' cs = .ok found := by
  obtain ⟨htag, hattributes⟩ := takeStartTag_of_ok h
  rw [takeStartTag, hattributes, ← htag]

/-- A letter may stand in the name of a tag. -/
theorem isTagChar_of_isLetter {c : Char} (h : isLetter c = true) : isTagChar c = true :=
  isTagChar_of_class (by decide) h

/-- A text is split where it first begins as an end tag does. That it is the first is said of every
end of the front part, with the rest behind it. -/
theorem splitBefore_spec (close cs : List Char) :
    cs = (splitBefore close cs).1 ++ (splitBefore close cs).2 ∧
      (∀ before after, (splitBefore close cs).1 = before ++ after → after ≠ [] →
        startsWith close
          (((after ++ (splitBefore close cs).2).take close.length).map Char.toLower) = false) ∧
      ((splitBefore close cs).2 = [] ∨
        startsWith close
          (((splitBefore close cs).2.take close.length).map Char.toLower) = true) := by
  induction cs with
  | nil =>
      refine ⟨rfl, fun before after h hne => absurd ?_ hne, .inl rfl⟩
      exact (List.append_eq_nil_iff.1 h.symm).2
  | cons c cs ih =>
      obtain ⟨hcs, hbefore, hrest⟩ := ih
      unfold splitBefore
      split
      · rename_i hbegin
        refine ⟨rfl, fun before after h hne => absurd ?_ hne, .inr hbegin⟩
        exact (List.append_eq_nil_iff.1 h.symm).2
      · rename_i hbegin
        refine ⟨congrArg (c :: ·) hcs, fun before after h hne => ?_, hrest⟩
        rcases List.cons_eq_append_iff.1 h with ⟨rfl, rfl⟩ | ⟨before', rfl, h⟩
        · dsimp only
          rw [List.cons_append, ← hcs]
          exact Bool.eq_false_iff.2 hbegin
        · exact hbefore before' after (List.cons.inj h).2 hne

/-- A text is split in front of one of its rests. -/
theorem suffix_splitBefore (close cs : List Char) : (splitBefore close cs).2 <:+ cs :=
  ⟨_, (splitBefore_spec close cs).1.symm⟩

/-- After a start tag, and the raw text it may have, there is a rest of the text. -/
theorem suffix_startToken (tag : String) (attributes : List (String × String)) (closed : Bool)
    (rest : List Char) : (startToken tag attributes closed rest).2 <:+ rest := by
  unfold startToken
  split
  · exact List.suffix_refl _
  · split
    · have hgreater : ∀ cs, afterGreater cs <:+ cs :=
        fun cs => (List.drop_suffix 1 _).trans (List.dropWhile_suffix _)
      exact (hgreater _).trans (suffix_splitBefore _ _)
    · exact List.suffix_refl _

/-! ### Markup -/

/-- Whether a comment, a declaration or a tag begins a text. -/
def beginsMarkup : List Char → Bool
  | '<' :: c :: cs => c == '!' || c == '?' || isLetter c || (c == '/' && cs.head?.any isLetter)
  | _ => false

/-- What markup at the start of a text is read as, and what follows it. For each kind of markup it
names the characters that are taken off. -/
inductive Begins : List Char → List Token → List Char → Prop where
  | comment {cs : List Char} : startsWith ['<', '!', '-', '-'] cs = true →
      Begins cs [] (afterComment cs)
  | declaration {c : Char} {cs declaration rest : List Char} : c = '!' ∨ c = '?' →
      startsWith ['<', '!', '-', '-'] ('<' :: c :: cs) = false →
      takeQuoted? '>' ('<' :: c :: cs) = some (declaration, rest) →
      Begins ('<' :: c :: cs) [.declaration (declaration ++ ['>'])] rest
  | endTag {name inner rest : List Char} {tag : String} : endTagName? name = some tag →
      takeQuoted? '>' name = some (inner, rest) → Begins ('<' :: '/' :: name) [.endTag tag] rest
  | startTag {c : Char} {cs rest : List Char} {tag : String} {attributes : List (String × String)}
      {closed : Bool} : isLetter c = true →
      (∀ position, takeStartTag position (c :: cs) = .ok (tag, attributes, closed, rest)) →
      Begins ('<' :: c :: cs) [(startToken tag attributes closed rest).1]
        (startToken tag attributes closed rest).2

/-- A text that starts with another one goes on after it. -/
theorem exists_of_startsWith {start cs : List Char} (h : startsWith start cs = true) :
    ∃ rest, cs = start ++ rest := by
  obtain ⟨rest, hrest⟩ := Option.isSome_iff_exists.1 h
  exact ⟨rest, stripPrefix?_eq_some_iff.1 hrest⟩

/-- Markup begins with `<`. -/
theorem beginsMarkup_of_ne {c : Char} (h : c ≠ '<') (cs : List Char) :
    beginsMarkup (c :: cs) = false := by
  unfold beginsMarkup
  split
  · rename_i hcs
    exact absurd (List.cons.inj hcs).1 h
  · rfl

/-- The name of an end tag begins with a letter, and anything that begins with a letter has one. -/
theorem endTagName?_eq_none_iff {name : List Char} :
    endTagName? name = none ↔ name.head?.any isLetter = false := by
  rcases name with _ | ⟨c, name⟩
  · exact ⟨fun _ => rfl, fun _ => rfl⟩
  · rw [endTagName?]
    split
    · rename_i hletter
      simp [hletter]
    · rename_i hletter
      simp [hletter]

/-- The name of an end tag is read before its greater-than sign. -/
theorem endTagName?_append (inner rest : List Char) :
    endTagName? (inner ++ '>' :: rest) = endTagName? inner := by
  rcases inner with _ | ⟨c, cs⟩
  · exact endTagName?_eq_none_iff.2 rfl
  · have hend : (cs ++ '>' :: rest).takeWhile isEndTagChar = cs.takeWhile isEndTagChar := by
      rw [List.takeWhile_append]
      split
      · rename_i hall
        have hwhole := (List.takeWhile_prefix isEndTagChar (l := cs)).eq_of_length hall
        rw [hwhole, List.takeWhile_cons_of_neg (by decide), List.append_nil]
      · rfl
    rw [List.cons_append, endTagName?, hend, endTagName?]

/-- A less-than sign before a letter begins a start tag. -/
theorem takeMarkup_letter {c : Char} (hc : isLetter c = true) (position : Nat) (cs : List Char) :
    takeMarkup position ('<' :: c :: cs) =
      (takeStartTag position (c :: cs)).map fun found =>
        let token := startToken found.1 found.2.1 found.2.2.1 found.2.2.2
        some ([token.1], token.2) := by
  have hne : ∀ d : Char, isLetter d = false → c ≠ d := by
    rintro d hd rfl
    exact Bool.false_ne_true (hd.symm.trans hc)
  have hcomment : startsWith ['<', '!', '-', '-'] ('<' :: c :: cs) = false := by
    simp [startsWith, stripPrefix?, (hne '!' (by decide)).symm]
  rw [takeMarkup, hcomment, if_neg Bool.false_ne_true, if_pos hc]
  · cases takeStartTag position (c :: cs) <;> rfl
  · exact hne '!' (by decide)
  · exact hne '?' (by decide)
  · exact hne '/' (by decide)

/-- What is taken at a less-than sign is markup, or it is none. The forms are tried in an order, and
each excludes those before it. -/
theorem takeMarkup_cases {position : Nat} {cs : List Char}
    {found : Option (List Token × List Char)} (h : takeMarkup position cs = .ok found) :
    (found = none ∧ beginsMarkup cs = false) ∨
      ∃ tokens rest, found = some (tokens, rest) ∧ Begins cs tokens rest := by
  unfold takeMarkup at h
  split at h
  · rename_i hcomment
    exact .inr ⟨_, _, (Except.ok.inj h).symm, .comment hcomment⟩
  · rename_i hcomment
    rw [Bool.not_eq_true] at hcomment
    split at h
    · split at h
      · rename_i hquoted
        exact .inr ⟨_, _, (Except.ok.inj h).symm, .declaration (.inl rfl) hcomment hquoted⟩
      · cases h
    · split at h
      · rename_i hquoted
        exact .inr ⟨_, _, (Except.ok.inj h).symm, .declaration (.inr rfl) hcomment hquoted⟩
      · cases h
    · split at h
      · rename_i hname
        refine .inl ⟨(Except.ok.inj h).symm, ?_⟩
        exact endTagName?_eq_none_iff.1 hname
      · rename_i hname
        split at h
        · rename_i hquoted
          exact .inr ⟨_, _, (Except.ok.inj h).symm, .endTag hname hquoted⟩
        · cases h
    · rename_i c rest hexclamation hquestion hslash
      split at h
      · rename_i hletter
        rcases htag : takeStartTag position (c :: rest) with _ | ⟨tag, attributes, closed, after⟩
        · rw [htag] at h
          cases h
        · rw [htag] at h
          refine .inr ⟨_, _, (Except.ok.inj h).symm, .startTag hletter ?_⟩
          exact takeStartTag_position htag
      · rename_i hletter
        have hne : c ≠ '!' ∧ c ≠ '?' ∧ c ≠ '/' := ⟨hexclamation, hquestion, hslash⟩
        refine .inl ⟨(Except.ok.inj h).symm, ?_⟩
        simp [beginsMarkup, hletter, hne]
    · rename_i hother
      refine .inl ⟨(Except.ok.inj h).symm, ?_⟩
      unfold beginsMarkup
      split
      · exact absurd rfl (hother _ _)
      · rfl

namespace Begins

variable {cs rest : List Char} {tokens : List Token}

/-- Markup is read in the same way wherever it is. -/
theorem takeMarkup (h : Begins cs tokens rest) (position : Nat) :
    takeMarkup position cs = .ok (some (tokens, rest)) := by
  cases h with
  | comment hcomment => exact if_pos hcomment
  | declaration hc hcomment hquoted =>
      rcases hc with rfl | rfl
      · rw [Markup.takeMarkup, hcomment, if_neg Bool.false_ne_true, hquoted]
      · rw [Markup.takeMarkup, hcomment, if_neg Bool.false_ne_true, hquoted]
  | @endTag name inner rest tag hname hquoted =>
      have hcomment : startsWith ['<', '!', '-', '-'] ('<' :: '/' :: name) = false := rfl
      rw [Markup.takeMarkup, hcomment, if_neg Bool.false_ne_true, hname, hquoted]
  | startTag hletter htag =>
      rw [takeMarkup_letter hletter, htag position]
      rfl

/-- What is read as markup begins with `<`. -/
theorem exists_cons (h : Begins cs tokens rest) : ∃ after, cs = '<' :: after := by
  cases h with
  | comment hcomment =>
      obtain ⟨after, rfl⟩ := exists_of_startsWith hcomment
      exact ⟨_, rfl⟩
  | declaration => exact ⟨_, rfl⟩
  | endTag => exact ⟨_, rfl⟩
  | startTag => exact ⟨_, rfl⟩

/-- What is read as markup begins markup: the test looks two characters ahead and is never wrong. -/
theorem beginsMarkup (h : Begins cs tokens rest) : beginsMarkup cs = true := by
  cases h with
  | comment hcomment =>
      obtain ⟨after, rfl⟩ := exists_of_startsWith hcomment
      rfl
  | declaration hc => rcases hc with rfl | rfl <;> rfl
  | @endTag name inner rest tag hname =>
      by_contra hnone
      have hletter : name.head?.any isLetter = false := Bool.eq_false_iff.2 hnone
      rw [endTagName?_eq_none_iff.2 hletter] at hname
      cases hname
  | startTag hletter => simp [Markup.beginsMarkup, hletter]

/-- Markup is not empty, so reading goes on with less after it. -/
theorem length_lt (h : Begins cs tokens rest) : rest.length < cs.length := by
  cases h with
  | comment hcomment =>
      unfold afterComment
      split
      · rename_i hsplit
        rw [eq_of_splitOnce? hsplit]
        simp
        omega
      · obtain ⟨after, rfl⟩ := exists_of_startsWith hcomment
        exact Nat.zero_lt_succ _
  | declaration hc hcomment hquoted =>
      rw [eq_of_takeQuoted? hquoted]
      simp
      omega
  | endTag hname hquoted =>
      rw [eq_of_takeQuoted? hquoted]
      simp
      omega
  | @startTag c cs rest tag attributes closed hletter htag =>
      have hattributes := suffix_takeAttributes _ (takeStartTag_of_ok (htag 0)).2
      rw [List.dropWhile_cons_of_pos (isTagChar_of_isLetter hletter)] at hattributes
      have hsuffix := (suffix_startToken tag attributes closed rest).trans
        (hattributes.trans (List.dropWhile_suffix _))
      have hlength := hsuffix.length_le
      rw [List.length_cons, List.length_cons]
      omega

end Begins

/-- The tokenizer takes markup as the relation says. The branches of the tokenizer exclude each
other, so that each constructor of `Begins` is one of them. -/
theorem takeMarkup_eq_some_iff {position : Nat} {cs rest : List Char} {tokens : List Token} :
    takeMarkup position cs = .ok (some (tokens, rest)) ↔ Begins cs tokens rest := by
  refine ⟨fun h => ?_, fun h => h.takeMarkup position⟩
  rcases takeMarkup_cases h with ⟨hnone, -⟩ | ⟨tokens', rest', hsome, hbegins⟩
  · cases hnone
  · obtain ⟨rfl, rfl⟩ := Prod.mk.inj (Option.some.inj hsome)
    exact hbegins

/-- The tokenizer takes no markup exactly where none begins, and then what stands there is text.
Whether it begins is told by a few characters, whatever the rest is. -/
theorem takeMarkup_eq_none_iff {position : Nat} {cs : List Char} :
    takeMarkup position cs = .ok none ↔ beginsMarkup cs = false := by
  refine ⟨fun h => ?_, fun h => ?_⟩
  · rcases takeMarkup_cases h with ⟨-, hnone⟩ | ⟨tokens, rest, hsome, -⟩
    · exact hnone
    · cases hsome
  · unfold takeMarkup
    split
    · rename_i hcomment
      obtain ⟨after, rfl⟩ := exists_of_startsWith hcomment
      cases h
    · split
      · cases h
      · cases h
      · rename_i name _
        have hname : endTagName? name = none := endTagName?_eq_none_iff.2 h
        rw [hname]
      · rename_i c rest _ _ _
        split
        · rename_i hletter
          simp [beginsMarkup, hletter] at h
        · rfl
      · rfl

/-! ### Texts -/

/-- The tokens of a text that comes after text collected in reverse. Collected text becomes a token
as soon as markup begins or the document ends. -/
inductive Lexes : List Char → List Char → List Token → Prop where
  | nil {reversed : List Char} : Lexes reversed [] (textTokens reversed)
  | text {c : Char} {reversed cs : List Char} {tokens : List Token} :
      beginsMarkup (c :: cs) = false → Lexes (c :: reversed) cs tokens →
      Lexes reversed (c :: cs) tokens
  | markup {reversed cs rest : List Char} {inner tokens : List Token} : Begins cs inner rest →
      Lexes [] rest tokens → Lexes reversed cs (textTokens reversed ++ inner ++ tokens)

/-- A text in which no markup begins is collected, markup is read as what it begins. One step of the
tokenizer, from which the relation without a bound is built. -/
theorem tokenizeFrom_cons {bound position : Nat} {c : Char} {reversed cs : List Char}
    {tokens : List Token}
    (h : tokenizeFrom (bound + 1) position reversed (c :: cs) = .ok tokens) :
    (beginsMarkup (c :: cs) = false ∧
        ∃ position', tokenizeFrom bound position' (c :: reversed) cs = .ok tokens) ∨
      ∃ inner rest position' others, Begins (c :: cs) inner rest ∧
        tokenizeFrom bound position' [] rest = .ok others ∧
        tokens = textTokens reversed ++ inner ++ others := by
  rw [tokenizeFrom] at h
  split at h
  · rcases hmarkup : takeMarkup position (c :: cs) with _ | _ | ⟨inner, rest⟩
    · rw [hmarkup] at h
      cases h
    · rw [hmarkup] at h
      exact .inl ⟨takeMarkup_eq_none_iff.1 hmarkup, _, h⟩
    · rw [hmarkup] at h
      simp only [bind, Except.bind] at h
      split at h
      · cases h
      · rename_i others hothers
        exact .inr ⟨inner, rest, _, others, takeMarkup_eq_some_iff.1 hmarkup, hothers,
          (Except.ok.inj h).symm⟩
  · rename_i hc
    exact .inl ⟨beginsMarkup_of_ne (by simpa using hc) cs, _, h⟩

/-- The tokens that are found are those of the text. The induction is on the bound; each markup has
at least one character, so the length of the text is bound enough. -/
theorem lexes_of_tokenizeFrom {bound position : Nat} {reversed cs : List Char}
    {tokens : List Token} (hbound : cs.length ≤ bound)
    (h : tokenizeFrom bound position reversed cs = .ok tokens) : Lexes reversed cs tokens := by
  induction bound generalizing position reversed cs tokens with
  | zero =>
      obtain rfl : cs = [] := List.length_eq_zero_iff.1 (Nat.le_zero.1 hbound)
      obtain rfl := Except.ok.inj h
      exact .nil
  | succ bound ih =>
      rcases cs with _ | ⟨c, cs⟩
      · obtain rfl := Except.ok.inj h
        exact .nil
      rcases tokenizeFrom_cons h with
        ⟨hnone, position', hrest⟩ | ⟨inner, rest, position', others, hbegins, hothers, rfl⟩
      · exact .text hnone (ih (Nat.le_of_succ_le_succ hbound) hrest)
      · have hlength : rest.length ≤ bound := Nat.le_of_lt_succ (hbegins.length_lt.trans_le hbound)
        exact .markup hbegins (ih hlength hothers)

/-- The tokens of a source are a reading of it. -/
theorem lexes_of_tokenize {s : String} {tokens : List Token} (h : tokenize s = .ok tokens) :
    Lexes [] s.toList tokens :=
  lexes_of_tokenizeFrom (Nat.le_refl _) h

namespace Lexes

variable {reversed cs rest : List Char} {tokens : List Token}

/-- The tokens of a text are found at every position. Positions are there for the messages of errors
alone. -/
theorem tokenizeFrom (h : Lexes reversed cs tokens) {bound : Nat} (hbound : cs.length ≤ bound)
    (position : Nat) : tokenizeFrom bound position reversed cs = .ok tokens := by
  induction h generalizing bound position with
  | nil => cases bound <;> rfl
  | @text c reversed cs tokens hnone hcs ih =>
      rw [List.length_cons] at hbound
      obtain ⟨bound, rfl⟩ : ∃ n, bound = n + 1 := ⟨bound - 1, by omega⟩
      rw [Markup.tokenizeFrom]
      split
      · rw [takeMarkup_eq_none_iff.2 hnone]
        exact ih (by omega) _
      · exact ih (by omega) _
  | @markup reversed cs rest inner tokens hbegins hrest ih =>
      obtain ⟨after, rfl⟩ := hbegins.exists_cons
      have hlength := hbegins.length_lt
      rw [List.length_cons] at hbound hlength
      obtain ⟨bound, rfl⟩ : ∃ n, bound = n + 1 := ⟨bound - 1, by omega⟩
      rw [Markup.tokenizeFrom, if_pos (beq_self_eq_true '<'), hbegins.takeMarkup]
      show (Markup.tokenizeFrom bound _ [] rest >>= _) = _
      rw [ih (by omega)]
      rfl

/-- A reading of a source is what the tokenizer returns, hence there is one reading at most. -/
theorem tokenize {s : String} (h : Lexes [] s.toList tokens) : tokenize s = .ok tokens :=
  h.tokenizeFrom (Nat.le_refl _) 0

/-- Text without a less-than sign is collected. -/
theorem append_text (h : Lexes (cs.reverse ++ reversed) rest tokens) (hcs : '<' ∉ cs) :
    Lexes reversed (cs ++ rest) tokens := by
  induction cs generalizing reversed with
  | nil => exact h
  | cons c cs ih =>
      rw [List.mem_cons, not_or] at hcs
      rw [List.reverse_cons, List.append_assoc] at h
      exact .text (beginsMarkup_of_ne (Ne.symm hcs.1) _) (ih h hcs.2)

/-- What holds of texts, and of all that markup is read as, holds of every token. It is the
induction over readings for properties of single tokens. -/
theorem forall_mem {P : Token → Prop} (h : Lexes reversed cs tokens) (htext : ∀ cs, P (.text cs))
    (hmarkup : ∀ {cs tokens rest}, Begins cs tokens rest → ∀ token ∈ tokens, P token) :
    ∀ token ∈ tokens, P token := by
  have hpending : ∀ reversed, ∀ token ∈ textTokens reversed, P token := by
    intro reversed
    unfold textTokens
    split
    · exact List.forall_mem_nil _
    · exact List.forall_mem_singleton.2 (htext _)
  induction h with
  | nil => exact hpending _
  | text _ _ ih => exact ih
  | markup hbegins _ ih =>
      rw [List.forall_mem_append, List.forall_mem_append]
      exact ⟨⟨hpending _, hmarkup hbegins⟩, ih⟩

end Lexes

end Stencil.Markup
