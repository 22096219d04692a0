import Stencil.Proofs.Markup.Outline
import Stencil.Proofs.Markup.Token

/-!
# The parts of a document

## Main definitions

* `IsComment`, `IsDeclaration`, `IsEndTag`, `IsStartTagOf` — what such a part looks like
* `Divided` — a text and its parts

## Main results

* `Divided.flatMap_source` — the parts make up the text
* `exists_divided_of_tokenize` — a text that can be tokenized is divided, and its tokens build what
  begins at its parts

## Design notes

A text part goes as far as it can: no markup begins in it, and markup or the end of the document
comes after it.  In raw text only the end tag of the element around counts.
-/

namespace Stencil.Markup

open Text

/-! ### Parts -/

/-- No markup begins in a text that some other text follows. -/
def PlainBefore (cs rest : List Char) : Prop :=
  ∀ before after, cs = before ++ after → after ≠ [] → beginsMarkup (after ++ rest) = false

/-- A comment goes up to its first end mark, or up to the end of the document if there is none. -/
structure IsComment (cs rest : List Char) : Prop where
  begins : startsWith ['<', '!', '-', '-'] (cs ++ rest) = true
  ends : (∃ inner, cs = inner ++ ['-', '-', '>'] ∧
      splitOnce? ['-', '-', '>'] (cs ++ rest) = some (inner, rest)) ∨
    (rest = [] ∧ splitOnce? ['-', '-', '>'] cs = none)

/-- A declaration goes up to the first greater-than sign. -/
structure IsDeclaration (cs : List Char) : Prop where
  begins : ∃ c after, cs = '<' :: c :: after ∧ (c = '!' ∨ c = '?')
  notComment : startsWith ['<', '!', '-', '-'] cs = false
  ends : ∃ inner, cs = inner ++ ['>'] ∧ '>' ∉ inner

/-- An end tag goes up to the first greater-than sign. -/
def IsEndTag (cs : List Char) (tag : String) : Prop :=
  ∃ inner, cs = '<' :: '/' :: (inner ++ ['>']) ∧ '>' ∉ inner ∧ endTagName? inner = some tag

/-- A start tag goes as far as its attributes are read. -/
def IsStartTagOf (cs rest : List Char) (tag : String) (attributes : List (String × String))
    (closed : Bool) : Prop :=
  ∃ c inner, cs = '<' :: c :: inner ∧ isLetter c = true ∧
    ∀ position, takeStartTag position (c :: inner ++ rest) = .ok (tag, attributes, closed, rest)

/-- Whether a text begins as the end tag of an element does, in any case. -/
def beginsEndTag (tag : String) (cs : List Char) : Bool :=
  startsWith (['<', '/'] ++ tag.toList)
    ((cs.take (['<', '/'] ++ tag.toList).length).map Char.toLower)

/-- Raw text goes up to the end tag of its element, and this up to a greater-than sign; either may
go up to the end of the document instead. -/
structure IsRawText (tag : String) (content close rest : List Char) : Prop where
  content : ∀ before after, content = before ++ after → after ≠ [] →
    beginsEndTag tag (after ++ (close ++ rest)) = false
  close : (close = [] ∧ rest = []) ∨ (beginsEndTag tag (close ++ rest) = true ∧
    ((∃ inner, close = inner ++ ['>'] ∧ '>' ∉ inner) ∨ (rest = [] ∧ '>' ∉ close)))

/-- A text and its parts. Each part is told by what it is written as, together with the text after
it, so that the division can be read without the reader. -/
inductive Divided : List Char → List Construct → Prop where
  | nil : Divided [] []
  | text {cs rest : List Char} {parts : List Construct} : cs ≠ [] → PlainBefore cs rest →
      (rest = [] ∨ beginsMarkup rest = true) → Divided rest parts →
      Divided (cs ++ rest) (.text cs :: parts)
  | comment {cs rest : List Char} {parts : List Construct} : IsComment cs rest →
      Divided rest parts → Divided (cs ++ rest) (.comment cs :: parts)
  | declaration {cs rest : List Char} {parts : List Construct} : IsDeclaration cs →
      Divided rest parts → Divided (cs ++ rest) (.declaration cs :: parts)
  | endTag {cs rest : List Char} {tag : String} {parts : List Construct} : IsEndTag cs tag →
      Divided rest parts → Divided (cs ++ rest) (.endTag cs tag :: parts)
  | leaf {cs rest : List Char} {tag : String} {attributes : List (String × String)} {closed : Bool}
      {parts : List Construct} : IsStartTagOf cs rest tag attributes closed →
      (closed || !hasClosingTag tag) = true → Divided rest parts →
      Divided (cs ++ rest) (.leaf cs tag attributes :: parts)
  | startTag {cs rest : List Char} {tag : String} {attributes : List (String × String)}
      {parts : List Construct} : IsStartTagOf cs rest tag attributes false →
      hasClosingTag tag = true →
      isRawText tag = false → Divided rest parts →
      Divided (cs ++ rest) (.startTag cs tag attributes :: parts)
  | rawText {cs content close rest : List Char} {tag : String}
      {attributes : List (String × String)} {parts : List Construct} :
      IsStartTagOf cs (content ++ (close ++ rest)) tag attributes false →
      hasClosingTag tag = true → isRawText tag = true → IsRawText tag content close rest →
      Divided rest parts →
      Divided (cs ++ (content ++ (close ++ rest)))
        (.startTag cs tag attributes :: .text content :: .endTag close tag :: parts)

/-- The parts of a text make it up: no character is in none of them, and none is in two. It holds
however malformed the text is, as whatever is not markup is a part too. -/
theorem Divided.flatMap_source {cs : List Char} {parts : List Construct} (h : Divided cs parts) :
    parts.flatMap Construct.source = cs := by
  induction h with
  | nil => rfl
  | text _ _ _ _ ih => rw [List.flatMap_cons, ih]; rfl
  | comment _ _ ih => rw [List.flatMap_cons, ih]; rfl
  | declaration _ _ ih => rw [List.flatMap_cons, ih]; rfl
  | endTag _ _ ih => rw [List.flatMap_cons, ih]; rfl
  | leaf _ _ _ ih => rw [List.flatMap_cons, ih]; rfl
  | startTag _ _ _ _ ih => rw [List.flatMap_cons, ih]; rfl
  | rawText _ _ _ _ _ ih =>
      rw [List.flatMap_cons, List.flatMap_cons, List.flatMap_cons, ih]
      rfl

/-! ### Tags -/

/-- A start tag that is read begins the text that it is read from. -/
theorem exists_isStartTagOf {c : Char} {cs rest : List Char} {tag : String}
    {attributes : List (String × String)} {closed : Bool} (hc : isLetter c = true)
    (h : ∀ position,
      takeStartTag position (c :: cs) = .ok (tag, attributes, closed, rest)) :
    ∃ taken, '<' :: c :: cs = taken ++ rest ∧ IsStartTagOf taken rest tag attributes closed := by
  have hsuffix := suffix_takeAttributes _ (takeStartTag_of_ok (h 0)).2
  rw [List.dropWhile_cons_of_pos (isTagChar_of_isLetter hc)] at hsuffix
  obtain ⟨inner, hinner⟩ := hsuffix.trans (List.dropWhile_suffix _)
  have hcs : cs = inner ++ rest := hinner.symm
  subst hcs
  exact ⟨'<' :: c :: inner, rfl, c, inner, rfl, hc, h⟩

/-! ### Raw text -/

/-- What follows the first greater-than sign. Without such a sign nothing does, as an end tag that
is cut off goes to the end of the text. -/
theorem afterGreater_cases (cs : List Char) :
    (∃ inner, cs = inner ++ '>' :: afterGreater cs ∧ '>' ∉ inner) ∨
      ('>' ∉ cs ∧ afterGreater cs = []) := by
  induction cs with
  | nil => exact .inr ⟨List.not_mem_nil, rfl⟩
  | cons c cs ih =>
      by_cases hc : c = '>'
      · subst hc
        exact .inl ⟨[], rfl, List.not_mem_nil⟩
      · have hskip : afterGreater (c :: cs) = afterGreater cs := by
          rw [afterGreater, List.dropWhile_cons_of_pos (by simpa using hc)]
          rfl
        rw [hskip]
        rcases ih with ⟨inner, hcs, hinner⟩ | ⟨hnone, hnil⟩
        · refine .inl ⟨c :: inner, congrArg (c :: ·) hcs, ?_⟩
          rw [List.mem_cons, not_or]
          exact ⟨Ne.symm hc, hinner⟩
        · refine .inr ⟨?_, hnil⟩
          rw [List.mem_cons, not_or]
          exact ⟨Ne.symm hc, hnone⟩

theorem exists_isRawText (tag : String) (cs : List Char) :
    ∃ close, cs = (takeRawText tag cs).1 ++ (close ++ (takeRawText tag cs).2) ∧
      IsRawText tag (takeRawText tag cs).1 close (takeRawText tag cs).2 := by
  obtain ⟨hcs, hbefore, hrest⟩ := splitBefore_spec (['<', '/'] ++ tag.toList) cs
  unfold takeRawText
  generalize splitBefore (['<', '/'] ++ tag.toList) cs = split at hcs hbefore hrest ⊢
  obtain ⟨content, rest⟩ := split
  dsimp only at hcs hbefore hrest ⊢
  rcases afterGreater_cases rest with ⟨inner, hend, hinner⟩ | ⟨hnone, hnil⟩
  · have hclose : rest = inner ++ ['>'] ++ afterGreater rest := by
      rw [List.append_assoc]
      exact hend
    refine ⟨inner ++ ['>'], by rw [← hclose]; exact hcs, ?_, .inr ⟨?_, .inl ⟨inner, rfl, hinner⟩⟩⟩
    · rw [← hclose]
      exact hbefore
    · rw [← hclose]
      refine hrest.resolve_left fun hempty => ?_
      exact absurd (hempty ▸ hend) (by simp)
  · rw [hnil]
    refine ⟨rest, by rw [List.append_nil]; exact hcs, by rw [List.append_nil]; exact hbefore, ?_⟩
    rw [List.append_nil]
    rcases hrest with rfl | hbegin
    · exact .inl ⟨rfl, rfl⟩
    · exact .inr ⟨hbegin, .inr ⟨rfl, hnone⟩⟩

/-! ### What a less-than sign begins -/

/-- The tag that was read, with the content of its element if this is raw text. Raw text makes three
parts of what the tokenizer takes as one. -/
theorem exists_divided_startToken {taken rest : List Char} {tag : String}
    {attributes : List (String × String)} {closed : Bool}
    (h : IsStartTagOf taken rest tag attributes closed) :
    ∃ front, Tells [(startToken tag attributes closed rest).1] front ∧
      ∀ parts, Divided (startToken tag attributes closed rest).2 parts →
        Divided (taken ++ rest) (front ++ parts) := by
  unfold startToken
  split
  · rename_i hleaf
    exact ⟨_, .leaf taken tag attributes, fun parts hparts => .leaf h hleaf hparts⟩
  · rename_i hleaf
    obtain ⟨rfl, hclosing⟩ : closed = false ∧ hasClosingTag tag = true := by simpa using hleaf
    split
    · rename_i hraw
      obtain ⟨close, hrest, hcontent⟩ := exists_isRawText tag rest
      refine ⟨_, .rawText taken close tag attributes (takeRawText tag rest).1,
        fun parts hparts => ?_⟩
      rw [hrest] at h
      conv => arg 1; rw [hrest]
      exact .rawText h hclosing hraw hcontent hparts
    · rename_i hraw
      refine ⟨_, .startTag taken tag attributes, fun parts hparts => ?_⟩
      exact .startTag h hclosing (Bool.eq_false_iff.2 hraw) hparts

/-- A comment is taken up to its end. -/
theorem exists_isComment {cs : List Char} (h : startsWith ['<', '!', '-', '-'] cs = true) :
    ∃ taken, cs = taken ++ afterComment cs ∧ IsComment taken (afterComment cs) := by
  unfold afterComment
  cases hsplit : splitOnce? ['-', '-', '>'] cs with
  | none =>
      refine ⟨cs, (List.append_nil cs).symm, ?_, .inr ⟨rfl, hsplit⟩⟩
      rw [List.append_nil]
      exact h
  | some found =>
      obtain ⟨inner, rest⟩ := found
      have hcs := eq_of_splitOnce? hsplit
      refine ⟨inner ++ ['-', '-', '>'], hcs, ?_, .inl ⟨inner, rfl, ?_⟩⟩
      · rw [← hcs]
        exact h
      · rw [← hcs]
        exact hsplit

theorem exists_isDeclaration {c : Char} {cs declaration rest : List Char} (hc : c = '!' ∨ c = '?')
    (hcomment : startsWith ['<', '!', '-', '-'] ('<' :: c :: cs) = false)
    (h : takeQuoted? '>' ('<' :: c :: cs) = some (declaration, rest)) :
    '<' :: c :: cs = (declaration ++ ['>']) ++ rest ∧ IsDeclaration (declaration ++ ['>']) := by
  have hcs : '<' :: c :: cs = (declaration ++ ['>']) ++ rest := by
    rw [eq_of_takeQuoted? h, List.append_assoc]
    rfl
  refine ⟨hcs, ?_, ?_, declaration, rfl, not_mem_of_takeQuoted? h⟩
  · rcases declaration with _ | ⟨first, _ | ⟨second, inner⟩⟩
    · exact absurd (List.cons.inj hcs).1 (by decide)
    · obtain ⟨-, hafter⟩ := List.cons.inj hcs
      obtain ⟨rfl, -⟩ := List.cons.inj hafter
      exact absurd hc (by decide)
    · obtain ⟨rfl, hafter⟩ := List.cons_eq_cons.1 hcs
      obtain ⟨rfl, -⟩ := List.cons.inj hafter
      exact ⟨c, inner ++ ['>'], rfl, hc⟩
  · rw [Bool.eq_false_iff]
    intro hstart
    obtain ⟨after, hafter⟩ := exists_of_startsWith hstart
    rw [hcs, hafter, List.append_assoc, startsWith, stripPrefix?_eq_some_iff.2 rfl] at hcomment
    cases hcomment

/-- What markup is read as is a part of the text, or an element with raw text. It is stated in front
of all parts that divide the rest, so that divisions can be joined. -/
theorem exists_divided_of_begins {cs rest : List Char} {tokens : List Token}
    (h : Begins cs tokens rest) : ∃ front, Tells tokens front ∧
      ∀ parts, Divided rest parts → Divided cs (front ++ parts) := by
  cases h with
  | comment hcomment =>
      obtain ⟨taken, hcs, his⟩ := exists_isComment hcomment
      refine ⟨_, .comment taken, fun parts hparts => ?_⟩
      conv => arg 1; rw [hcs]
      exact .comment his hparts
  | @declaration c cs declaration rest hc hcomment hquoted =>
      obtain ⟨hcs, his⟩ := exists_isDeclaration hc hcomment hquoted
      rw [hcs]
      exact ⟨_, .declaration (declaration ++ ['>']), fun parts hparts => .declaration his hparts⟩
  | @endTag name inner rest tag hname hquoted =>
      obtain rfl := eq_of_takeQuoted? hquoted
      rw [endTagName?_append] at hname
      have hcs : '<' :: '/' :: (inner ++ '>' :: rest) =
          '<' :: '/' :: (inner ++ ['>']) ++ rest := by simp
      rw [hcs]
      refine ⟨_, .endTag ('<' :: '/' :: (inner ++ ['>'])) tag, fun parts hparts => ?_⟩
      exact .endTag ⟨inner, rfl, not_mem_of_takeQuoted? hquoted, hname⟩ hparts
  | startTag hletter htag =>
      obtain ⟨taken, hcs, his⟩ := exists_isStartTagOf hletter htag
      rw [hcs]
      exact exists_divided_startToken his

/-! ### Documents -/

theorem isBlankText_reverse (cs : List Char) : isBlankText cs.reverse = isBlankText cs := by
  rw [isBlankText, isBlankText, List.all_reverse]

/-- The text since the last markup, as a part. -/
theorem exists_divided_text {reversed rest : List Char} (hplain : PlainBefore reversed.reverse rest)
    (hrest : rest = [] ∨ beginsMarkup rest = true) :
    ∃ front, Tells (textTokens reversed) front ∧
      ∀ parts, Divided rest parts → Divided (reversed.reverse ++ rest) (front ++ parts) := by
  by_cases hnil : reversed = []
  · subst hnil
    exact ⟨[], .nil, fun parts hparts => hparts⟩
  · refine ⟨[.text reversed.reverse], ?_, fun parts hparts => ?_⟩
    · unfold textTokens
      split
      · rename_i hblank
        exact .blank ((isBlankText_reverse reversed).trans hblank)
      · rename_i hblank
        exact .text ((isBlankText_reverse reversed).trans (Bool.eq_false_iff.2 hblank))
    · exact .text (by simpa using hnil) hplain hrest hparts

/-- A character that begins no markup is added to the text before it. -/
theorem PlainBefore.concat {cs rest : List Char} {c : Char} (h : PlainBefore cs (c :: rest))
    (hc : beginsMarkup (c :: rest) = false) : PlainBefore (cs ++ [c]) rest := by
  intro before after hcs hne
  obtain ⟨after, d, rfl⟩ : ∃ after' d, after = after' ++ [d] :=
    ⟨after.dropLast, after.getLast hne, (List.dropLast_concat_getLast hne).symm⟩
  rw [← List.append_assoc] at hcs
  obtain ⟨hfront, hlast⟩ := List.append_inj' hcs rfl
  obtain rfl := (List.cons.inj hlast).1
  rw [List.append_assoc, List.singleton_append]
  by_cases hnil : after = []
  · rw [hnil]
    exact hc
  · exact h before after hfront hnil

/-- The text that was collected is plain before what is left of the document. The induction is on
the tokens, with the collected text as one part in front. -/
theorem exists_divided_of_lexes {reversed cs : List Char} {tokens : List Token}
    (h : Lexes reversed cs tokens) (hplain : PlainBefore reversed.reverse cs) :
    ∃ parts, Divided (reversed.reverse ++ cs) parts ∧ Tells tokens parts := by
  induction h with
  | nil =>
      obtain ⟨front, htells, hdivided⟩ := exists_divided_text hplain (.inl rfl)
      refine ⟨front, ?_, htells⟩
      rw [← List.append_nil front]
      exact hdivided [] .nil
  | @text c reversed cs tokens hnone _ ih =>
      have hmore : PlainBefore (c :: reversed).reverse cs := by
        rw [List.reverse_cons]
        exact hplain.concat hnone
      obtain ⟨parts, hdivided, htells⟩ := ih hmore
      rw [List.reverse_cons, List.append_assoc] at hdivided
      exact ⟨parts, hdivided, htells⟩
  | @markup reversed cs rest inner tokens hbegins _ ih =>
      obtain ⟨front, htells, hdivided⟩ := exists_divided_of_begins hbegins
      obtain ⟨text, htext, hdividedText⟩ := exists_divided_text hplain (.inr hbegins.beginsMarkup)
      have hnone : PlainBefore [].reverse rest := fun before after hnil hne =>
        absurd (List.append_eq_nil_iff.1 hnil.symm).2 hne
      obtain ⟨parts, hparts, hothersTell⟩ := ih hnone
      refine ⟨text ++ (front ++ parts), hdividedText _ (hdivided parts hparts), ?_⟩
      rw [List.append_assoc]
      exact htext.append (htells.append hothersTell)

/-- A text that can be tokenized is divided into parts, and its tokens build what begins at them.
Comments and blank text are parts without tokens, and raw text with its end tag is given a part of
each kind. -/
theorem exists_divided_of_tokenize {s : String} {tokens : List Token}
    (h : tokenize s = .ok tokens) : ∃ parts, Divided s.toList parts ∧ Tells tokens parts := by
  have hnone : PlainBefore [].reverse s.toList := fun before after hnil hne =>
    absurd (List.append_eq_nil_iff.1 hnil.symm).2 hne
  exact exists_divided_of_lexes (lexes_of_tokenize h) hnone

end Stencil.Markup
