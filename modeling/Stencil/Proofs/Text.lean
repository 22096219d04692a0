import Mathlib.Data.List.TakeWhile
import Stencil.Text.Blank
import Stencil.Text.Name

/-!
# Texts

Which characters are of which class, what trimming takes away and what it leaves, and where a text
is split.

## Main definitions

* `IsTrimmed` — text with no blank at either end
* `words` — what stands between the blanks of a text

## Main results

* `takeWhile_append` — a run of a class of characters ends where another one begins
* `exists_trim` — text is its trimmed form between blanks
* `trim_between` — trimming gives back what stands between blanks
* `words_trim`, `words_intercalate` — the words of trimmed and of joined texts
* `splitOnce?_of_notMem` — a text is split at the first place where the separator can begin
* `replaceAll_append` — text in which no occurrence begins is kept
* `replace_induct` — induction along the occurrences that are replaced
-/

namespace Stencil.Text

/-! ### Classes of characters -/

/-- No character from `!` up to the next line control is a blank. All the characters of names,
numbers and symbols are in this range, so the other lemmas on blanks come down to bounds. -/
theorem isBlank_eq_false {c : Char} (hlow : 0x21 ≤ c.toNat) (hhigh : c.toNat < 0x85) :
    isBlank c = false := by
  simp [isBlank]
  omega

/-- The digits are one range of code points. -/
theorem toNat_of_isDigit {c : Char} (h : c.isDigit = true) : 48 ≤ c.toNat ∧ c.toNat ≤ 57 := by
  simp only [Char.isDigit, Bool.and_eq_true, decide_eq_true_eq] at h
  exact ⟨UInt32.le_iff_toNat_le.1 h.1, UInt32.le_iff_toNat_le.1 h.2⟩

/-- The letters of names are the two ranges of Latin letters. -/
theorem toNat_of_isLetter {c : Char} (h : isLetter c = true) :
    (97 ≤ c.toNat ∧ c.toNat ≤ 122) ∨ (65 ≤ c.toNat ∧ c.toNat ≤ 90) := by
  simp only [isLetter, Bool.or_eq_true, Bool.and_eq_true, decide_eq_true_eq] at h
  rcases h with h | h
  · exact .inl ⟨UInt32.le_iff_toNat_le.1 h.1, UInt32.le_iff_toNat_le.1 h.2⟩
  · exact .inr ⟨UInt32.le_iff_toNat_le.1 h.1, UInt32.le_iff_toNat_le.1 h.2⟩

/-- A name starts with a Latin letter, an underscore or a dollar sign. -/
theorem toNat_of_isNameStart {c : Char} (h : isNameStart c = true) :
    (97 ≤ c.toNat ∧ c.toNat ≤ 122) ∨ (65 ≤ c.toNat ∧ c.toNat ≤ 90) ∨ c.toNat = 95 ∨
      c.toNat = 36 := by
  simp only [isNameStart, Bool.or_eq_true, beq_iff_eq] at h
  rcases h with (h | rfl) | rfl
  · rcases toNat_of_isLetter h with h | h
    · exact .inl h
    · exact .inr (.inl h)
  · exact .inr (.inr (.inl rfl))
  · exact .inr (.inr (.inr rfl))

/-- A name goes on with what it may start with, and with digits. -/
theorem isNameChar_iff {c : Char} :
    isNameChar c = true ↔ isNameStart c = true ∨ c.isDigit = true := by
  simp only [isNameChar, isNameStart, Bool.or_eq_true, or_left_comm, or_comm]

/-- No character of a name is a blank. -/
theorem isBlank_of_isNameChar {c : Char} (h : isNameChar c = true) : isBlank c = false := by
  rcases isNameChar_iff.1 h with h | h
  · have := toNat_of_isNameStart h
    exact isBlank_eq_false (by omega) (by omega)
  · have := toNat_of_isDigit h
    exact isBlank_eq_false (by omega) (by omega)

/-- A name does not start with a digit, so that names and numbers are told apart by their first
character. -/
theorem isDigit_of_isNameStart {c : Char} (h : isNameStart c = true) : c.isDigit = false := by
  have hstart := toNat_of_isNameStart h
  rw [Bool.eq_false_iff]
  intro hdigit
  have := toNat_of_isDigit hdigit
  omega

/-- A quote begins nothing but a string. -/
theorem quote_classes {q : Char} (h : isQuote q = true) :
    isBlank q = false ∧ q.isDigit = false ∧ isNameStart q = false := by
  simp only [isQuote, Bool.or_eq_true, beq_iff_eq] at h
  rcases h with rfl | rfl
  · exact ⟨rfl, rfl, rfl⟩
  · exact ⟨rfl, rfl, rfl⟩

/-- A run of a class of characters ends where something else begins. Every reader that takes names,
digits or blanks off a text uses it. -/
theorem takeWhile_append {p : Char → Bool} {cs rest : List Char} (hcs : ∀ c ∈ cs, p c = true)
    (hrest : ∀ c ∈ rest.head?, p c = false) :
    (cs ++ rest).takeWhile p = cs ∧ (cs ++ rest).dropWhile p = rest := by
  have hstop : rest.takeWhile p = [] ∧ rest.dropWhile p = rest := by
    rcases rest with _ | ⟨c, rest⟩
    · exact ⟨rfl, rfl⟩
    · have hc := hrest c rfl
      exact ⟨List.takeWhile_cons_of_neg (by simp [hc]), List.dropWhile_cons_of_neg (by simp [hc])⟩
  rw [List.takeWhile_append_of_pos hcs, List.dropWhile_append_of_pos hcs, hstop.1, hstop.2,
    List.append_nil]
  exact ⟨rfl, rfl⟩

/-- A name is its first character and others that can occur in one. -/
theorem exists_cons_of_isName {cs : List Char} (h : isName cs = true) :
    ∃ c rest, cs = c :: rest ∧ isNameStart c = true ∧ ∀ d ∈ rest, isNameChar d = true := by
  rcases cs with _ | ⟨c, rest⟩
  · exact Bool.noConfusion h
  · rw [isName, Bool.and_eq_true, List.all_eq_true] at h
    exact ⟨c, rest, rfl, h⟩

/-- All characters of a name, the first included, may go on a name. -/
theorem isNameChar_of_mem {cs : List Char} (h : isName cs = true) {c : Char} (hc : c ∈ cs) :
    isNameChar c = true := by
  obtain ⟨first, rest, rfl, hstart, hrest⟩ := exists_cons_of_isName h
  rcases List.mem_cons.1 hc with rfl | hc
  · exact isNameChar_of_isNameStart hstart
  · exact hrest c hc

/-- The longest run of name characters after a start of a name makes a name with it. -/
theorem isName_takeWhile {c : Char} (hc : isNameStart c = true) (cs : List Char) :
    isName (c :: cs.takeWhile isNameChar) = true := by
  rw [isName, hc, Bool.true_and, List.all_eq_true]
  exact fun d hd => List.mem_takeWhile_imp hd

/-- No character of a name is a quote. -/
theorem isQuote_of_isNameChar {c : Char} (h : isNameChar c = true) : isQuote c = false := by
  rw [Bool.eq_false_iff]
  intro hquote
  simp only [isQuote, Bool.or_eq_true, beq_iff_eq] at hquote
  rcases hquote with rfl | rfl
  · exact absurd h (by decide)
  · exact absurd h (by decide)

/-! ### Quotes -/

/-- A text between two equal quotes is unquoted to what stands between them, escapes or not. -/
theorem unquote?_quoted {q : Char} (hq : isQuote q = true) (body : List Char) :
    unquote? (q :: (body ++ [q])) = some body := by
  rw [unquote?, hq, List.getLast?_concat, beq_self_eq_true, Bool.and_true, if_pos rfl,
    List.dropLast_concat]

/-- Without a quote at its start a text is not quoted. -/
theorem unquote?_eq_none {cs : List Char} (h : ∀ c ∈ cs.head?, isQuote c = false) :
    unquote? cs = none := by
  rcases cs with _ | ⟨c, cs⟩
  · rfl
  · rw [unquote?, h c rfl, Bool.false_and, if_neg Bool.false_ne_true]

/-- A text that can be unquoted stands between two equal quotes. -/
theorem exists_of_unquote? {cs body : List Char} (h : unquote? cs = some body) :
    ∃ q, isQuote q = true ∧ cs = q :: (body ++ [q]) := by
  rcases cs with _ | ⟨q, rest⟩
  · exact nomatch h
  · rw [unquote?] at h
    split at h
    · rename_i hquote
      rw [Bool.and_eq_true, beq_iff_eq] at hquote
      obtain ⟨hq, body', rfl⟩ := hquote.imp_right List.getLast?_eq_some_iff.1
      rw [List.dropLast_concat] at h
      exact ⟨q, hq, Option.some.inj h ▸ rfl⟩
    · exact nomatch h

/-! ### Trimming -/

/-- Text with no blank at either end. -/
def IsTrimmed (cs : List Char) : Prop :=
  (∀ c ∈ cs.head?, isBlank c = false) ∧ ∀ c ∈ cs.getLast?, isBlank c = false

/-- Trimming gives back what stands between blanks. With `exists_trim`, which says that every text
is of this form, it determines trimming. -/
theorem trim_between {pre cs post : List Char} (hpre : ∀ c ∈ pre, isBlank c = true)
    (hcs : IsTrimmed cs) (hpost : ∀ c ∈ post, isBlank c = true) :
    trim (pre ++ cs ++ post) = cs := by
  rcases List.eq_nil_or_concat cs with rfl | ⟨init, last, rfl⟩
  · refine trim_eq_nil_of_isBlankText (List.all_eq_true.2 fun c hc => ?_)
    rw [List.append_nil, List.mem_append] at hc
    exact hc.elim (hpre c) (hpost c)
  · rw [List.concat_eq_append] at hcs ⊢
    have hstart : trimStart (pre ++ (init ++ [last]) ++ post) = init ++ [last] ++ post := by
      rw [List.append_assoc]
      refine (takeWhile_append hpre fun c hc => hcs.1 c ?_).2
      rcases init with _ | ⟨d, init⟩ <;> exact hc
    have hend : (post.reverse ++ (init ++ [last]).reverse).dropWhile isBlank =
        (init ++ [last]).reverse := by
      refine (takeWhile_append (fun c hc => hpost c (List.mem_reverse.1 hc)) fun c hc => ?_).2
      rw [List.head?_reverse] at hc
      exact hcs.2 c hc
    rw [trim, hstart, trimEnd, List.reverse_append, hend, List.reverse_reverse]

/-- The blanks at the end of a text are what is trimmed off there. -/
theorem trimEnd_append_blanks (cs : List Char) :
    trimEnd cs ++ (cs.reverse.takeWhile isBlank).reverse = cs := by
  rw [trimEnd, ← List.reverse_append, List.takeWhile_append_dropWhile, List.reverse_reverse]

/-- Text is its trimmed form between blanks. Together with `trim_between` it lets a proof begin with
the blanks taken apart. -/
theorem exists_trim (cs : List Char) : ∃ pre post, cs = pre ++ trim cs ++ post ∧
    (∀ c ∈ pre, isBlank c = true) ∧ ∀ c ∈ post, isBlank c = true := by
  refine ⟨cs.takeWhile isBlank, ((trimStart cs).reverse.takeWhile isBlank).reverse, ?_, ?_, ?_⟩
  · rw [List.append_assoc, trim, trimEnd_append_blanks, trimStart, List.takeWhile_append_dropWhile]
  · exact fun c hc => List.mem_takeWhile_imp hc
  · exact fun c hc => List.mem_takeWhile_imp (List.mem_reverse.1 hc)

/-- Text that trimming leaves nothing of is blank. -/
theorem isBlankText_iff_trim {cs : List Char} : isBlankText cs = true ↔ trim cs = [] := by
  refine ⟨trim_eq_nil_of_isBlankText, fun h => ?_⟩
  obtain ⟨pre, post, hcs, hpre, hpost⟩ := exists_trim cs
  rw [h, List.append_nil] at hcs
  rw [hcs]
  refine List.all_eq_true.2 fun c hc => ?_
  rcases List.mem_append.1 hc with hc | hc
  · exact hpre c hc
  · exact hpost c hc

/-- After the blanks at the start are dropped there is none at the start. -/
theorem isBlank_head?_dropWhile (cs : List Char) :
    ∀ c ∈ (cs.dropWhile isBlank).head?, isBlank c = false := by
  intro c hc
  have hnot := List.head?_dropWhile_not isBlank cs
  rw [Option.mem_def.1 hc] at hnot
  exact hnot

/-- A trimmed text has no blank on either end. -/
theorem isTrimmed_trim (cs : List Char) : IsTrimmed (trim cs) := by
  refine ⟨fun c hc => ?_, fun c hc => ?_⟩
  · obtain ⟨rest, hrest⟩ : ∃ rest, trimStart cs = trim cs ++ rest :=
      ⟨_, (trimEnd_append_blanks (trimStart cs)).symm⟩
    refine isBlank_head?_dropWhile cs c ?_
    show c ∈ (trimStart cs).head?
    rw [hrest]
    rcases h : trim cs with _ | ⟨d, ds⟩
    · rw [h] at hc
      cases hc
    · rw [h] at hc
      exact hc
  · rw [trim, trimEnd, List.getLast?_reverse] at hc
    exact isBlank_head?_dropWhile _ c hc

/-- A text without blanks on its ends is left as it is by trimming. -/
theorem trim_of_isTrimmed {cs : List Char} (h : IsTrimmed cs) : trim cs = cs := by
  have hnone : ∀ c ∈ ([] : List Char), isBlank c = true := fun _ hc => nomatch hc
  have hbetween := trim_between hnone h hnone
  rwa [List.nil_append, List.append_nil] at hbetween

/-- Blanks around a text are trimmed off. -/
theorem trim_blanks {before after : List Char} (hbefore : isBlankText before = true)
    (cs : List Char) (hafter : isBlankText after = true) :
    trim (before ++ cs ++ after) = trim cs := by
  obtain ⟨pre, post, hcs, hpre, hpost⟩ := exists_trim cs
  have hpre' : ∀ c ∈ before ++ pre, isBlank c = true :=
    List.forall_mem_append.2 ⟨List.all_eq_true.1 hbefore, hpre⟩
  have hpost' : ∀ c ∈ post ++ after, isBlank c = true :=
    List.forall_mem_append.2 ⟨hpost, List.all_eq_true.1 hafter⟩
  calc trim (before ++ cs ++ after) = trim (before ++ (pre ++ trim cs ++ post) ++ after) := by
        rw [← hcs]
    _ = trim (before ++ pre ++ trim cs ++ (post ++ after)) := by
        simp only [List.append_assoc]
    _ = trim cs := trim_between hpre' (isTrimmed_trim cs) hpost'

/-- Trimming twice is trimming once. -/
@[simp] theorem trim_trim (cs : List Char) : trim (trim cs) = trim cs :=
  trim_of_isTrimmed (isTrimmed_trim cs)

/-- Trimming adds no characters. -/
theorem mem_of_mem_trim {c : Char} {cs : List Char} (h : c ∈ trim cs) : c ∈ cs := by
  obtain ⟨pre, post, hcs, -, -⟩ := exists_trim cs
  rw [hcs]
  exact List.mem_append_left _ (List.mem_append_right _ h)

/-- A last character that is not blank stays the last one. -/
theorem getLast?_trim {c : Char} {cs : List Char} (hc : isBlank c = false)
    (h : cs.getLast? = some c) : (trim cs).getLast? = some c := by
  obtain ⟨pre, post, hcs, hpre, hpost⟩ := exists_trim cs
  rw [hcs, List.getLast?_append, List.getLast?_append, Option.or_eq_some_iff,
    Option.or_eq_some_iff] at h
  rcases h with h | ⟨-, h | ⟨-, h⟩⟩
  · exact absurd ((hpost c (List.mem_of_getLast? h)).symm.trans hc) Bool.noConfusion
  · exact h
  · exact absurd ((hpre c (List.mem_of_getLast? h)).symm.trans hc) Bool.noConfusion

/-- Two texts without blanks on their ends have none on the ends together. -/
theorem IsTrimmed.append {cs cs' : List Char} (h : IsTrimmed cs) (h' : IsTrimmed cs') :
    IsTrimmed (cs ++ cs') := by
  refine ⟨fun c hc => ?_, fun c hc => ?_⟩
  · rw [List.head?_append, Option.mem_def, Option.or_eq_some_iff] at hc
    rcases hc with hc | ⟨-, hc⟩
    · exact h.1 c hc
    · exact h'.1 c hc
  · rw [List.getLast?_append, Option.mem_def, Option.or_eq_some_iff] at hc
    rcases hc with hc | ⟨-, hc⟩
    · exact h'.2 c hc
    · exact h.2 c hc

/-- What begins and ends with characters that are not blank is trimmed. -/
theorem isTrimmed_between {first last : Char} (hfirst : isBlank first = false)
    (hlast : isBlank last = false) (cs : List Char) : IsTrimmed (first :: (cs ++ [last])) := by
  refine ⟨fun c hc => Option.some.inj hc ▸ hfirst, fun c hc => ?_⟩
  rw [← List.cons_append, List.getLast?_concat] at hc
  exact Option.some.inj hc ▸ hlast

/-- A name has no blank on either end. -/
theorem isTrimmed_of_isName {cs : List Char} (h : isName cs = true) : IsTrimmed cs where
  left _ hc := isBlank_of_isNameChar (isNameChar_of_mem h (List.mem_of_head? hc))
  right _ hc := isBlank_of_isNameChar (isNameChar_of_mem h (List.mem_of_getLast? hc))

/-! ### Words -/

/-- The words of a text, between its blanks. -/
def words (cs : List Char) : List (List Char) := (cs.splitOnP isBlank).filter (!·.isEmpty)

/-- There are no words in an empty text. -/
@[simp] theorem words_nil : words [] = [] := rfl

/-- A blank separates words. -/
theorem words_append_cons {c : Char} (hc : isBlank c = true) (cs cs' : List Char) :
    words (cs ++ c :: cs') = words cs ++ words cs' := by
  rw [words, List.splitOnP_append_cons cs cs' hc, List.filter_append]
  rfl

/-- A blank in front adds no word. -/
theorem words_cons {c : Char} (hc : isBlank c = true) (cs : List Char) :
    words (c :: cs) = words cs := words_append_cons hc [] cs

/-- Blanks around a text add no words. The inductions are on the blanks, in front and behind, one at
a time. -/
theorem words_between {pre post : List Char} (hpre : ∀ c ∈ pre, isBlank c = true)
    (hpost : ∀ c ∈ post, isBlank c = true) (cs : List Char) :
    words (pre ++ cs ++ post) = words cs := by
  have hblank : ∀ {post : List Char}, (∀ c ∈ post, isBlank c = true) → words post = [] := by
    intro post hpost
    induction post with
    | nil => rfl
    | cons c post ih =>
        obtain ⟨hc, hpost⟩ := List.forall_mem_cons.1 hpost
        rw [words_cons hc, ih hpost]
  have hend : words (cs ++ post) = words cs := by
    rcases post with _ | ⟨c, post⟩
    · rw [List.append_nil]
    · obtain ⟨hc, hpost⟩ := List.forall_mem_cons.1 hpost
      rw [words_append_cons hc, hblank hpost, List.append_nil]
  induction pre with
  | nil => exact hend
  | cons c pre ih =>
      obtain ⟨hc, hpre⟩ := List.forall_mem_cons.1 hpre
      rw [List.cons_append, List.cons_append, words_cons hc, ih hpre]

/-- The words of a text are those of the text without the blanks around it. -/
theorem words_trim (cs : List Char) : words (trim cs) = words cs := by
  obtain ⟨pre, post, hcs, hpre, hpost⟩ := exists_trim cs
  have hwords := words_between hpre hpost (trim cs)
  rw [← hcs] at hwords
  exact hwords.symm

/-- The words of texts that are joined by blanks are those of each, in order. No word goes across a
joint, since a blank stands there. -/
theorem words_intercalate (texts : List (List Char)) :
    words ([' '].intercalate texts) = texts.flatMap words := by
  induction texts with
  | nil => rfl
  | cons text others ih =>
      rcases others with _ | ⟨next, others⟩
      · rw [List.intercalate_singleton, List.flatMap_singleton]
      · rw [List.intercalate_cons_cons, List.append_assoc, List.singleton_append,
          words_append_cons rfl, ih]
        rfl

/-! ### Splitting -/

/-- A text is split at the first place where the separator can begin. The condition is more than is
needed, but easy to have for separators whose first character is rare. -/
theorem splitOnce?_of_notMem {first : Char} {sep before : List Char} (h : first ∉ before)
    (after : List Char) :
    splitOnce? (first :: sep) (before ++ (first :: sep ++ after)) = some (before, after) := by
  induction before with
  | nil =>
      have hstrip : stripPrefix? (first :: sep) (first :: (sep ++ after)) = some after :=
        stripPrefix?_eq_some_iff.2 rfl
      show splitOnce? (first :: sep) (first :: (sep ++ after)) = _
      rw [splitOnce?, hstrip]
  | cons c before ih =>
      have hne : first ≠ c := fun e => h (e ▸ List.mem_cons_self)
      rw [List.cons_append, splitOnce?, stripPrefix?, if_neg hne,
        ih fun hmem => h (List.mem_cons_of_mem c hmem)]
      rfl

/-- The part before the first separator does not hold it. -/
theorem notMem_of_splitOnce? {sep : Char} {cs before after : List Char}
    (h : splitOnce? [sep] cs = some (before, after)) : sep ∉ before := by
  induction cs generalizing before with
  | nil => exact nomatch h
  | cons c cs ih =>
      unfold splitOnce? at h
      split at h
      · obtain ⟨rfl, -⟩ := Prod.mk.inj (Option.some.inj h)
        exact List.not_mem_nil
      · rename_i hstrip
        obtain ⟨⟨before', after'⟩, hsplit, he⟩ := Option.map_eq_some_iff.1 h
        obtain ⟨rfl, rfl⟩ := Prod.mk.inj he
        rw [List.mem_cons, not_or]
        refine ⟨?_, ih hsplit⟩
        rintro rfl
        exact nomatch (if_pos rfl).symm.trans hstrip

/-! ### Searching -/

/-- The test for a prefix, as a relation. -/
theorem startsWith_iff {start cs : List Char} : startsWith start cs = true ↔ start <+: cs := by
  rw [startsWith, Option.isSome_iff_exists]
  exact exists_congr fun rest => stripPrefix?_eq_some_iff.trans eq_comm

/-- A text that occurs inside another one is found there. The search goes from left to right, and an
occurrence is one at the start of some end. -/
theorem hasInfix_of_isInfix {sub cs : List Char} (h : sub <:+: cs) : hasInfix sub cs = true := by
  have hprefix : ∀ {cs : List Char}, sub <+: cs → ∃ rest, stripPrefix? sub cs = some rest := by
    rintro cs ⟨rest, rfl⟩
    exact ⟨rest, stripPrefix?_eq_some_iff.2 rfl⟩
  rw [hasInfix]
  induction cs with
  | nil =>
      obtain rfl := List.infix_nil.1 h
      obtain ⟨rest, hrest⟩ := hprefix List.prefix_rfl
      rw [splitOnce?, hrest]
      rfl
  | cons c cs ih =>
      unfold splitOnce?
      split
      · rfl
      · rename_i hnone
        rcases List.infix_cons_iff.1 h with hstart | hlater
        · obtain ⟨rest, hrest⟩ := hprefix hstart
          exact absurd (hrest.symm.trans hnone) (Option.some_ne_none rest)
        · rw [Option.isSome_map, ih hlater]

/-! ### Replacing -/

/-- A character at which no occurrence begins is kept. -/
theorem replaceAll_cons {old cs : List Char} {c : Char} (h : ¬ old <+: c :: cs)
    (new : List Char) : replaceAll old new (c :: cs) = c :: replaceAll old new cs := by
  rw [← startsWith_iff] at h
  show replaceFrom old new 0 (c :: cs) = _
  rw [replaceFrom, if_neg h]
  rfl

/-- Text in which no occurrence begins is kept, also no occurrence that goes on into the text behind
it. -/
theorem replaceAll_append {old new cs rest : List Char}
    (h : ∀ start, start ≠ [] → start <:+ cs → ¬ old <+: start ++ rest) :
    replaceAll old new (cs ++ rest) = cs ++ replaceAll old new rest := by
  induction cs with
  | nil => rfl
  | cons c cs ih =>
      have hfirst : ¬ old <+: c :: (cs ++ rest) :=
        h (c :: cs) (List.cons_ne_nil _ _) List.suffix_rfl
      rw [List.cons_append, replaceAll_cons hfirst, ih, List.cons_append]
      exact fun start hne hstart => h start hne (hstart.trans (List.suffix_cons c cs))

/-- Replacing a text that does not occur changes nothing. -/
theorem replaceAll_self {old cs : List Char} (h : ¬ old <:+: cs) (new : List Char) :
    replaceAll old new cs = cs := by
  induction cs with
  | nil => rfl
  | cons c cs ih =>
      rw [replaceAll_cons fun hprefix => h hprefix.isInfix,
        ih fun hlater => h (hlater.trans (List.suffix_cons c cs).isInfix)]

/-- After a match the scan skips as many characters as were matched and goes on from there, so that
matches do not overlap. -/
theorem replaceFrom_skip (old new cs rest : List Char) :
    replaceFrom old new cs.length (cs ++ rest) = replaceAll old new rest := by
  induction cs with
  | nil => rfl
  | cons c cs ih => exact ih

/-- An occurrence at the start is replaced. -/
theorem replaceAll_old {first : Char} {more : List Char} (new rest : List Char) :
    replaceAll (first :: more) new (first :: more ++ rest) =
      new ++ replaceAll (first :: more) new rest := by
  have hfirst : startsWith (first :: more) (first :: (more ++ rest)) = true :=
    startsWith_iff.2 (List.prefix_append (first :: more) rest)
  show replaceFrom (first :: more) new 0 (first :: (more ++ rest)) = _
  rw [replaceFrom, if_pos hfirst, List.length_cons, Nat.add_sub_cancel, replaceFrom_skip]

/-- Induction along the occurrences of a text, from left to right without overlap. It follows the
recursion of the replacing, so that the cases are the ones that it tells apart. -/
@[elab_as_elim]
theorem replace_induct {old : List Char} (hold : old ≠ []) {motive : List Char → Prop}
    (nil : motive []) (occurrence : ∀ cs, motive cs → motive (old ++ cs))
    (cons : ∀ c cs, ¬ old <+: c :: cs → motive cs → motive (c :: cs)) (cs : List Char) :
    motive cs := by
  have hall : ∀ n, ∀ cs : List Char, cs.length ≤ n → motive cs := by
    intro n
    induction n with
    | zero => exact fun cs hlength => List.eq_nil_of_length_eq_zero (Nat.le_zero.1 hlength) ▸ nil
    | succ n ih =>
        intro cs hlength
        by_cases hprefix : old <+: cs
        · obtain ⟨rest, rfl⟩ := hprefix
          have hpositive := List.length_pos_iff.2 hold
          rw [List.length_append] at hlength
          exact occurrence rest (ih rest (by omega))
        · rcases cs with _ | ⟨c, cs⟩
          · exact nil
          · exact cons c cs hprefix (ih cs (Nat.le_of_succ_le_succ hlength))
  exact hall cs.length cs (Nat.le_refl _)

end Stencil.Text
