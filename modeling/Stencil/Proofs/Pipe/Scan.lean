import Stencil.Pipe.TopLevel
import Stencil.Proofs.Expr.Trim

/-!
# Scanning for separators

What the scanners of the language of pipes read over: the one that divides a text at its top-level
separators, and the one that tells calls.

## Main definitions

* `Passes` — a text that goes to one piece while a scan comes from one nesting to another
* `IsWord` — text that no scanner stops in: one in single quotes, or one of characters that mean
  nothing to any of them

## Main results

* `map_trim_splitTopLevel` — texts that are joined by a separator are found again
* `asCall?_append` — a name in front is told to be one of a call by what stands after it
* `asCall?_eq_some_iff` — a call is a name in front of balanced text in parentheses
* `asCall?_intercalate`, `splitArgs_intercalate` — a call of words is told, and its words are found
  again

## Design notes

A scan is told by what it does in front of an arbitrary rest, so that facts on parts of a text are
put together along the text.  A part is read over from one nesting to another; what a scan has
divided before plays no part in it.
-/

namespace Stencil.Pipe

open Text Stencil.Expr

/-! ### Division at separators -/

section Division

variable {sep c : Char} {n n' n'' : Nesting} {cs cs' rest : List Char}

/-- A character that neither separates nor escapes goes to the piece after it. The scan is left
where the character leads. -/
theorem splitFrom_cons (hseparates : n.isTop = false ∨ c ≠ sep)
    (hescapes : n.quote = none ∨ c ≠ '\\') (cs : List Char) :
    splitFrom sep n (c :: cs) = extendFirst c (splitFrom sep (n.after c) cs) := by
  have hseparator : (n.isTop && c == sep) = false := by
    rcases hseparates with h | h
    · rw [h]
      rfl
    · rw [beq_eq_false_iff_ne.2 h, Bool.and_false]
  have hescape : (c == '\\' && n.quote.isSome) = false := by
    rcases hescapes with h | h
    · rw [h]
      exact Bool.and_false _
    · rw [beq_eq_false_iff_ne.2 h, Bool.false_and]
  rcases cs with _ | ⟨d, cs⟩
  · show (if n.isTop && c == sep then _ else _) = _
    rw [hseparator]
    rfl
  · rw [splitFrom, hescape, hseparator]
    rfl

/-- The first piece is a beginning of the text. -/
theorem exists_first_piece (sep : Char) (n : Nesting) (cs : List Char) :
    ∃ piece pieces, splitFrom sep n cs = piece :: pieces ∧ piece <+: cs := by
  have hextend : ∀ {c : Char} {cs : List Char} {pieces : List (List Char)},
      (∃ piece others, pieces = piece :: others ∧ piece <+: cs) →
      ∃ piece others, extendFirst c pieces = piece :: others ∧ piece <+: c :: cs := by
    rintro c cs _ ⟨piece, others, rfl, hprefix⟩
    exact ⟨c :: piece, others, rfl, List.cons_prefix_cons.2 ⟨rfl, hprefix⟩⟩
  fun_induction splitFrom sep n cs with
  | case1 => exact ⟨[], [], rfl, List.prefix_rfl⟩
  | case2 => exact ⟨[], [[]], rfl, List.nil_prefix⟩
  | case3 n c => exact ⟨[c], [], rfl, List.prefix_rfl⟩
  | case4 n c d cs _ ih => exact hextend (hextend ih)
  | case5 n c d cs _ _ _ ih => exact hextend (hextend ih)
  | case6 n c d cs => exact ⟨[], _, rfl, List.nil_prefix⟩
  | case7 n c d cs _ _ ih => exact hextend ih

/-- Characters that are no separators all go to the piece that is being read. -/
theorem foldr_extendFirst (cs piece : List Char) (pieces : List (List Char)) :
    cs.foldr extendFirst (piece :: pieces) = (cs ++ piece) :: pieces := by
  induction cs with
  | nil => rfl
  | cons c cs ih => rw [List.foldr_cons, ih, extendFirst, List.cons_append]

/-- In front of any text, a scan that comes to `cs` at one nesting puts all of it to one piece and
goes on at the other nesting. -/
def Passes (sep : Char) (n : Nesting) (cs : List Char) (n' : Nesting) : Prop :=
  ∀ rest, splitFrom sep n (cs ++ rest) = cs.foldr extendFirst (splitFrom sep n' rest)

/-- Reading nothing changes nothing. -/
theorem Passes.nil : Passes sep n [] n := fun _ => rfl

/-- Two texts that the splitter passes over one after the other. -/
theorem Passes.append (h : Passes sep n cs n') (h' : Passes sep n' cs' n'') :
    Passes sep n (cs ++ cs') n'' := by
  intro rest
  rw [List.append_assoc, h, h', List.foldr_append]

/-- One more character in front: it must neither separate at its level nor escape what follows in a
string. -/
theorem Passes.cons (hafter : n.after c = n') (hseparates : n.isTop = false ∨ c ≠ sep)
    (hescapes : n.quote = none ∨ c ≠ '\\') (h : Passes sep n' cs n'') :
    Passes sep n (c :: cs) n'' := by
  intro rest
  rw [List.cons_append, splitFrom_cons hseparates hescapes, hafter, h rest, List.foldr_cons]

/-- Characters that leave the nesting as it is, none of them a separator or an escape. -/
theorem passes_of_after (h : ∀ c ∈ cs, n.after c = n ∧ (n.isTop = false ∨ c ≠ sep) ∧
    (n.quote = none ∨ c ≠ '\\')) : Passes sep n cs n := by
  induction cs with
  | nil => exact .nil
  | cons c cs ih =>
      obtain ⟨hafter, hseparates, hescapes⟩ := h c List.mem_cons_self
      exact .cons hafter hseparates hescapes (ih fun d hd => h d (List.mem_cons_of_mem c hd))

/-- An escaped character, whatever it is. -/
theorem Passes.escaped (hquote : n.quote.isSome = true) (h : Passes sep n cs n') :
    Passes sep n ('\\' :: c :: cs) n' := by
  intro rest
  rw [List.cons_append, List.cons_append, splitFrom, hquote, h rest]
  rfl

/-- Two bars are no separator. -/
theorem Passes.bars (hquote : n.quote = none) (h : Passes '|' n cs n') :
    Passes '|' n ('|' :: '|' :: cs) n' := by
  intro rest
  -- At the top both bars are taken at once, elsewhere each by itself.
  cases htop : n.isTop with
  | true =>
      rw [List.cons_append, List.cons_append, splitFrom, htop, h rest]
      rfl
  | false =>
      have hafter : n.after '|' = n := by
        rw [Nesting.after, hquote]
        rfl
      have hone : Passes '|' n ('|' :: cs) n' := .cons hafter (.inl htop) (.inl hquote) h
      exact Passes.cons hafter (.inl htop) (.inl hquote) hone rest

end Division

/-! ### Nestings -/

/-- A quote outside of strings opens one. -/
theorem after_quoting {q : Char} (h : isQuote q = true) (depth : Int) :
    Nesting.after ⟨depth, none⟩ q = ⟨depth, some q⟩ := by
  simp [Nesting.after, h]

/-- Its own quote closes a string. -/
theorem after_unquoting (q : Char) (depth : Int) :
    Nesting.after ⟨depth, some q⟩ q = ⟨depth, none⟩ := by
  simp [Nesting.after]

/-- Any other character inside a string leaves the splitter in the string. -/
theorem after_quoted {q c : Char} (h : c ≠ q) (depth : Int) :
    Nesting.after ⟨depth, some q⟩ c = ⟨depth, some q⟩ := by
  simp [Nesting.after, h]

/-- An opening bracket is neither a blank nor a quote. -/
theorem classes_of_opens {c : Char} (h : opens c = true) :
    isBlank c = false ∧ isQuote c = false := by
  simp only [opens, Bool.or_eq_true, beq_iff_eq] at h
  rcases h with (rfl | rfl) | rfl
  · exact ⟨rfl, rfl⟩
  · exact ⟨rfl, rfl⟩
  · exact ⟨rfl, rfl⟩

/-- A closing bracket is neither a blank, a quote nor an opening bracket. -/
theorem classes_of_closes {c : Char} (h : closes c = true) :
    isBlank c = false ∧ isQuote c = false ∧ opens c = false := by
  simp only [closes, Bool.or_eq_true, beq_iff_eq] at h
  rcases h with (rfl | rfl) | rfl
  · exact ⟨rfl, rfl, rfl⟩
  · exact ⟨rfl, rfl, rfl⟩
  · exact ⟨rfl, rfl, rfl⟩

/-- An opening bracket outside of strings goes one level deeper. -/
theorem after_opening {c : Char} (h : opens c = true) (depth : Int) :
    Nesting.after ⟨depth, none⟩ c = ⟨depth + 1, none⟩ := by
  simp [Nesting.after, h, (classes_of_opens h).2]

/-- A closing bracket outside of strings comes one level up. -/
theorem after_closing {c : Char} (h : closes c = true) (depth : Int) :
    Nesting.after ⟨depth + 1, none⟩ c = ⟨depth, none⟩ := by
  obtain ⟨-, hquote, hopens⟩ := classes_of_closes h
  simp [Nesting.after, h, hquote, hopens]

/-- Any character that is no quote and no bracket leaves the level as it is. -/
theorem after_ordinary {c : Char} (hquote : isQuote c = false) (hopens : opens c = false)
    (hcloses : closes c = false) (depth : Int) :
    Nesting.after ⟨depth, none⟩ c = ⟨depth, none⟩ := by
  simp [Nesting.after, hquote, hopens, hcloses]

/-- Brackets around a text that passes one level deeper pass at this level. At the deeper level
nothing separates, which is why the inner text may contain the separator. -/
theorem Passes.enclosed {sep first last : Char} {depth : Int} {cs : List Char}
    (h : Passes sep ⟨depth + 1, none⟩ cs ⟨depth + 1, none⟩) (hopens : opens first = true)
    (hcloses : closes last = true) (hfirst : first ≠ sep) (hlast : last ≠ sep) :
    Passes sep ⟨depth, none⟩ (first :: (cs ++ [last])) ⟨depth, none⟩ := by
  have hend : Passes sep ⟨depth + 1, none⟩ [last] ⟨depth, none⟩ :=
    .cons (after_closing hcloses depth) (.inr hlast) (.inl rfl) .nil
  exact .cons (after_opening hopens depth) (.inr hfirst) (.inl rfl) (h.append hend)

/-! ### Texts that are joined -/

section Joined

variable {sep : Char} {depth : Int} {cs : List Char}

/-- Characters outside of quotes that neither open nor close anything. -/
theorem passes_ordinary (h : ∀ c ∈ cs, c ≠ sep ∧ isQuote c = false ∧ opens c = false ∧
    closes c = false) : Passes sep ⟨depth, none⟩ cs ⟨depth, none⟩ := by
  refine passes_of_after fun c hc => ?_
  obtain ⟨hne, hquote, hopens, hcloses⟩ := h c hc
  exact ⟨after_ordinary hquote hopens hcloses depth, .inr hne, .inl rfl⟩

/-- Blanks pass at every level. -/
theorem passes_blank (hsep : isBlank sep = false) (h : isBlankText cs = true) :
    Passes sep ⟨depth, none⟩ cs ⟨depth, none⟩ := by
  refine passes_ordinary fun c hc => ?_
  have hblank := List.all_eq_true.1 h c hc
  refine ⟨?_, isQuote_of_isBlank hblank, ?_, ?_⟩
  · rintro rfl
    exact Bool.false_ne_true (hsep.symm.trans hblank)
  · exact eq_false_of_isBlank hblank fun _ hopens => (classes_of_opens hopens).1
  · exact eq_false_of_isBlank hblank fun _ hcloses => (classes_of_closes hcloses).1

/-- A text that passes at the top level is a single piece. -/
theorem Passes.splitTopLevel (h : Passes sep .top cs .top) : splitTopLevel sep cs = [cs] := by
  have hwhole := h []
  rw [splitFrom, foldr_extendFirst, List.append_nil] at hwhole
  exact hwhole

/-- A scan divides a text at a separator, unless it is the first of two bars. -/
theorem Passes.splitFrom_separator (h : Passes sep .top cs .top) {d : Char} (hd : d ≠ '|')
    (rest : List Char) :
    splitFrom sep .top (cs ++ sep :: d :: rest) = cs :: splitFrom sep .top (d :: rest) := by
  have hseparator : splitFrom sep .top (sep :: d :: rest) =
      [] :: splitFrom sep .top (d :: rest) := by
    rw [splitFrom]
    simp [Nesting.top, Nesting.isTop, hd]
  rw [h, hseparator, foldr_extendFirst, List.append_nil]

/-- Texts that are joined by a separator between blanks are found again, blanks aside, if each of
them leaves the splitter where it was. -/
theorem map_trim_splitTopLevel {before : List Char} (hbefore : isBlankText before = true)
    (hsep : isBlank sep = false) {texts : List (List Char)} (hne : texts ≠ [])
    (htexts : ∀ text ∈ texts, IsTrimmed text ∧ Passes sep .top text .top) :
    (splitTopLevel sep ((before ++ [sep, ' ']).intercalate texts)).map trim = texts := by
  -- The blank after a separator is the beginning of the next piece.
  suffices hall : ∀ lead, isBlankText lead = true →
      (splitFrom sep .top (lead ++ (before ++ [sep, ' ']).intercalate texts)).map trim = texts from
    hall [] rfl
  induction texts with
  | nil => exact absurd rfl hne
  | cons text others ih =>
      intro lead hlead
      obtain ⟨htrimmed, hpasses⟩ := htexts text List.mem_cons_self
      have hfirst : Passes sep .top (lead ++ text) .top := (passes_blank hsep hlead).append hpasses
      rcases others with _ | ⟨next, others⟩
      · have htrim : trim (lead ++ text ++ []) = trim text := trim_blanks hlead text rfl
        rw [List.append_nil, trim_of_isTrimmed htrimmed] at htrim
        rw [List.intercalate_singleton, ← splitTopLevel, hfirst.splitTopLevel, List.map_singleton,
          htrim]
      · have hpiece : Passes sep .top (lead ++ text ++ before) .top :=
          hfirst.append (passes_blank hsep hbefore)
        have hjoined : lead ++ (before ++ [sep, ' ']).intercalate (text :: next :: others) =
            lead ++ text ++ before ++ sep :: ' ' ::
              (before ++ [sep, ' ']).intercalate (next :: others) := by
          simp only [List.intercalate_cons_cons, List.append_assoc, List.cons_append,
            List.nil_append]
        have hothers := ih (List.cons_ne_nil _ _)
          (fun t ht => htexts t (List.mem_cons_of_mem text ht)) [' '] rfl
        rw [hjoined, hpiece.splitFrom_separator (by decide), List.map_cons,
          trim_blanks hlead text hbefore, trim_of_isTrimmed htrimmed]
        exact congrArg (text :: ·) hothers

end Joined

/-! ### Parentheses -/

/-- A character that is no quote and no parenthesis does not change whether the rest is balanced. -/
theorem balanced_cons {depth : Nat} {c : Char} (hquote : isQuote c = false) (hopen : c ≠ '(')
    (hclose : c ≠ ')') (cs : List Char) :
    balanced depth none (c :: cs) = balanced depth none cs := by
  cases depth with
  | zero => simp [balanced, hquote, hopen, hclose]
  | succ depth => simp [balanced, hquote, hopen, hclose]

/-- A quote outside of strings starts a string for the check of balance. -/
theorem balanced_quote {depth : Nat} {q : Char} (hq : isQuote q = true) (cs : List Char) :
    balanced depth none (q :: cs) = balanced depth (some q) cs := by
  cases depth with
  | zero => simp [balanced, hq]
  | succ depth => simp [balanced, hq]

/-! ### Words -/

/-- A character that means nothing to a scanner: one of names and numbers, or a point. -/
def isPlain (c : Char) : Bool := isNameChar c || c == '.' || c == '-'

/-- The characters of a name are plain. -/
theorem isPlain_of_isNameChar {c : Char} (h : isNameChar c = true) : isPlain c = true := by
  simp [isPlain, h]

/-- Digits are plain. -/
theorem isPlain_of_isDigit {c : Char} (h : c.isDigit = true) : isPlain c = true :=
  isPlain_of_isNameChar (isNameChar_iff.2 (.inr h))

/-- A name consists of plain characters. -/
theorem isPlain_of_isName {cs : List Char} (h : isName cs = true) : ∀ c ∈ cs, isPlain c = true :=
  fun _ hc => isPlain_of_isNameChar (isNameChar_of_mem h hc)

/-- A plain character differs from any that is not. -/
theorem ne_of_isPlain {c d : Char} (hc : isPlain c = true) (hd : isPlain d = false) : c ≠ d := by
  rintro rfl
  exact Bool.false_ne_true (hd.symm.trans hc)

/-- A plain character is no quote and no bracket. -/
theorem classes_of_isPlain {c : Char} (h : isPlain c = true) :
    isQuote c = false ∧ opens c = false ∧ closes c = false := by
  refine ⟨?_, ?_, ?_⟩
  · simp [isQuote, ne_of_isPlain h (d := '\'') rfl, ne_of_isPlain h (d := '"') rfl]
  · simp [opens, ne_of_isPlain h (d := '(') rfl, ne_of_isPlain h (d := '[') rfl,
      ne_of_isPlain h (d := '\x7b') rfl]
  · simp [closes, ne_of_isPlain h (d := ')') rfl, ne_of_isPlain h (d := ']') rfl,
      ne_of_isPlain h (d := '\x7d') rfl]

/-- Text of plain characters is not a quoted text. -/
theorem unquote?_of_isPlain {cs : List Char} (h : ∀ c ∈ cs, isPlain c = true) :
    unquote? cs = none :=
  unquote?_eq_none fun c hc => (classes_of_isPlain (h c (List.mem_of_mem_head? hc))).1

/-- A plain character is no blank. -/
theorem isBlank_of_isPlain {c : Char} (h : isPlain c = true) : isBlank c = false := by
  simp only [isPlain, Bool.or_eq_true, beq_iff_eq] at h
  rcases h with (h | rfl) | rfl
  · exact isBlank_of_isNameChar h
  · rfl
  · rfl

/-- Text that scanners read over: one in quotes, without escapes, or plain characters. -/
inductive IsWord : List Char → Prop where
  | plain {cs : List Char} : cs ≠ [] → (∀ c ∈ cs, isPlain c = true) → IsWord cs
  | quoted {q : Char} {body : List Char} : isQuote q = true → (∀ c ∈ body, c ≠ q ∧ c ≠ '\\') →
      IsWord (q :: (body ++ [q]))

/-- A name is a word: the splitter reads it without changing its state. -/
theorem isWord_of_isName {cs : List Char} (h : isName cs = true) : IsWord cs := by
  refine .plain ?_ (isPlain_of_isName h)
  rintro rfl
  exact Bool.noConfusion h

namespace IsWord

variable {cs : List Char}

/-- A word is not empty. -/
theorem ne_nil (h : IsWord cs) : cs ≠ [] := by
  cases h with
  | plain hne _ => exact hne
  | quoted _ _ => exact List.cons_ne_nil _ _

/-- A word has no blank on either end. -/
theorem isTrimmed (h : IsWord cs) : IsTrimmed cs := by
  cases h with
  | plain _ hchars =>
      exact ⟨fun c hc => isBlank_of_isPlain (hchars c (List.mem_of_mem_head? hc)),
        fun c hc => isBlank_of_isPlain (hchars c (List.mem_of_mem_getLast? hc))⟩
  | @quoted q body hq _ => exact isTrimmed_between (quote_classes hq).1 (quote_classes hq).1 body

/-- A word passes at every level, whatever the separator is, as long as the separator is not one of
the plain characters. -/
theorem passes {sep : Char} (h : IsWord cs) (hplain : isPlain sep = false)
    (hquote : isQuote sep = false) (depth : Int) : Passes sep ⟨depth, none⟩ cs ⟨depth, none⟩ := by
  cases h with
  | plain _ hchars =>
      refine passes_ordinary fun c hc => ?_
      exact ⟨ne_of_isPlain (hchars c hc) hplain, classes_of_isPlain (hchars c hc)⟩
  | @quoted q body hq hbody =>
      -- Between the quotes nothing separates, and without a backslash nothing escapes.
      have hsep : q ≠ sep := by
        rintro rfl
        exact Bool.false_ne_true (hquote.symm.trans hq)
      have hinner : Passes sep ⟨depth, some q⟩ body ⟨depth, some q⟩ := by
        refine passes_of_after fun c hc => ?_
        exact ⟨after_quoted (hbody c hc).1 depth, .inl (Bool.and_false _), .inr (hbody c hc).2⟩
      have hlast : Passes sep ⟨depth, some q⟩ [q] ⟨depth, none⟩ := by
        refine .cons (after_unquoting q depth) (.inr hsep) (.inr ?_) .nil
        rintro rfl
        exact absurd hq (by decide)
      exact .cons (after_quoting hq depth) (.inr hsep) (.inl rfl) (hinner.append hlast)

/-- A word neither opens nor closes parentheses, whether it is plain or in quotes. -/
theorem balanced_append (h : IsWord cs) (depth : Nat) (rest : List Char) :
    balanced depth none (cs ++ rest) = balanced depth none rest := by
  cases h with
  | plain _ hchars =>
      clear *- hchars
      induction cs with
      | nil => rfl
      | cons c cs ih =>
          have hc := hchars c List.mem_cons_self
          rw [List.cons_append, balanced_cons (classes_of_isPlain hc).1 (ne_of_isPlain hc rfl)
            (ne_of_isPlain hc rfl)]
          exact ih fun d hd => hchars d (List.mem_cons_of_mem c hd)
  | @quoted q body hq hbody =>
      have hinner : balanced depth (some q) (body ++ q :: rest) = balanced depth none rest := by
        clear *- hbody
        induction body with
        | nil => simp [balanced]
        | cons c body ih =>
            have hc := (hbody c List.mem_cons_self).1
            rw [List.cons_append, balanced, if_neg (by simpa using hc)]
            exact ih fun d hd => hbody d (List.mem_cons_of_mem c hd)
      rw [List.cons_append, balanced_quote hq, List.append_assoc]
      exact hinner

end IsWord

/-- A scan for bars reads over words that are joined by commas. -/
theorem passes_intercalate {texts : List (List Char)} (h : ∀ text ∈ texts, IsWord text)
    (depth : Int) : Passes '|' ⟨depth, none⟩ ([',', ' '].intercalate texts) ⟨depth, none⟩ := by
  induction texts with
  | nil => exact .nil
  | cons text others ih =>
      have hword : Passes '|' ⟨depth, none⟩ text ⟨depth, none⟩ :=
        (h text List.mem_cons_self).passes rfl rfl depth
      rcases others with _ | ⟨next, others⟩
      · rw [List.intercalate_singleton]
        exact hword
      · have hblank : Passes '|' ⟨depth, none⟩ [' '] ⟨depth, none⟩ := passes_blank rfl rfl
        have hcomma : Passes '|' ⟨depth, none⟩ [',', ' '] ⟨depth, none⟩ :=
          .cons (after_ordinary rfl rfl rfl depth) (.inr (by decide)) (.inl rfl) hblank
        rw [List.intercalate_cons_cons]
        exact (hword.append hcomma).append (ih fun t ht => h t (List.mem_cons_of_mem text ht))

/-- Parentheses are balanced around words that are joined by commas. -/
theorem balanced_intercalate {texts : List (List Char)} (h : ∀ text ∈ texts, IsWord text) :
    balanced 0 none ([',', ' '].intercalate texts) = true := by
  induction texts with
  | nil => rfl
  | cons text others ih =>
      have hword := h text List.mem_cons_self
      rcases others with _ | ⟨next, others⟩
      · rw [List.intercalate_singleton, ← List.append_nil text, hword.balanced_append]
        rfl
      · rw [List.intercalate_cons_cons, List.append_assoc, hword.balanced_append]
        exact ih fun t ht => h t (List.mem_cons_of_mem text ht)

/-! ### Calls -/

/-- Whether all of a text is a call of the name in front is told by what stands after the name:
parentheses around balanced text. -/
theorem asCall?_append {name rest : List Char} (hname : isName name = true)
    (hrest : ∀ c ∈ rest.head?, isNameChar c = false) (htrimmed : IsTrimmed (name ++ rest)) :
    asCall? (name ++ rest) = (betweenParens? rest).bind fun inner =>
      if balanced 0 none inner then some (name, inner) else none := by
  obtain ⟨c, name, rfl, hstart, hname⟩ := exists_cons_of_isName hname
  obtain ⟨htake, hdrop⟩ := takeWhile_append hname hrest
  have htrim : trim (c :: (name ++ rest)) = c :: (name ++ rest) := trim_of_isTrimmed htrimmed
  rw [asCall?, List.cons_append, htrim]
  simp only [hstart, htake, hdrop, if_true]

/-- What stands between parentheses is the text without its first and last character. They need not
belong together, which is checked elsewhere. -/
theorem betweenParens?_eq_some_iff {cs inner : List Char} :
    betweenParens? cs = some inner ↔ cs = '(' :: (inner ++ [')']) := by
  constructor
  · intro h
    unfold betweenParens? at h
    split at h
    · rename_i cs
      split at h
      · rename_i hlast
        obtain rfl := Option.some.inj h
        rw [beq_iff_eq, List.getLast?_eq_some_iff] at hlast
        obtain ⟨inner, rfl⟩ := hlast
        rw [List.dropLast_concat]
      · exact nomatch h
    · exact nomatch h
  · rintro rfl
    rw [betweenParens?, List.getLast?_concat, List.dropLast_concat]
    rfl

/-- A call is a name in front of balanced text in parentheses. Balance is that of the scan, which
knows quotes but not escapes. -/
theorem asCall?_eq_some_iff {cs name inner : List Char} :
    asCall? cs = some (name, inner) ↔
      trim cs = name ++ '(' :: (inner ++ [')']) ∧ isName name = true ∧
        balanced 0 none inner = true := by
  constructor
  · intro h
    unfold asCall? at h
    split at h
    · exact nomatch h
    · rename_i c ds htrim
      split at h
      · rename_i hc
        obtain ⟨between, hbetween, h⟩ := Option.bind_eq_some_iff.1 h
        split at h
        · rename_i hbalanced
          obtain ⟨rfl, rfl⟩ := Prod.mk.inj (Option.some.inj h)
          refine ⟨?_, isName_takeWhile hc ds, hbalanced⟩
          rw [htrim, List.cons_append, ← betweenParens?_eq_some_iff.1 hbetween,
            List.takeWhile_append_dropWhile]
        · exact nomatch h
      · exact nomatch h
  · rintro ⟨htrim, hname, hbalanced⟩
    have hstop : ∀ c ∈ ('(' :: (inner ++ [')'])).head?, isNameChar c = false :=
      fun c hc => Option.some.inj hc ▸ rfl
    have hsame : asCall? cs = asCall? (trim cs) := by
      rw [asCall?, asCall?, trim_trim]
    rw [hsame, htrim, asCall?_append hname hstop (htrim ▸ isTrimmed_trim cs),
      betweenParens?_eq_some_iff.2 rfl, Option.bind_some, if_pos hbalanced]

section Calls

variable {name : List Char} {texts : List (List Char)}

/-- A call begins with a name and ends with a parenthesis, so it has no blank on either end. -/
theorem isTrimmed_call (hname : isName name = true) (inner : List Char) :
    IsTrimmed (name ++ '(' :: (inner ++ [')'])) :=
  (isTrimmed_of_isName hname).append (isTrimmed_between rfl rfl inner)

/-- Texts that a scan for commas reads over are found again when commas join them. -/
theorem splitArgs_intercalate_of_passes
    (h : ∀ text ∈ texts, text ≠ [] ∧ IsTrimmed text ∧ Passes ',' .top text .top) :
    splitArgs ([',', ' '].intercalate texts) = texts := by
  by_cases hne : texts = []
  · rw [hne]
    rfl
  · have hnone : isBlankText [] = true := rfl
    have hsplit : (splitTopLevel ',' ([',', ' '].intercalate texts)).map trim = texts :=
      map_trim_splitTopLevel hnone (by decide) hne fun text htext => (h text htext).2
    -- A blank text is one piece, and trimming leaves nothing of it; no text is empty.
    have hblank : ¬ isBlankText ([',', ' '].intercalate texts) = true := by
      intro hblank
      have hpasses : Passes ',' .top ([',', ' '].intercalate texts) .top :=
        passes_blank (by decide) hblank
      rw [hpasses.splitTopLevel, List.map_singleton, trim_eq_nil_of_isBlankText hblank] at hsplit
      exact (h [] (hsplit ▸ List.mem_singleton_self [])).1 rfl
    rw [splitArgs, if_neg hblank, hsplit]

/-- Words that are joined by commas are found again. Each word is trimmed when it is found, so the
blank after a comma is lost as it should be. -/
theorem splitArgs_intercalate (h : ∀ text ∈ texts, IsWord text) :
    splitArgs ([',', ' '].intercalate texts) = texts :=
  splitArgs_intercalate_of_passes fun text htext =>
    ⟨(h text htext).ne_nil, (h text htext).isTrimmed,
      (h text htext).passes (by decide) (by decide) 0⟩

/-- A name with words in parentheses is a call: the opening parenthesis is closed by the last
character and not before. -/
theorem asCall?_intercalate (hname : isName name = true) (h : ∀ text ∈ texts, IsWord text) :
    asCall? (name ++ '(' :: ([',', ' '].intercalate texts ++ [')'])) =
      some (name, [',', ' '].intercalate texts) :=
  asCall?_eq_some_iff.2
    ⟨trim_of_isTrimmed (isTrimmed_call hname _), hname, balanced_intercalate h⟩

/-- A scan for bars reads over a call. -/
theorem passes_call (hname : isName name = true) (h : ∀ text ∈ texts, IsWord text) :
    Passes '|' .top (name ++ '(' :: ([',', ' '].intercalate texts ++ [')'])) .top := by
  have hinner : Passes '|' ⟨0 + 1, none⟩ ([',', ' '].intercalate texts) ⟨0 + 1, none⟩ :=
    passes_intercalate h _
  exact ((isWord_of_isName hname).passes rfl rfl 0).append
    (hinner.enclosed rfl rfl (by decide) (by decide))

end Calls

end Stencil.Pipe
