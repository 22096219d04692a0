import Stencil.FrontMatter
import Stencil.Proofs.Text

/-!
# Front matter and its fences

## Main definitions

* `IsLine`, `IsLineBefore` — a line with its break, and one that some text follows
* `IsFence`, `IsClosingFence` — the lines that fence a block
* `Fenced`, `HasBlock` — a text that begins with a block between fences, line by line

## Main results

* `lines_append`, `isLineBefore_of_lines` — a text is cut into its lines and nothing else
* `split_spec` — the block and the body of a source are what stands between and behind its fences,
  and only a source without fences has no block

## Design notes

What a line is and what makes it a fence is told without the functions that cut lines and trim
blanks.  A block ends at the first closing fence, so later ones belong to the body.
-/

namespace Stencil.FrontMatter

open Text

/-! ### Lines -/

/-- A line with the break at its end. A carriage return in front of the break is part of the line.
-/
def IsLine (line : List Char) : Prop := ∃ cs, '\n' ∉ cs ∧ line = cs ++ ['\n']

/-- The line that comes before the rest of a text. Only the last one may have no break, so the lines
of a text put together are the text. -/
def IsLineBefore (line rest : List Char) : Prop :=
  IsLine line ∨ (line ≠ [] ∧ '\n' ∉ line ∧ rest = [])

theorem flatten_lines (cs : List Char) : (lines cs).flatten = cs := by
  induction cs with
  | nil => rfl
  | cons c cs ih =>
      unfold lines
      split
      · rw [List.flatten_cons, ih]
        rfl
      · split
        · rename_i hnone
          rw [hnone] at ih
          rw [← ih]
          rfl
        · rename_i line others hlines
          rw [hlines] at ih
          rw [← ih]
          rfl

theorem lines_break (cs : List Char) : lines ('\n' :: cs) = ['\n'] :: lines cs := rfl

theorem lines_cons {c : Char} (hc : c ≠ '\n') {cs line : List Char} {others : List (List Char)}
    (h : lines cs = line :: others) : lines (c :: cs) = (c :: line) :: others := by
  rw [lines, if_neg (by simpa using hc), h]

/-- A text without a break is one line. -/
theorem lines_of_notMem {cs : List Char} (hne : cs ≠ []) (h : '\n' ∉ cs) : lines cs = [cs] := by
  induction cs with
  | nil => exact absurd rfl hne
  | cons c cs ih =>
      obtain ⟨hc, hcs⟩ : '\n' ≠ c ∧ '\n' ∉ cs := by rwa [List.mem_cons, not_or] at h
      rcases cs with _ | ⟨d, cs⟩
      · rw [lines, if_neg (by simpa using hc.symm)]
        rfl
      · exact lines_cons hc.symm (ih (List.cons_ne_nil d cs) hcs)

/-- The line that a text begins with is cut off, with its own line break, so that the lines put
together are the text. -/
theorem lines_append {line rest : List Char} (h : IsLineBefore line rest) :
    lines (line ++ rest) = line :: lines rest := by
  rcases h with ⟨cs, hcs, rfl⟩ | ⟨hne, hline, rfl⟩
  · induction cs with
    | nil => exact lines_break rest
    | cons c cs ih =>
        rw [List.mem_cons, not_or] at hcs
        exact lines_cons (Ne.symm hcs.1) (ih hcs.2)
  · rw [List.append_nil, lines_of_notMem hne hline]
    rfl

/-- What is cut off as the first line of a text is one. With `lines_append` this makes cutting off
and putting in front inverse. -/
theorem isLineBefore_of_lines {cs line : List Char} {others : List (List Char)}
    (h : lines cs = line :: others) : IsLineBefore line others.flatten := by
  induction cs generalizing line others with
  | nil => exact nomatch h
  | cons c cs ih =>
      by_cases hc : c = '\n'
      · subst hc
        obtain ⟨rfl, -⟩ := List.cons.inj h
        exact .inl ⟨[], List.not_mem_nil, rfl⟩
      · rcases hcs : lines cs with _ | ⟨first, later⟩
        · obtain rfl : cs = [] := by rw [← flatten_lines cs, hcs, List.flatten_nil]
          rw [lines_of_notMem (List.cons_ne_nil c []) (by simpa using Ne.symm hc)] at h
          obtain ⟨rfl, rfl⟩ := List.cons.inj h
          exact .inr ⟨List.cons_ne_nil c [], by simpa using Ne.symm hc, rfl⟩
        · rw [lines_cons hc hcs] at h
          obtain ⟨rfl, rfl⟩ := List.cons.inj h
          rcases ih hcs with ⟨inner, hinner, rfl⟩ | ⟨-, hfirst, hlast⟩
          · exact .inl ⟨c :: inner, by simp [hinner, Ne.symm hc], rfl⟩
          · exact .inr ⟨List.cons_ne_nil c first, by simp [hfirst, Ne.symm hc], hlast⟩

theorem lines_flatten_of_lines {cs line : List Char} {others : List (List Char)}
    (h : lines cs = line :: others) : lines others.flatten = others := by
  have hcs := flatten_lines cs
  rw [h, List.flatten_cons] at hcs
  rw [← hcs, lines_append (isLineBefore_of_lines h)] at h
  exact (List.cons.inj h).2

theorem isLineBefore_of_lines_append {cs line : List Char} {before after : List (List Char)}
    (h : lines cs = before ++ line :: after) : IsLineBefore line after.flatten := by
  induction before generalizing cs with
  | nil => exact isLineBefore_of_lines h
  | cons first before ih => exact ih (lines_flatten_of_lines h)

/-- Every line but the last one has a break. -/
theorem isLine_of_lines_append {cs last : List Char} {front after : List (List Char)}
    (h : lines cs = front ++ last :: after) (hlast : last ≠ []) : ∀ line ∈ front, IsLine line := by
  intro line hline
  obtain ⟨before, later, rfl⟩ := List.append_of_mem hline
  rw [List.append_assoc, List.cons_append] at h
  refine (isLineBefore_of_lines_append h).resolve_right fun ⟨_, _, hrest⟩ => hlast ?_
  rw [List.flatten_append, List.flatten_cons] at hrest
  exact (List.append_eq_nil_iff.1 (List.append_eq_nil_iff.1 hrest).2).1

/-! ### Fences -/

/-- Three marks and then nothing but blanks. -/
def IsFence (mark : Char) (line : List Char) : Prop :=
  ∃ blanks, (∀ c ∈ blanks, isBlank c = true) ∧ line = [mark, mark, mark] ++ blanks

/-- The line that ends a block. -/
def IsClosingFence (line : List Char) : Prop := IsFence '-' line ∨ IsFence '.' line

theorem trimEnd_eq_iff {mark : Char} (hmark : isBlank mark = false) (line : List Char) :
    trimEnd line = [mark, mark, mark] ↔ IsFence mark line := by
  constructor
  · intro h
    refine ⟨(line.reverse.takeWhile isBlank).reverse, fun c hc => ?_, ?_⟩
    · exact List.mem_takeWhile_imp (List.mem_reverse.1 hc)
    · rw [← h, trimEnd_append_blanks]
  · rintro ⟨blanks, hblanks, rfl⟩
    have hend : (blanks.reverse ++ [mark, mark, mark]).dropWhile isBlank = [mark, mark, mark] := by
      refine (takeWhile_append (fun c hc => hblanks c (List.mem_reverse.1 hc)) fun c hc => ?_).2
      exact Option.some.inj hc ▸ hmark
    rw [trimEnd, List.reverse_append]
    exact congrArg List.reverse hend

theorem isOpening_iff (line : List Char) : isOpening line = true ↔ IsFence '-' line := by
  rw [isOpening, beq_iff_eq, trimEnd_eq_iff (by decide)]

theorem isClosing_iff (line : List Char) : isClosing line = true ↔ IsClosingFence line := by
  rw [isClosing, Bool.or_eq_true, beq_iff_eq, beq_iff_eq, trimEnd_eq_iff (by decide),
    trimEnd_eq_iff (by decide), IsClosingFence]

/-- A text that begins with a block between fences: its first line, the lines of the block, the line
that closes it, and what comes after that line. -/
structure Fenced (cs opening : List Char) (inner : List (List Char)) (closing body : List Char) :
    Prop where
  text : cs = opening ++ inner.flatten ++ closing ++ body
  opening_line : IsLine opening
  opening_fence : IsFence '-' opening
  inner_line : ∀ line ∈ inner, IsLine line
  closing_line : IsLineBefore closing body
  closing_fence : IsClosingFence closing

/-- Whether a text begins with a block between fences. A text with an opening fence and no closing
one has none, and is a body as a whole. -/
def HasBlock (cs : List Char) : Prop :=
  ∃ opening inner closing body, Fenced cs opening inner closing body

section Block

variable {cs opening closing body : List Char} {inner : List (List Char)}

theorem lines_flatten_append (h : ∀ line ∈ inner, IsLine line) (rest : List Char) :
    lines (inner.flatten ++ rest) = inner ++ lines rest := by
  induction inner with
  | nil => rfl
  | cons line inner ih =>
      obtain ⟨hline, hinner⟩ := List.forall_mem_cons.1 h
      rw [List.flatten_cons, List.append_assoc, lines_append (.inl hline), ih hinner]
      rfl

/-- The fences are lines of the text, the closing one among those after the first. -/
theorem Fenced.lines_eq (h : Fenced cs opening inner closing body) :
    lines cs = opening :: (inner ++ closing :: lines body) := by
  rw [h.text, List.append_assoc, List.append_assoc, lines_append (.inl h.opening_line),
    lines_flatten_append h.inner_line, lines_append h.closing_line]

theorem not_isClosing_iff (line : List Char) :
    (!isClosing line) = true ↔ ¬ IsClosingFence line := by
  rw [Bool.not_eq_true', Bool.eq_false_iff, ne_eq, isClosing_iff]

/-- The first closing fence among some lines divides them. -/
theorem splitAtClosing?_append (hinner : ∀ line ∈ inner, ¬ IsClosingFence line)
    (hclosing : IsClosingFence closing) (after : List (List Char)) :
    splitAtClosing? (inner ++ closing :: after) = some (inner.flatten, after.flatten) := by
  have hskip : ∀ line ∈ inner, (!isClosing line) = true :=
    fun line hline => (not_isClosing_iff line).2 (hinner line hline)
  have hstop : ¬ (!isClosing closing) = true := by
    rw [not_isClosing_iff]
    exact not_not_intro hclosing
  have hdropped : (inner ++ closing :: after).dropWhile (!isClosing ·) = closing :: after := by
    rw [List.dropWhile_append_of_pos hskip]
    exact List.dropWhile_cons_of_neg hstop
  have htaken : (inner ++ closing :: after).takeWhile (!isClosing ·) = inner := by
    rw [List.takeWhile_append_of_pos hskip]
    exact (congrArg (inner ++ ·) (List.takeWhile_cons_of_neg hstop)).trans (List.append_nil inner)
  rw [splitAtClosing?, hdropped, htaken]

theorem splitAtClosing?_eq_none {ls : List (List Char)} (h : ∀ line ∈ ls, ¬ IsClosingFence line) :
    splitAtClosing? ls = none := by
  have hdropped : ls.dropWhile (!isClosing ·) = [] :=
    List.dropWhile_eq_nil_iff.2 fun line hline => (not_isClosing_iff line).2 (h line hline)
  rw [splitAtClosing?, hdropped]

/-- Some lines have a first closing fence or none at all. -/
theorem exists_closing_or (ls : List (List Char)) :
    (∃ inner closing after, ls = inner ++ closing :: after ∧ IsClosingFence closing ∧
      ∀ line ∈ inner, ¬ IsClosingFence line) ∨ ∀ line ∈ ls, ¬ IsClosingFence line := by
  rcases hfind : ls.find? isClosing with _ | closing
  · refine .inr fun line hline hfence => ?_
    exact List.find?_eq_none.1 hfind line hline ((isClosing_iff line).2 hfence)
  · obtain ⟨hclosing, inner, after, hls, hinner⟩ := List.find?_eq_some_iff_append.1 hfind
    exact .inl ⟨inner, closing, after, hls, (isClosing_iff closing).1 hclosing,
      fun line hline => (not_isClosing_iff line).1 (hinner line hline)⟩

/-! ### Blocks -/

/-- The block ends where a line first closes it. -/
theorem split_of_fenced {source : String}
    (h : Fenced (dropMark source.toList) opening inner closing body)
    (hfirst : ∀ line ∈ inner, ¬ IsClosingFence line) :
    split source = (some (String.ofList inner.flatten), String.ofList body) := by
  rw [split, h.lines_eq]
  dsimp only
  rw [if_pos ((isOpening_iff opening).2 h.opening_fence),
    splitAtClosing?_append hfirst h.closing_fence]
  dsimp only
  rw [flatten_lines]

/-- A text whose lines begin with a fence and have a closing one after it. -/
theorem fenced_of_lines {after : List (List Char)}
    (h : lines cs = opening :: (inner ++ closing :: after)) (hopening : IsFence '-' opening)
    (hclosing : IsClosingFence closing) : Fenced cs opening inner closing after.flatten := by
  have hne : closing ≠ [] := by
    rintro rfl
    rcases hclosing with ⟨blanks, -, hblanks⟩ | ⟨blanks, -, hblanks⟩
    · exact nomatch hblanks
    · exact nomatch hblanks
  have hfront : lines cs = (opening :: inner) ++ closing :: after := h
  have hlines := isLine_of_lines_append hfront hne
  refine ⟨?_, hlines opening List.mem_cons_self, hopening,
    fun line hline => hlines line (List.mem_cons_of_mem opening hline),
    isLineBefore_of_lines_append hfront, hclosing⟩
  rw [← flatten_lines cs, h]
  simp

end Block

/-- A source is divided at its fences, or has no block and is a body as a whole. Both are read off
the lines, of which the first must be a fence and the first fence after it closes the block. -/
theorem split_cases (source : String) :
    (∃ opening inner closing body, Fenced (dropMark source.toList) opening inner closing body ∧
        (∀ line ∈ inner, ¬ IsClosingFence line) ∧
        split source = (some (String.ofList inner.flatten), String.ofList body)) ∨
      (¬ HasBlock (dropMark source.toList) ∧ split source = (none, source)) := by
  rcases hlines : lines (dropMark source.toList) with _ | ⟨first, rest⟩
  · refine .inr ⟨fun ⟨opening, inner, closing, body, h⟩ => ?_, by rw [split, hlines]⟩
    exact nomatch hlines.symm.trans h.lines_eq
  by_cases hopening : IsFence '-' first
  · rcases exists_closing_or rest with ⟨inner, closing, after, rfl, hclosing, hinner⟩ | hnone
    · have hfenced := fenced_of_lines hlines hopening hclosing
      exact .inl ⟨first, inner, closing, _, hfenced, hinner, split_of_fenced hfenced hinner⟩
    · refine .inr ⟨fun ⟨opening, inner, closing, body, h⟩ => ?_, ?_⟩
      · obtain ⟨rfl, rfl⟩ := List.cons.inj (hlines.symm.trans h.lines_eq)
        exact hnone closing (List.mem_append_right _ List.mem_cons_self) h.closing_fence
      · rw [split, hlines]
        dsimp only
        rw [if_pos ((isOpening_iff first).2 hopening), splitAtClosing?_eq_none hnone]
  · refine .inr ⟨fun ⟨opening, inner, closing, body, h⟩ => ?_, ?_⟩
    · obtain ⟨rfl, -⟩ := List.cons.inj (hlines.symm.trans h.lines_eq)
      exact hopening h.opening_fence
    · rw [split, hlines]
      dsimp only
      rw [if_neg (by rwa [isOpening_iff])]

/-- Lines become a block where they are put between fences. -/
theorem fenced_of_lines_between {inner : List (List Char)} (hinner : ∀ line ∈ inner, IsLine line)
    (body : List Char) :
    Fenced ("---\n".toList ++ inner.flatten ++ "---\n".toList ++ body) "---\n".toList inner
      "---\n".toList body := by
  have hline : IsLine "---\n".toList := ⟨['-', '-', '-'], by decide, rfl⟩
  have hfence : IsFence '-' "---\n".toList := ⟨['\n'], List.forall_mem_singleton.2 rfl, rfl⟩
  exact ⟨rfl, hline, hfence, hinner, .inl hline, .inl hfence⟩

/-- Front matter is split off exactly, and nothing is lost.  Aside from a byte order mark, a source
has a block if and only if its first line is a fence and some later line closes it.  The block is
what stands between the first line and the first one that closes it, and the body all that comes
after that line; a source without a block is a body as a whole.  So lines without a fence among them
are given back from between two fences, whatever the body is. -/
theorem split_spec (source : String) :
    ((∃ block body, split source = (some block, body)) ↔ HasBlock (dropMark source.toList)) ∧
      (∀ block body, split source = (some block, body) ↔ ∃ opening inner closing,
        Fenced (dropMark source.toList) opening inner closing body.toList ∧
          (∀ line ∈ inner, ¬ IsClosingFence line) ∧ block.toList = inner.flatten) ∧
      (¬ HasBlock (dropMark source.toList) → split source = (none, source)) ∧
      ∀ (inner : List (List Char)) (body : String),
        (∀ line ∈ inner, IsLine line ∧ ¬ IsClosingFence line) →
        split ("---\n" ++ String.ofList inner.flatten ++ "---\n" ++ body) =
          (some (String.ofList inner.flatten), body) := by
  have hcases := split_cases source
  refine ⟨?_, fun block body => ?_, fun hnone => ?_, fun inner body hinner => ?_⟩
  -- There is a block exactly if the text is split.
  · rcases hcases with ⟨opening, inner, closing, body, hfenced, -, hsplit⟩ | ⟨hnone, hsplit⟩
    · exact ⟨fun _ => ⟨opening, inner, closing, body, hfenced⟩, fun _ => ⟨_, _, hsplit⟩⟩
    · refine ⟨fun ⟨block, body, h⟩ => ?_, fun h => absurd h hnone⟩
      exact nomatch hsplit.symm.trans h
  · constructor
    · intro h
      rcases hcases with ⟨opening, inner, closing, _, hfenced, hinner, hsplit⟩ | ⟨-, hsplit⟩
      · obtain ⟨hblock, rfl⟩ := Prod.mk.inj (h.symm.trans hsplit)
        obtain rfl := Option.some.inj hblock
        rw [String.toList_ofList, String.toList_ofList]
        exact ⟨opening, inner, closing, hfenced, hinner, rfl⟩
      · exact nomatch hsplit.symm.trans h
    -- A text that is fenced is split where the fences are, and there is one way to do so.
    · rintro ⟨opening, inner, closing, hfenced, hinner, hblock⟩
      rw [split_of_fenced hfenced hinner, ← hblock, String.ofList_toList, String.ofList_toList]
  · rcases hcases with ⟨opening, inner, closing, body, hfenced, -⟩ | ⟨-, hsplit⟩
    · exact absurd ⟨opening, inner, closing, body, hfenced⟩ hnone
    · exact hsplit
  -- Lines between two fences, without a fence among them.
  · have hfenced := fenced_of_lines_between (fun line hline => (hinner line hline).1) body.toList
    have htext : dropMark ("---\n" ++ String.ofList inner.flatten ++ "---\n" ++ body).toList =
        "---\n".toList ++ inner.flatten ++ "---\n".toList ++ body.toList := by
      simp only [String.toList_append, String.toList_ofList]
      rfl
    rw [← htext] at hfenced
    rw [split_of_fenced hfenced fun line hline => (hinner line hline).2, String.ofList_toList]

/-- The last fence may be the end of the source, and any blank may follow a mark. -/
example : split "\ufeff---\r\na: 1\r\n...\u2003" = (some "a: 1\r\n", "") := by cbv

end Stencil.FrontMatter
