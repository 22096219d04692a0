import Mathlib.Data.List.Basic
import Mathlib.Data.List.TakeWhile
import Stencil.Markup.Escape
import Stencil.Text.Blank

/-!
# Escaped text

## Main results

* `not_mem_escapeChars` — nothing in escaped text begins markup or ends a quoted value
* `quote_mem_escapeUnlessEscaped` — the one way in which a quote gets past the escaping of text that
  may be escaped already
* `escapeChars_of_not_looksEscaped` — escaped text without the marks of a reference had nothing to
  escape, so that escaping it once more changes nothing
* `escapeUnlessEscaped_self` — text that may be escaped already is not escaped twice
* `escapeUnlessEscaped_trim` — trimming and escaping do not depend on each other
-/

namespace Stencil.Markup

open Text

/-! ### Characters -/

/-- A character is kept, or it is blank or markup no longer and has the marks of a reference. -/
theorem escapeChar_cases (c : Char) :
    escapeChar c = [c] ∨
      isBlank c = false ∧ '&' ∈ escapeChar c ∧ ';' ∈ escapeChar c := by
  unfold escapeChar
  split
  · exact .inr (by decide)
  · exact .inr (by decide)
  · exact .inr (by decide)
  · exact .inr (by decide)
  · exact .inr (by decide)
  · exact .inl rfl

theorem escapeChar_of_isBlank {c : Char} (h : isBlank c = true) : escapeChar c = [c] := by
  rcases escapeChar_cases c with hkept | ⟨hblank, -⟩
  · exact hkept
  · exact absurd h (by rw [hblank]; decide)

/-- What stands for a character that is not blank neither begins nor ends with a blank. -/
theorem exists_escapeChar {c : Char} (h : isBlank c = false) :
    (∃ d rest, escapeChar c = d :: rest ∧ isBlank d = false) ∧
      ∃ d rest, (escapeChar c).reverse = d :: rest ∧ isBlank d = false := by
  unfold escapeChar
  split
  · exact ⟨⟨_, _, rfl, by decide⟩, ⟨_, _, rfl, by decide⟩⟩
  · exact ⟨⟨_, _, rfl, by decide⟩, ⟨_, _, rfl, by decide⟩⟩
  · exact ⟨⟨_, _, rfl, by decide⟩, ⟨_, _, rfl, by decide⟩⟩
  · exact ⟨⟨_, _, rfl, by decide⟩, ⟨_, _, rfl, by decide⟩⟩
  · exact ⟨⟨_, _, rfl, by decide⟩, ⟨_, _, rfl, by decide⟩⟩
  · exact ⟨⟨_, _, rfl, h⟩, ⟨_, _, rfl, h⟩⟩

/-- Nothing that stands for a character begins markup or ends a quoted value. Of the characters that
do, each is replaced by a reference without any of them. -/
theorem not_mem_escapeChar {d : Char} (hd : d ∈ ['<', '>', '"', '\'']) (c : Char) :
    d ∉ escapeChar c := by
  have hclosed : ∀ {text : List Char},
      (['<', '>', '"', '\''].all fun d => !text.contains d) = true → d ∉ text := by
    intro text h hmem
    have hd := List.all_eq_true.1 h d hd
    rw [List.contains_iff_mem.2 hmem] at hd
    exact nomatch hd
  unfold escapeChar
  split
  · exact hclosed (by decide)
  · exact hclosed (by decide)
  · exact hclosed (by decide)
  · exact hclosed (by decide)
  · exact hclosed (by decide)
  · rename_i hamp hlt hgt hquote happ
    simp only [List.mem_cons, List.not_mem_nil, or_false] at hd
    rw [List.mem_singleton]
    rintro rfl
    rcases hd with hd | hd | hd | hd
    · exact hlt hd
    · exact hgt hd
    · exact hquote hd
    · exact happ hd

/-! ### Text -/

/-- Nothing in escaped text begins markup or ends a quoted value. This is what the output relies on,
and what an injected value would have to get around. -/
theorem not_mem_escapeChars {d : Char} (hd : d ∈ ['<', '>', '"', '\'']) (cs : List Char) :
    d ∉ escapeChars cs := by
  intro hmem
  obtain ⟨c, -, hc⟩ := List.mem_flatMap.1 hmem
  exact not_mem_escapeChar hd c hc

/-- A quote gets past the escaping of text that has the marks of a reference, and only there. The
two marks may stand anywhere, in this order or not, and need not make up a reference. -/
theorem quote_mem_escapeUnlessEscaped (cs : List Char) :
    '"' ∈ escapeUnlessEscaped cs ↔ looksEscapedChars cs = true ∧ '"' ∈ cs := by
  unfold escapeUnlessEscaped
  split
  · rename_i h
    exact ⟨fun hmem => ⟨h, hmem⟩, fun hmem => hmem.2⟩
  · rename_i h
    have hnone : '"' ∉ escapeChars cs := not_mem_escapeChars (by decide) cs
    exact ⟨fun hmem => absurd hmem hnone, fun hmem => absurd hmem.1 h⟩

theorem looksEscapedChars_iff {cs : List Char} :
    looksEscapedChars cs = true ↔ '&' ∈ cs ∧ ';' ∈ cs := by
  rw [looksEscapedChars, Bool.and_eq_true, List.contains_iff_mem, List.contains_iff_mem]

/-- Escaped text without the marks of a reference had nothing to escape, since each reference that
escaping puts in has both marks. -/
theorem escapeChars_of_not_looksEscaped {cs : List Char}
    (h : looksEscapedChars (escapeChars cs) = false) : escapeChars cs = cs := by
  have hkept : ∀ c ∈ cs, escapeChar c = [c] := by
    intro c hc
    rcases escapeChar_cases c with hkept | ⟨-, hamp, hsemicolon⟩
    · exact hkept
    · have hmarks := looksEscapedChars_iff.2
        ⟨List.mem_flatMap.2 ⟨c, hc, hamp⟩, List.mem_flatMap.2 ⟨c, hc, hsemicolon⟩⟩
      exact absurd (h.symm.trans hmarks) (by decide)
  rw [escapeChars, List.flatMap_congr hkept]
  exact List.flatMap_singleton' cs

/-- Text that may be escaped already is not escaped twice, which is what makes reading and printing
it again the same. -/
theorem escapeUnlessEscaped_self (cs : List Char) :
    escapeUnlessEscaped (escapeUnlessEscaped cs) = escapeUnlessEscaped cs := by
  cases hcs : looksEscapedChars cs with
  | true =>
      have hkept : escapeUnlessEscaped cs = cs := if_pos hcs
      rw [hkept, hkept]
  | false =>
      have hescaped : escapeUnlessEscaped cs = escapeChars cs := by
        rw [escapeUnlessEscaped, hcs]
        rfl
      rw [hescaped, escapeUnlessEscaped]
      split
      · rfl
      · rename_i hmarks
        -- Without the marks of a reference nothing was escaped, and nothing will be.
        rw [Bool.not_eq_true] at hmarks
        exact congrArg escapeChars (escapeChars_of_not_looksEscaped hmarks)

theorem escapeUnlessEscaped_eq_nil_iff {cs : List Char} :
    escapeUnlessEscaped cs = [] ↔ cs = [] := by
  have hchar : ∀ c, escapeChar c ≠ [] := by
    intro c
    rcases escapeChar_cases c with hkept | ⟨-, hamp, -⟩
    · rw [hkept]
      exact List.cons_ne_nil c []
    · exact List.ne_nil_of_mem hamp
  unfold escapeUnlessEscaped
  split
  · rfl
  · rw [escapeChars, List.flatMap_eq_nil_iff]
    refine ⟨fun h => List.eq_nil_iff_forall_not_mem.2 fun c hc => hchar c (h c hc), ?_⟩
    rintro rfl c hc
    exact absurd hc List.not_mem_nil

/-! ### Trimming -/

/-- Dropping blanks before or after writing characters out, if that neither makes nor moves blanks.
-/
theorem dropWhile_flatMap {f : Char → List Char} (hblank : ∀ c, isBlank c = true → f c = [c])
    (hother : ∀ c, isBlank c = false → ∃ d rest, f c = d :: rest ∧ isBlank d = false)
    (cs : List Char) : (cs.flatMap f).dropWhile isBlank = (cs.dropWhile isBlank).flatMap f := by
  induction cs with
  | nil => rfl
  | cons c cs ih =>
      cases hc : isBlank c with
      | true =>
          rw [List.flatMap_cons, hblank c hc, List.singleton_append, List.dropWhile_cons_of_pos hc,
            List.dropWhile_cons_of_pos hc, ih]
      | false =>
          obtain ⟨d, rest, hd, hdblank⟩ := hother c hc
          have hkeep : ∀ {c : Char}, isBlank c = false → ¬ isBlank c = true :=
            fun h => by rw [h]; decide
          rw [List.dropWhile_cons_of_neg (hkeep hc), List.flatMap_cons, hd, List.cons_append,
            List.dropWhile_cons_of_neg (hkeep hdblank)]

/-- Trimming does not depend on escaping. -/
theorem trim_escapeChars (cs : List Char) : trim (escapeChars cs) = escapeChars (trim cs) := by
  have hstart : ∀ cs, trimStart (escapeChars cs) = escapeChars (trimStart cs) :=
    dropWhile_flatMap (fun c => escapeChar_of_isBlank) fun c h => (exists_escapeChar h).1
  -- The end of the text is the start of its reverse, in which references stand reversed.
  have hend : ∀ cs, trimEnd (escapeChars cs) = escapeChars (trimEnd cs) := by
    intro cs
    have hreversed := dropWhile_flatMap (f := fun c => (escapeChar c).reverse)
      (fun c h => by rw [escapeChar_of_isBlank h]; rfl) (fun c h => (exists_escapeChar h).2)
      cs.reverse
    rw [trimEnd, escapeChars, List.reverse_flatMap]
    show (List.dropWhile isBlank (cs.reverse.flatMap fun c => (escapeChar c).reverse)).reverse = _
    rw [hreversed, List.reverse_flatMap, trimEnd, escapeChars]
    simp only [Function.comp_def, List.reverse_reverse]
  rw [trim, hstart, hend]
  rfl

/-- Trimming takes nothing but blanks. -/
theorem mem_trim_iff {c : Char} (hc : isBlank c = false) (cs : List Char) :
    c ∈ trim cs ↔ c ∈ cs := by
  have hdrop : ∀ cs : List Char, c ∈ cs.dropWhile isBlank ↔ c ∈ cs := by
    intro cs
    refine ⟨fun h => (List.dropWhile_sublist isBlank).subset h, fun h => ?_⟩
    have hparts : cs.takeWhile isBlank ++ cs.dropWhile isBlank = cs :=
      List.takeWhile_append_dropWhile
    rw [← hparts, List.mem_append] at h
    rcases h with h | h
    · have hblank : isBlank c = true := List.mem_takeWhile_imp h
      exact absurd (hc.symm.trans hblank) (by decide)
    · exact h
  rw [trim, trimEnd, List.mem_reverse, hdrop, List.mem_reverse, trimStart, hdrop]

theorem looksEscapedChars_trim (cs : List Char) :
    looksEscapedChars (trim cs) = looksEscapedChars cs := by
  rw [Bool.eq_iff_iff, looksEscapedChars_iff, looksEscapedChars_iff,
    mem_trim_iff (by decide) cs, mem_trim_iff (by decide) cs]

/-- Escaping and trimming may change places: blanks are not escaped, and no reference begins or ends
with one. -/
theorem escapeUnlessEscaped_trim (cs : List Char) :
    escapeUnlessEscaped (trim cs) = trim (escapeUnlessEscaped cs) := by
  unfold escapeUnlessEscaped
  rw [looksEscapedChars_trim]
  split
  · rfl
  · exact (trim_escapeChars cs).symm

end Stencil.Markup
