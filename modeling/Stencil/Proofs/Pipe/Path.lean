import Stencil.Proofs.Path.Segment
import Stencil.Proofs.Pipe.Scan

/-!
# Texts of paths

How paths are written in front of a pipe.

## Main definitions

* `Path.Step.Written`, `Path.Written` — a step or a path and a text of it

## Main results

* `Path.Written.ofChars?` — a text of a path is read as that path
* `Path.Written.passes`, `Path.Written.asCall?` — a scan for bars reads over it, and it is no call

## Design notes

A path has many texts, since a key can be written in several ways.  A bracket holds a word, so that
the scanners that take notice of quotes and the one that does not, which goes to the next closing
bracket, come to the same end.
-/

namespace Stencil

open Text Stencil.Expr

namespace Path

open Pipe

/-! ### What is written -/

/-- The characters that operators are made of. -/
def operatorChars : List Char := ['=', '!', '<', '>', '&', '|']

/-- The characters that a quoted key cannot hold. -/
def reserved : List Char := ['\'', '"', '\\', '[', ']'] ++ operatorChars

/-- A step of a path and a text of it. -/
inductive Step.Written : Step → List Char → Prop where
  | dot {name : String} : isName name.toList = true → Written (.key name) ('.' :: name.toList)
  | index {digits : String} : digits.toList ≠ [] → (∀ c ∈ digits.toList, c.isDigit = true) →
      Written (.key digits) ('[' :: (digits.toList ++ [']']))
  | var {name : String} : isName name.toList = true →
      Written (.variable name) ('[' :: (name.toList ++ [']']))
  | quoted {key : String} {q : Char} : isQuote q = true → (∀ c ∈ key.toList, c ∉ reserved) →
      Written (.key key) ('[' :: (q :: (key.toList ++ [q]) ++ [']']))

/-- A path and a text of it. -/
inductive Written : Path → List Char → Prop where
  | intro {head : String} {steps : List Step} {texts : List (List Char)} :
      isName head.toList = true → List.Forall₂ Step.Written steps texts →
      Written ⟨head, steps⟩ (head.toList ++ texts.flatten)

variable {path : Path} {step : Step} {steps : List Step} {cs text : List Char}

theorem classes_of_mem_operatorChars {c : Char} (h : c ∈ operatorChars) :
    isPlain c = false ∧ isQuote c = false := by
  simp only [operatorChars, List.mem_cons, List.not_mem_nil, or_false] at h
  rcases h with rfl | rfl | rfl | rfl | rfl | rfl <;> exact ⟨rfl, rfl⟩

theorem disjoint_operatorChars_of_isPlain (h : ∀ c ∈ cs, isPlain c = true) :
    cs.Disjoint operatorChars :=
  fun c hc hmem => ne_of_isPlain (h c hc) (classes_of_mem_operatorChars hmem).1 rfl

theorem mem_reserved_of_isQuote {q : Char} (h : isQuote q = true) : q ∈ reserved := by
  simp only [isQuote, Bool.or_eq_true, beq_iff_eq] at h
  rcases h with rfl | rfl
  · decide
  · decide

/-! ### Steps -/

/-- A text of a step is a point and a name, or a word between brackets. Scanners go by these two
forms alone. -/
theorem Step.Written.exists_text (h : step.Written text) :
    (∃ name : String, isName name.toList = true ∧ step = .key name ∧ text = '.' :: name.toList) ∨
      ∃ inner, IsWord inner ∧ ']' ∉ inner ∧ inner.Disjoint operatorChars ∧
        (∃ seg : Segment, seg.Inside inner ∧ seg.step = step) ∧ text = '[' :: (inner ++ [']']) := by
  have hbracket : ∀ {cs : List Char}, (∀ c ∈ cs, isPlain c = true) → ']' ∉ cs :=
    fun h hmem => absurd (h ']' hmem) (by decide)
  cases h with
  | @dot name hname => exact .inl ⟨name, hname, rfl, rfl⟩
  | @index digits hne hdigits =>
      have hplain : ∀ c ∈ digits.toList, isPlain c = true := fun c hc =>
        isPlain_of_isNameChar (isNameChar_iff.2 (.inr (hdigits c hc)))
      exact .inr ⟨digits.toList, .plain hne hplain, hbracket hplain,
        disjoint_operatorChars_of_isPlain hplain, ⟨_, .index hne hdigits, rfl⟩, rfl⟩
  | @var name hname =>
      have hplain := isPlain_of_isName hname
      exact .inr ⟨name.toList, isWord_of_isName hname, hbracket hplain,
        disjoint_operatorChars_of_isPlain hplain, ⟨_, .word hname, rfl⟩, rfl⟩
  | @quoted key q hq hkey =>
      -- Of the characters that a key cannot hold, only quotes stand around it.
      have hquoted : ∀ c ∈ q :: (key.toList ++ [q]), c ∈ reserved → isQuote c = true := by
        intro c hc hmem
        rw [List.mem_cons, List.mem_append, List.mem_singleton] at hc
        rcases hc with rfl | hc | rfl
        · exact hq
        · exact absurd hmem (hkey c hc)
        · exact hq
      refine .inr ⟨_, .quoted hq fun c hc => ⟨?_, ?_⟩, fun hmem => ?_, fun c hc hmem => ?_,
        ⟨_, .quoted key hq, rfl⟩, rfl⟩
      · rintro rfl
        exact hkey c hc (mem_reserved_of_isQuote hq)
      · rintro rfl
        exact hkey '\\' hc (by decide)
      · exact Bool.noConfusion (hquoted ']' hmem (by decide))
      · have hquote := hquoted c hc (List.mem_append_right _ hmem)
        exact Bool.false_ne_true ((classes_of_mem_operatorChars hmem).2.symm.trans hquote)

theorem Step.Written.exists_segment (h : step.Written text) :
    ∃ seg : Segment, seg.Written text ∧ seg.step = step := by
  rcases h.exists_text with ⟨name, hname, rfl, rfl⟩ | ⟨inner, hword, hbracket, -, hseg, rfl⟩
  · exact ⟨.dot name, .dot (isWord_of_isName hname).ne_nil fun c hc => isNameChar_of_mem hname hc,
      rfl⟩
  · obtain ⟨seg, hinside, hstep⟩ := hseg
    rw [← trim_of_isTrimmed hword.isTrimmed] at hinside
    exact ⟨seg, .bracket hinside hbracket, hstep⟩

theorem isWord_dot : IsWord ['.'] := .plain (List.cons_ne_nil _ _) (List.all_eq_true.1 rfl)

/-- A written step of a path passes at every level: its brackets close each other, and its keys are
in quotes. -/
theorem Step.Written.passes (h : step.Written text) (depth : Int) :
    Passes '|' ⟨depth, none⟩ text ⟨depth, none⟩ := by
  rcases h.exists_text with ⟨name, hname, -, rfl⟩ | ⟨inner, hword, -, -, -, rfl⟩
  · have hdot : Passes '|' ⟨depth, none⟩ ['.'] ⟨depth, none⟩ := isWord_dot.passes rfl rfl depth
    exact hdot.append ((isWord_of_isName hname).passes rfl rfl depth)
  · have hinner : Passes '|' ⟨depth + 1, none⟩ inner ⟨depth + 1, none⟩ := hword.passes rfl rfl _
    exact hinner.enclosed rfl rfl (by decide) (by decide)

theorem Step.Written.disjoint_operatorChars (h : step.Written text) :
    text.Disjoint operatorChars := by
  rcases h.exists_text with ⟨name, hname, -, rfl⟩ | ⟨inner, -, -, hinner, -, rfl⟩
  · have hplain := disjoint_operatorChars_of_isPlain (isPlain_of_isName hname)
    exact List.disjoint_cons_left.2 ⟨by decide, hplain⟩
  · refine List.disjoint_cons_left.2 ⟨by decide, List.disjoint_append_left.2 ⟨hinner, ?_⟩⟩
    exact List.disjoint_cons_left.2 ⟨by decide, List.disjoint_nil_left _⟩

/-! ### Paths -/

section Steps

variable {texts : List (List Char)} (h : List.Forall₂ Step.Written steps texts)

include h

theorem exists_segments :
    ∃ segs : List Segment, List.Forall₂ Segment.Written segs texts ∧
      segs.map Segment.step = steps := by
  induction h with
  | nil => exact ⟨[], .nil, rfl⟩
  | cons hstep _ ih =>
      obtain ⟨seg, hseg, rfl⟩ := hstep.exists_segment
      obtain ⟨segs, hsegs, rfl⟩ := ih
      exact ⟨seg :: segs, .cons hseg hsegs, rfl⟩

theorem isTrimmed_flatten : IsTrimmed texts.flatten := by
  obtain ⟨segs, hsegs, -⟩ := exists_segments h
  exact isTrimmed_flatten_of_written hsegs

theorem passes_flatten (depth : Int) : Passes '|' ⟨depth, none⟩ texts.flatten ⟨depth, none⟩ := by
  induction h with
  | nil => exact .nil
  | cons hstep _ ih => exact (hstep.passes depth).append ih

theorem disjoint_operatorChars_flatten : texts.flatten.Disjoint operatorChars := by
  induction h with
  | nil => exact List.disjoint_nil_left _
  | cons hstep _ ih => exact List.disjoint_append_left.2 ⟨hstep.disjoint_operatorChars, ih⟩

end Steps

namespace Written

theorem isTrimmed (h : path.Written cs) : IsTrimmed cs := by
  obtain ⟨hhead, hsteps⟩ := h
  exact (isTrimmed_of_isName hhead).append (isTrimmed_flatten hsteps)

/-- A written path is a single piece, be there bars in its keys or not. -/
theorem passes (h : path.Written cs) : Passes '|' .top cs .top := by
  obtain ⟨hhead, hsteps⟩ := h
  exact ((isWord_of_isName hhead).passes rfl rfl 0).append (passes_flatten hsteps 0)

theorem disjoint_operatorChars (h : path.Written cs) : cs.Disjoint operatorChars := by
  obtain ⟨hhead, hsteps⟩ := h
  have hplain := disjoint_operatorChars_of_isPlain (isPlain_of_isName hhead)
  exact List.disjoint_append_left.2 ⟨hplain, disjoint_operatorChars_flatten hsteps⟩

/-- A text of a path is read as that path. The keys in brackets may be written with either kind of
quotes. -/
theorem ofChars? (h : path.Written cs) : Path.ofChars? cs = some path := by
  obtain ⟨hhead, hsteps⟩ := h
  obtain ⟨segs, hsegs, rfl⟩ := exists_segments hsteps
  exact ofChars?_of_written hsegs hhead

/-- A path is no call, for what stands in parentheses is in none of its steps. So a written path at
the start of a pipe is its value and not a filter. -/
theorem asCall? (h : path.Written cs) : Pipe.asCall? cs = none := by
  have htrimmed := h.isTrimmed
  obtain @⟨head, steps, texts, hhead, hsteps⟩ := h
  obtain ⟨segs, hsegs, -⟩ := exists_segments hsteps
  have hstop := head?_flatten_of_written hsegs
  have hparen : betweenParens? texts.flatten = none := by
    generalize texts.flatten = rest at hstop
    unfold betweenParens?
    split
    · exact absurd rfl (hstop '(' rfl).2
    · rfl
  rw [asCall?_append hhead (fun c hc => (hstop c hc).1) htrimmed, hparen, Option.bind_none]

end Written
end Path
end Stencil
