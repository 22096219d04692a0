import Stencil.Proofs.Path.Segment

/-!
# Printing paths

Paths as text, and that reading undoes it.

## Main definitions

* `Path.text` — a path as text, with a key in quotes unless it can stand after a point
* `Path.Printable` — the paths that have a text of their own

## Main results

* `Path.Printable.spelledBy` — the text of a path is spelled by segments with its steps
* `Path.parse?_text` — a printed path is read back, and what is read is spelled by its segments

## Design notes

A key of digits is written after a point like any other key of name characters, and not in a
bracket.  Between its quotes a key may hold quotes of the same kind, since the bracket ends at the
first closing bracket and the quotes are those at its ends.
-/

namespace Stencil.Path

open Text

/-! ### Texts -/

/-- Whether a key can stand after a point. -/
def isPlainKey (key : List Char) : Bool := !key.isEmpty && key.all isNameChar

/-- A step as it is printed: a key after a point if it can stand there, else between quotes. -/
def Step.segment : Step → Segment
  | .key k => if isPlainKey k.toList then .dot k else .quoted '\'' k
  | .variable name => .word name

/-- The text of a step. -/
def Step.text : Step → List Char
  | .key k =>
    if isPlainKey k.toList then '.' :: k.toList else ['[', '\''] ++ k.toList ++ ['\'', ']']
  | .variable name => ['['] ++ name.toList ++ [']']

/-- The text of a path. -/
def text (path : Path) : List Char := path.head.toList ++ path.steps.flatMap Step.text

/-- A key holds no closing bracket, and a variable has a name. -/
def Step.Printable : Step → Prop
  | .key k => ']' ∉ k.toList
  | .variable name => isName name.toList = true

/-- The head is a name, and every step can be printed. -/
structure Printable (path : Path) : Prop where
  head : isName path.head.toList = true
  steps : ∀ step ∈ path.steps, step.Printable

variable {path : Path} {step : Step}

/-! ### Steps -/

@[simp] theorem step_segment (step : Step) : step.segment.step = step := by
  rcases step with k | name
  · rw [Step.segment]
    split
    · rfl
    · rfl
  · rfl

/-- The text of a step is one of its segment. -/
theorem Step.Printable.written (h : step.Printable) : step.segment.Written step.text := by
  rcases step with k | name
  · rw [Step.segment, Step.text]
    split
    · rename_i hplain
      rw [isPlainKey, Bool.and_eq_true, Bool.not_eq_true', List.isEmpty_eq_false_iff,
        List.all_eq_true] at hplain
      exact .dot hplain.1 hplain.2
    · have hinside : (Segment.quoted '\'' k).Inside (trim ('\'' :: (k.toList ++ ['\'']))) := by
        rw [trim_of_isTrimmed (isTrimmed_between rfl rfl _)]
        exact .quoted k rfl
      have hbracket : ']' ∉ '\'' :: (k.toList ++ ['\'']) := by
        have hkey : ']' ∉ k.toList := h
        simpa using hkey
      simpa using Segment.Written.bracket hinside hbracket
  · have hname : isName name.toList = true := h
    have hinside : (Segment.word name).Inside (trim name.toList) := by
      rw [trim_of_isTrimmed (isTrimmed_of_isName hname)]
      exact .word hname
    have hbracket : ']' ∉ name.toList := fun hmem =>
      absurd (isNameChar_of_mem hname hmem) (by decide)
    exact .bracket hinside hbracket

/-! ### Paths -/

/-- The text of a path is spelled by its steps as they are printed, whatever blanks stand around
it. -/
theorem Printable.spelledBy (h : path.Printable) {pre post : List Char}
    (hpre : isBlankText pre = true) (hpost : isBlankText post = true) :
    SpelledBy (String.ofList (pre ++ path.text ++ post)) path.head
      (path.steps.map Step.segment) := by
  have hsteps : List.Forall₂ Segment.Written (path.steps.map Step.segment)
      (path.steps.map Step.text) := by
    rw [List.forall₂_map_left_iff, List.forall₂_map_right_iff, List.forall₂_same]
    exact fun step hmem => (h.steps step hmem).written
  have htrimmed : IsTrimmed path.text := by
    rw [text, List.flatMap_def]
    exact (isTrimmed_of_isName h.head).append (isTrimmed_flatten_of_written hsteps)
  refine ⟨h.head, path.steps.map Step.text, hsteps, ?_⟩
  rw [String.toList_ofList, trim_blanks hpre path.text hpost, trim_of_isTrimmed htrimmed, text,
    List.flatMap_def]

/-- Reading undoes printing, whatever blanks stand around the text; and a text is read as a path
exactly if, outer blanks aside, it is a name and segments after it that make up all of the rest and
have the steps of the path in this order. -/
theorem parse?_text :
    (∀ path : Path, path.Printable → ∀ pre post : List Char, isBlankText pre = true →
        isBlankText post = true →
          parse? (String.ofList (pre ++ path.text ++ post)) = some path) ∧
      ∀ (s : String) (path : Path), parse? s = some path ↔
        ∃ segs, SpelledBy s path.head segs ∧ segs.map Segment.step = path.steps := by
  refine ⟨fun path hpath pre post hpre hpost => ?_, fun s path => parse?_eq_some_iff⟩
  refine parse?_eq_some_iff.2 ⟨_, hpath.spelledBy hpre hpost, ?_⟩
  rw [List.map_map]
  exact (List.map_congr_left fun step _ => step_segment step).trans (List.map_id _)

/-- Quotes, brackets and nothing at all as keys, between blanks. -/
theorem parse?_text_quotes :
    ((⟨"a", [.key "0", .key "it's [x", .key "", .variable "i"]⟩ : Path).Printable ∧
        isBlankText [' '] = true ∧ isBlankText ['\n'] = true) ∧
      parse? " a.0['it's [x'][''][i]\n" =
        some ⟨"a", [.key "0", .key "it's [x", .key "", .variable "i"]⟩ ∧
      ∃ segs, SpelledBy " a.0['it's [x'][''][i]\n" "a" segs ∧
        segs.map Segment.step = [.key "0", .key "it's [x", .key "", .variable "i"] := by
  have hprintable :
      (⟨"a", [.key "0", .key "it's [x", .key "", .variable "i"]⟩ : Path).Printable := by
    refine ⟨rfl, ?_⟩
    simp only [List.forall_mem_cons, List.not_mem_nil, false_implies, implies_true, and_true]
    exact ⟨show ']' ∉ "0".toList by decide, show ']' ∉ "it's [x".toList by decide,
      show ']' ∉ "".toList by decide, rfl⟩
  have hread := parse?_text.1 _ hprintable [' '] ['\n'] rfl rfl
  exact ⟨⟨hprintable, rfl, rfl⟩, hread, (parse?_text.2 _ _).1 hread⟩

end Stencil.Path
