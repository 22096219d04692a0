import Mathlib.Data.List.Forall2
import Stencil.Path
import Stencil.Proofs.Text

/-!
# Segments of paths

How the steps of a path are written, and that paths are read as what is written.

## Main definitions

* `Path.Segment`, `Path.Segment.step` — a step as it is written
* `Path.Segment.Written` — a segment and a text of it
* `Path.SpelledBy` — a text that is a name and segments after it

## Main results

* `Path.parse?_eq_some_iff` — a text is read as a path exactly if segments with its steps spell it

## Design notes

A key has several texts, and which one is written shows only in the segment.  A bracket may hold
blanks around what counts, but no closing bracket, since it reaches to the first one.
-/

namespace Stencil.Path

open Text

/-- A step of a path as it is written: after a point, or in brackets as a number, between quotes or
as a name. -/
inductive Segment where
  | dot (name : String)
  | index (digits : String)
  | quoted (quote : Char) (key : String)
  | word (name : String)

namespace Segment

/-- The step that is written. -/
def step : Segment → Step
  | .dot name => .key name
  | .index digits => .key digits
  | .quoted _ key => .key key
  | .word name => .variable name

/-- What the bracket of a segment holds, blanks aside. -/
inductive Inside : Segment → List Char → Prop where
  | index {digits : String} : digits.toList ≠ [] → (∀ c ∈ digits.toList, c.isDigit = true) →
      Inside (.index digits) digits.toList
  | quoted {quote : Char} (key : String) : isQuote quote = true →
      Inside (.quoted quote key) (quote :: (key.toList ++ [quote]))
  | word {name : String} : isName name.toList = true → Inside (.word name) name.toList

/-- A segment and a text of it. -/
inductive Written : Segment → List Char → Prop where
  | dot {name : String} : name.toList ≠ [] → (∀ c ∈ name.toList, isNameChar c = true) →
      Written (.dot name) ('.' :: name.toList)
  | bracket {seg : Segment} {inner : List Char} : Inside seg (trim inner) → ']' ∉ inner →
      Written seg ('[' :: (inner ++ [']']))

end Segment

/-- A text is a name and segments after it, outer blanks aside. -/
def SpelledBy (s head : String) (segs : List Segment) : Prop :=
  isName head.toList = true ∧
    ∃ texts, List.Forall₂ Segment.Written segs texts ∧ trim s.toList = head.toList ++ texts.flatten

variable {seg : Segment} {segs : List Segment} {step : Step} {steps : List Step} {path : Path}
  {s head : String} {cs core text rest : List Char}

/-! ### Brackets -/

theorem Segment.Inside.bracketStep? (h : seg.Inside core) :
    Path.bracketStep? core = some seg.step := by
  cases h with
  | @index digits hne hdigits =>
      have hquote : unquote? digits.toList = none := by
        apply unquote?_eq_none
        intro c hc
        exact isQuote_of_isNameChar (isNameChar_iff.2 (.inr (hdigits c (List.mem_of_mem_head? hc))))
      rw [Path.bracketStep?, hquote, List.isEmpty_eq_false_iff.2 hne, List.all_eq_true.2 hdigits,
        String.ofList_toList]
      rfl
  | @quoted quote key hquote =>
      rw [Path.bracketStep?, unquote?_quoted hquote]
      show some (Step.key (String.ofList key.toList)) = _
      rw [String.ofList_toList]
      rfl
  | @word name hname =>
      have hquote : unquote? name.toList = none := by
        apply unquote?_eq_none
        intro c hc
        exact isQuote_of_isNameChar (isNameChar_of_mem hname (List.mem_of_mem_head? hc))
      have hdigits : name.toList.all Char.isDigit = false := by
        obtain ⟨c, rest, hcons, hc, -⟩ := exists_cons_of_isName hname
        rw [hcons, List.all_cons, isDigit_of_isNameStart hc, Bool.false_and]
      rw [Path.bracketStep?, hquote, hdigits, hname, String.ofList_toList, Bool.and_false]
      rfl

theorem exists_inside (h : bracketStep? core = some step) :
    ∃ seg : Segment, seg.Inside core ∧ seg.step = step := by
  unfold bracketStep? at h
  split at h
  · rename_i key hkey
    obtain ⟨quote, hquote, rfl⟩ := exists_of_unquote? hkey
    obtain rfl := Option.some.inj h
    refine ⟨.quoted quote (String.ofList key), ?_, rfl⟩
    have hinside := Segment.Inside.quoted (String.ofList key) hquote
    rwa [String.toList_ofList] at hinside
  split at h
  · rename_i hdigits
    rw [Bool.and_eq_true, Bool.not_eq_true', List.isEmpty_eq_false_iff, List.all_eq_true] at hdigits
    obtain rfl := Option.some.inj h
    refine ⟨.index (String.ofList core), ?_, rfl⟩
    have hinside : (Segment.index (String.ofList core)).Inside (String.ofList core).toList :=
      .index (by rw [String.toList_ofList]; exact hdigits.1)
        (by rw [String.toList_ofList]; exact hdigits.2)
    rwa [String.toList_ofList] at hinside
  split at h
  · rename_i hname
    obtain rfl := Option.some.inj h
    refine ⟨.word (String.ofList core), ?_, rfl⟩
    have hinside : (Segment.word (String.ofList core)).Inside (String.ofList core).toList :=
      .word (by rwa [String.toList_ofList])
    rwa [String.toList_ofList] at hinside
  · exact nomatch h

/-! ### Steps -/

/-- A text of a segment begins with a point or a bracket. -/
theorem Segment.Written.exists_cons (h : seg.Written text) :
    ∃ c cs, text = c :: cs ∧ isNameChar c = false ∧ c ≠ '(' := by
  cases h with
  | @dot name _ _ => exact ⟨'.', _, rfl, rfl, by decide⟩
  | bracket _ _ => exact ⟨'[', _, rfl, rfl, by decide⟩

/-- A segment is read from its text in front of anything that does not go on with a name. -/
theorem Segment.Written.takeStep? (h : seg.Written text)
    (hrest : ∀ c ∈ rest.head?, isNameChar c = false) :
    Path.takeStep? (text ++ rest) = some (seg.step, rest) := by
  cases h with
  | @dot name hne hname =>
      obtain ⟨htake, hdrop⟩ := takeWhile_append hname hrest
      rw [List.cons_append, Path.takeStep?]
      simp only [htake, hdrop, List.isEmpty_eq_false_iff.2 hne, Bool.false_eq_true, if_false,
        String.ofList_toList]
      rfl
  | @bracket _ inner hinside hbracket =>
      have hsplit : splitOnce? [']'] (inner ++ [']'] ++ rest) = some (inner, rest) := by
        rw [List.append_assoc]
        exact splitOnce?_of_notMem hbracket rest
      rw [List.cons_append, Path.takeStep?, hsplit]
      simp only [Option.bind_eq_bind, Option.bind_some, hinside.bracketStep?]

theorem exists_written (h : takeStep? cs = some (step, rest)) :
    ∃ (seg : Segment) (text : List Char), cs = text ++ rest ∧ seg.Written text ∧
      seg.step = step := by
  unfold takeStep? at h
  split at h
  · rename_i cs
    dsimp only at h
    split at h
    · exact nomatch h
    · rename_i hne
      obtain ⟨rfl, rfl⟩ := Prod.mk.inj (Option.some.inj h)
      rw [Bool.not_eq_true, List.isEmpty_eq_false_iff] at hne
      refine ⟨.dot (String.ofList (cs.takeWhile isNameChar)), '.' :: cs.takeWhile isNameChar, ?_,
        ?_, rfl⟩
      · rw [List.cons_append, List.takeWhile_append_dropWhile]
      · have hwritten : (Segment.dot (String.ofList (cs.takeWhile isNameChar))).Written
            ('.' :: (String.ofList (cs.takeWhile isNameChar)).toList) :=
          .dot (by rwa [String.toList_ofList]) fun c hc => by
            rw [String.toList_ofList] at hc
            exact List.mem_takeWhile_imp hc
        rwa [String.toList_ofList] at hwritten
  · rename_i cs
    obtain ⟨⟨inner, rest'⟩, hsplit, h⟩ := Option.bind_eq_some_iff.1 h
    obtain ⟨step', hstep, h⟩ := Option.bind_eq_some_iff.1 h
    obtain ⟨rfl, rfl⟩ := Prod.mk.inj (Option.some.inj h)
    obtain ⟨seg, hinside, hseg⟩ := exists_inside hstep
    refine ⟨seg, '[' :: (inner ++ [']']), ?_, .bracket hinside (notMem_of_splitOnce? hsplit), hseg⟩
    rw [List.cons_append, ← eq_of_splitOnce? hsplit]
  · exact nomatch h

/-- No blank stands at either end of the text of a segment. -/
theorem Segment.Written.isTrimmed (h : seg.Written text) : IsTrimmed text := by
  cases h with
  | @dot name hne hname =>
      have hpoint : IsTrimmed ['.'] := ⟨fun _ hc => Option.some.inj hc ▸ rfl,
        fun _ hc => Option.some.inj hc ▸ rfl⟩
      have hkey : IsTrimmed name.toList :=
        ⟨fun c hc => isBlank_of_isNameChar (hname c (List.mem_of_head? hc)),
          fun c hc => isBlank_of_isNameChar (hname c (List.mem_of_getLast? hc))⟩
      exact hpoint.append hkey
  | bracket _ _ => exact isTrimmed_between rfl rfl _

section Segments

variable {texts : List (List Char)} (h : List.Forall₂ Segment.Written segs texts)

include h

theorem isTrimmed_flatten_of_written : IsTrimmed texts.flatten := by
  induction h with
  | nil => exact ⟨nofun, nofun⟩
  | cons hseg _ ih => exact hseg.isTrimmed.append ih

/-- The texts of segments begin where a name ends, and not with a parenthesis. -/
theorem head?_flatten_of_written : ∀ c ∈ texts.flatten.head?, isNameChar c = false ∧ c ≠ '(' := by
  intro c hc
  cases h with
  | nil => exact nomatch hc
  | cons hseg _ =>
      obtain ⟨d, cs, rfl, hd⟩ := hseg.exists_cons
      exact Option.some.inj hc ▸ hd

/-- The texts of segments end with a name or a bracket. -/
theorem last_flatten_of_written :
    ∀ c ∈ texts.flatten.getLast?, isNameChar c = true ∨ c = ']' := by
  induction h with
  | nil => exact fun _ hc => nomatch hc
  | @cons seg text segs texts hseg _ ih =>
      intro c hc
      rw [List.flatten_cons, List.getLast?_append, Option.mem_def, Option.or_eq_some_iff] at hc
      rcases hc with hc | ⟨-, hc⟩
      · exact ih c hc
      cases hseg with
      | @dot name hne hname =>
          rw [List.getLast?_cons, List.getLast?_eq_some_getLast hne] at hc
          obtain rfl := Option.some.inj hc
          exact .inl (hname _ (List.getLast_mem hne))
      | bracket _ _ =>
          rw [← List.cons_append, List.getLast?_concat] at hc
          exact .inr (Option.some.inj hc).symm

theorem readSteps?_of_written {bound : Nat} (hbound : texts.flatten.length ≤ bound) :
    readSteps? bound texts.flatten = some (segs.map Segment.step) := by
  induction h generalizing bound with
  | nil => cases bound <;> rfl
  | @cons seg text segs texts hseg hsegs ih =>
      have htake := hseg.takeStep? fun c hc => (head?_flatten_of_written hsegs c hc).1
      -- A text of a segment is not empty, so the bound is enough for those after it.
      obtain ⟨c, cs, rfl, -⟩ := hseg.exists_cons
      rw [List.cons_append] at htake
      rw [List.flatten_cons, List.cons_append] at hbound ⊢
      rw [List.length_cons, List.length_append] at hbound
      obtain ⟨bound, rfl⟩ : ∃ n, bound = n + 1 := ⟨bound - 1, by omega⟩
      have hothers : readSteps? bound texts.flatten = some (segs.map Segment.step) :=
        ih (by omega)
      rw [readSteps?, htake]
      simp only [Option.bind_eq_bind, Option.bind_some, hothers]
      rfl

/-- A name and segments are read as a path. -/
theorem ofChars?_of_written (hhead : isName head.toList = true) :
    ofChars? (head.toList ++ texts.flatten) = some ⟨head, segs.map Segment.step⟩ := by
  have hstop : ∀ c ∈ texts.flatten.head?, isNameChar c = false := fun c hc =>
    (head?_flatten_of_written h c hc).1
  obtain ⟨c, name, hname, hstart, hrest⟩ := exists_cons_of_isName hhead
  obtain ⟨htake, hdrop⟩ := takeWhile_append hrest hstop
  rw [hname, List.cons_append, ofChars?, if_pos hstart]
  simp only [htake, hdrop, readSteps?_of_written h (Nat.le_refl _), Option.map_some, ← hname,
    String.ofList_toList]

end Segments

theorem exists_written_of_readSteps? {bound : Nat} (h : readSteps? bound cs = some steps) :
    ∃ segs texts, List.Forall₂ Segment.Written segs texts ∧ cs = texts.flatten ∧
      segs.map Segment.step = steps := by
  induction bound generalizing cs steps with
  | zero =>
      rcases cs with _ | ⟨c, cs⟩
      · obtain rfl := Option.some.inj h
        exact ⟨[], [], .nil, rfl, rfl⟩
      · exact nomatch h
  | succ bound ih =>
      rcases cs with _ | ⟨c, cs⟩
      · obtain rfl := Option.some.inj h
        exact ⟨[], [], .nil, rfl, rfl⟩
      · obtain ⟨⟨step, rest⟩, htake, h⟩ := Option.bind_eq_some_iff.1 h
        obtain ⟨steps', hsteps, h⟩ := Option.bind_eq_some_iff.1 h
        obtain rfl := Option.some.inj h
        obtain ⟨seg, text, htext, hseg, rfl⟩ := exists_written htake
        obtain ⟨segs, texts, hsegs, rfl, rfl⟩ := ih hsteps
        exact ⟨seg :: segs, text :: texts, .cons hseg hsegs, htext, rfl⟩

/-! ### Paths -/

theorem exists_written_of_ofChars? (h : ofChars? cs = some path) :
    isName path.head.toList = true ∧ ∃ segs texts, List.Forall₂ Segment.Written segs texts ∧
      cs = path.head.toList ++ texts.flatten ∧ segs.map Segment.step = path.steps := by
  unfold ofChars? at h
  split at h
  · exact nomatch h
  · rename_i c cs
    split at h
    · rename_i hc
      obtain ⟨steps, hsteps, rfl⟩ := Option.map_eq_some_iff.1 h
      obtain ⟨segs, texts, hsegs, htexts, hmap⟩ := exists_written_of_readSteps? hsteps
      have hname := isName_takeWhile hc cs
      have htext : c :: cs = c :: cs.takeWhile isNameChar ++ texts.flatten := by
        rw [← htexts, List.cons_append, List.takeWhile_append_dropWhile]
      rw [← String.toList_ofList (l := c :: cs.takeWhile isNameChar)] at hname htext
      exact ⟨hname, segs, texts, hsegs, htext, hmap⟩
    · exact nomatch h

/-- A text is read as a path exactly if segments with the steps of the path spell it. Segments keep
what a path forgets: in which form a key is written. -/
theorem parse?_eq_some_iff :
    parse? s = some path ↔
      ∃ segs, SpelledBy s path.head segs ∧ segs.map Segment.step = path.steps := by
  constructor
  · intro h
    obtain ⟨hhead, segs, texts, hsegs, htext, hsteps⟩ := exists_written_of_ofChars? h
    exact ⟨segs, ⟨hhead, texts, hsegs, htext⟩, hsteps⟩
  · rintro ⟨segs, ⟨hhead, texts, hsegs, htext⟩, hsteps⟩
    rw [parse?, htext, ofChars?_of_written hsegs hhead, hsteps]

/-- A path ends with a name or a bracket. -/
theorem last_of_parse? (h : parse? s = some path) :
    ∀ c ∈ (trim s.toList).getLast?, isNameChar c = true ∨ c = ']' := by
  obtain ⟨segs, ⟨hhead, texts, hsegs, htext⟩, -⟩ := parse?_eq_some_iff.1 h
  intro c hc
  rw [htext, List.getLast?_append, Option.mem_def, Option.or_eq_some_iff] at hc
  rcases hc with hc | ⟨-, hc⟩
  · exact last_flatten_of_written hsegs c hc
  · exact .inl (isNameChar_of_mem hhead (List.mem_of_getLast? hc))

/-- What segments spell is read as the path of their steps. -/
theorem SpelledBy.parse? (h : SpelledBy s head segs) :
    Path.parse? s = some ⟨head, segs.map Segment.step⟩ :=
  parse?_eq_some_iff.2 ⟨segs, h, rfl⟩

end Stencil.Path
