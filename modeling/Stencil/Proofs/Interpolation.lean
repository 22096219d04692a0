import Mathlib.Data.List.Forall2
import Stencil.Interpolation
import Stencil.Proofs.Markup.Escape

/-!
# Interpolated text

## Main definitions

* `Interpolation.Part` — a piece of a text after evaluation
* `Interpolation.Parts` — the pieces of a text with the values of its expressions
* `Interpolation.fill` — text put together from its parts

## Main results

* `Interpolation.exists_parts` — interpolation puts a text together from its parts
* `Interpolation.escapeUnlessEscaped_fill` — text whose values are escaped is escaped again as a
  whole or not at all, and its values stay as they are
-/

namespace Stencil.Interpolation

open Markup Text

/-- A piece of a text after evaluation: static text, or what a value is displayed as. They are told
apart since what shows a value may be escaped, and static text is not. -/
inductive Part where
  | static (text : List Char)
  | value (text : List Char)

/-- The text of a part, from that of static text and that of a value. -/
def Part.chars (f g : List Char → List Char) : Part → List Char
  | .static text => f text
  | .value text => g text

/-- Text put together from its parts. -/
def fill (f g : List Char → List Char) (parts : List Part) : List Char :=
  parts.flatMap (Part.chars f g)

/-- What a piece of a text is evaluated to in a scope. -/
inductive IsPart (functions : FunctionTable) (scope : Scope) : Piece → Part → Prop where
  | static (text : List Char) : IsPart functions scope (.static text) (.static text)
  | value {source : List Char} {v : Value} :
      (scope.evalPipe (String.ofList source)).value functions = .ok v →
      IsPart functions scope (.code source) (.value v.display.toList)

/-- The pieces of a text with the values of its expressions. -/
def Parts (functions : FunctionTable) (scope : Scope) (s : String) (parts : List Part) : Prop :=
  List.Forall₂ (IsPart functions scope) (split s) parts

/-- How the text of a value is written. -/
def valueChars (escaped : Bool) (text : List Char) : List Char :=
  if escaped then escapeChars text else text

variable {functions : FunctionTable} {scope : Scope} {escaped : Bool}

/-! ### What interpolation gives -/

theorem exists_parts_of_evalPieces {pieces : List Piece} {text : List Char}
    (h : (evalPieces scope escaped pieces).value functions = .ok text) :
    ∃ parts, List.Forall₂ (IsPart functions scope) pieces parts ∧
      text = fill id (valueChars escaped) parts := by
  induction pieces generalizing text with
  | nil =>
      obtain rfl : [] = text := Except.ok.inj h
      exact ⟨[], .nil, rfl⟩
  | cons piece pieces ih =>
      cases piece with
      | static before =>
          obtain ⟨rest, hrest, h⟩ := Evaluation.exists_of_value_bind functions h
          obtain rfl : before ++ rest = text := Except.ok.inj h
          obtain ⟨parts, hparts, rfl⟩ := ih hrest
          exact ⟨.static before :: parts, .cons (.static before) hparts, rfl⟩
      | code source =>
          obtain ⟨v, hv, h⟩ := Evaluation.exists_of_value_bind functions h
          obtain ⟨rest, hrest, h⟩ := Evaluation.exists_of_value_bind functions h
          obtain rfl : valueText escaped v ++ rest = text := Except.ok.inj h
          obtain ⟨parts, hparts, rfl⟩ := ih hrest
          exact ⟨.value v.display.toList :: parts, .cons (.value hv) hparts, rfl⟩

/-- Interpolation puts a text together from its parts: the static ones as they stand, and the values
of the others, escaped or not. The order is that of the source, and the first part that fails is the
fault of the whole. -/
theorem exists_parts {s out : String}
    (h : (interpolate scope s escaped).value functions = .ok out) :
    ∃ parts, Parts functions scope s parts ∧ out.toList = fill id (valueChars escaped) parts := by
  obtain ⟨text, htext, h⟩ := Evaluation.exists_of_value_bind functions h
  obtain rfl : String.ofList text = out := Except.ok.inj h
  rw [String.toList_ofList]
  exact exists_parts_of_evalPieces htext

/-- A text without an opening pair of braces is one static piece. -/
theorem split_of_not_isIn {s : String} (h : isIn s = false) : split s = [.static s.toList] := by
  have hnone : splitOnce? opening s.toList = none := by
    simpa [isIn, hasInfix] using h
  unfold split
  cases s.toList.length with
  | zero => rfl
  | succ bound => rw [splitUpTo, hnone]

theorem parts_of_not_isIn {s : String} (h : isIn s = false) :
    Parts functions scope s [.static s.toList] := by
  rw [Parts, split_of_not_isIn h]
  exact .cons (.static _) .nil

/-! ### Escaping once more -/

/-- Text without the marks of a reference holds no value with something to escape, so that escaping
all of it leaves the values as they are. -/
theorem escapeChars_fill {parts : List Part}
    (h : looksEscapedChars (fill id escapeChars parts) = false) :
    escapeChars (fill id escapeChars parts) = fill escapeChars escapeChars parts := by
  rw [fill, escapeChars, List.flatMap_assoc]
  refine List.flatMap_congr fun part hpart => ?_
  cases part with
  | static text => rfl
  | value text =>
      have hunmarked : looksEscapedChars (escapeChars text) = false := by
        have hin : ∀ {c}, c ∈ escapeChars text → c ∈ fill id escapeChars parts :=
          fun hc => List.mem_flatMap.2 ⟨.value text, hpart, hc⟩
        rw [Bool.eq_false_iff, Ne, looksEscapedChars_iff]
        rintro ⟨hamp, hsemicolon⟩
        have hmarks := looksEscapedChars_iff.2 ⟨hin hamp, hin hsemicolon⟩
        exact absurd (h.symm.trans hmarks) (by decide)
      -- Nothing was escaped the first time, so the second time finds the same text.
      have hkept := escapeChars_of_not_looksEscaped hunmarked
      exact congrArg escapeChars hkept

/-- Text whose values are escaped is escaped again as a whole or not at all; either way its values
stay as they are. -/
theorem escapeUnlessEscaped_fill (parts : List Part) :
    ∃ f, (f = id ∨ f = escapeChars) ∧
      escapeUnlessEscaped (fill id escapeChars parts) = fill f escapeChars parts := by
  cases h : looksEscapedChars (fill id escapeChars parts) with
  | true => exact ⟨id, .inl rfl, by rw [escapeUnlessEscaped, if_pos h]⟩
  | false =>
      refine ⟨escapeChars, .inr rfl, ?_⟩
      rw [escapeUnlessEscaped, h]
      exact escapeChars_fill h

end Stencil.Interpolation
