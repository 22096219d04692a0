import Stencil.Markup.Printer

/-!
# Elements without printed children

An element with a payload, or without children, is written by two printers: among lines, and inline
where white space counts.

## Main results

* `block_payload`, `inlined_payload`, `block_nil`, `inlined_nil` — what each of the two writes
* `block_eq_inlined_iff` — they write the same, but for a payload of a template or of an element
  without an end tag

## Design notes

An inlined payload has the tags of its element around it, whatever that is; among lines a template
stands for its payload alone, and every other payload has an end tag after it.
-/

namespace Stencil.Markup

/-- The end tag of an element, nothing if it has none. -/
def endOf (tag : String) : List Char := if hasClosingTag tag then closeTag tag else []

section Printers

variable (depth : Nat) (raw : Bool) (tag : String) (attributes : List (String × String))
variable (p : Payload) (children : List Tree)

/-- With a payload, an element among lines has a closing tag whatever it is, and a template stands
for the payload alone. -/
theorem block_payload :
    block depth raw (.element tag attributes (some p) children) = indent depth ++
      (if tag = "template" then p.content.toList
        else openTag tag attributes ++ p.content.toList ++ closeTag tag) ++ ['\n'] := by
  rw [block, payloadBlock]
  simp

/-- Inline, an element with a payload has a closing tag only if its kind has one, and a template has
its tags. -/
theorem inlined_payload :
    inlined raw (.element tag attributes (some p) children) =
      openTag tag attributes ++ p.content.toList ++ endOf tag := by
  rw [inlined]
  rfl

/-- An empty element among lines is its start tag, and a closing tag if its kind has one. There is
nothing to lay out between them, so both are on one line. -/
theorem block_nil :
    block depth raw (.element tag attributes none []) =
      indent depth ++ (openTag tag attributes ++ endOf tag) ++ ['\n'] := by
  rw [block, endOf, ← List.append_assoc]
  rfl

/-- Inline it is the same, but for the lines. -/
theorem inlined_nil :
    inlined raw (.element tag attributes none []) = openTag tag attributes ++ endOf tag := by
  rw [inlined, inlinedAll, List.append_nil]
  rfl

end Printers

theorem openTag_ne_nil (tag : String) (attributes : List (String × String)) :
    openTag tag attributes ≠ [] := by
  simp [openTag]

theorem closeTag_ne_nil (tag : String) : closeTag tag ≠ [] := by
  simp [closeTag]

theorem endOf_of_hasClosingTag {tag : String} (h : hasClosingTag tag = true) :
    endOf tag = closeTag tag := if_pos h

theorem endOf_of_not_hasClosingTag {tag : String} (h : hasClosingTag tag = false) :
    endOf tag = [] := by
  rw [endOf, h]
  rfl

/-- Elements that have a payload or no children are written the same among lines and inline,
wherever they stand, but for a payload of a template or of an element without an end tag.  Such a
template stands for its payload alone among lines, but has its tags around it inline; such an
element ends with its payload inline, but has an end tag among lines.  It has none in either if it
is empty. -/
theorem block_eq_inlined_iff {payload : Option Payload} {children : List Tree}
    (h : payload ≠ none ∨ children = []) (depth : Nat) (raw raw' : Bool) (tag : String)
    (attributes : List (String × String)) :
    (block depth raw (.element tag attributes payload children) =
        indent depth ++ inlined raw' (.element tag attributes payload children) ++ ['\n'] ↔
      payload = none ∨ (tag ≠ "template" ∧ hasClosingTag tag = true)) ∧
    (∀ p, payload = some p → tag = "template" →
      block depth raw (.element tag attributes payload children) =
          indent depth ++ p.content.toList ++ ['\n'] ∧
        inlined raw' (.element tag attributes payload children) =
          openTag tag attributes ++ p.content.toList ++ closeTag tag) ∧
    (∀ p, payload = some p → hasClosingTag tag = false →
      block depth raw (.element tag attributes payload children) =
          indent depth ++ (openTag tag attributes ++ p.content.toList ++ closeTag tag) ++ ['\n'] ∧
        inlined raw' (.element tag attributes payload children) =
          openTag tag attributes ++ p.content.toList) ∧
    (payload = none → hasClosingTag tag = false →
      block depth raw (.element tag attributes payload children) =
          indent depth ++ openTag tag attributes ++ ['\n'] ∧
        inlined raw' (.element tag attributes payload children) = openTag tag attributes) := by
  have htemplate : hasClosingTag "template" = true := by decide
  rcases payload with _ | p
  -- An empty element: both layouts end it in the same way.
  · obtain rfl := h.resolve_left (not_not_intro rfl)
    rw [block_nil, inlined_nil]
    refine ⟨⟨fun _ => .inl rfl, fun _ => rfl⟩, ?_, ?_, fun _ hclosing => ?_⟩
    · rintro p ⟨⟩
    · rintro p ⟨⟩
    · rw [endOf_of_not_hasClosingTag hclosing, List.append_nil]
      exact ⟨rfl, rfl⟩
  -- A payload: what differs is the closing tag, and the tags of a template.
  · rw [block_payload, inlined_payload]
    refine ⟨?_, ?_, ?_, fun hp => absurd hp (Option.some_ne_none p)⟩
    · rw [List.append_left_inj, List.append_right_inj]
      by_cases htag : tag = "template"
      · -- The tags around the payload are more than the payload.
        rw [if_pos htag]
        refine ⟨fun heq => ?_, fun hcond => ?_⟩
        · have hlength := congrArg List.length heq
          rw [List.length_append, List.length_append] at hlength
          have hopen := List.length_pos_iff.2 (openTag_ne_nil tag attributes)
          omega
        · exact absurd htag (hcond.resolve_left (Option.some_ne_none p)).1
      · rw [if_neg htag, List.append_right_inj]
        cases hclosing : hasClosingTag tag with
        | true => simp [endOf_of_hasClosingTag hclosing, htag]
        | false => simp [endOf_of_not_hasClosingTag hclosing, closeTag_ne_nil]
    · rintro _ ⟨⟩ rfl
      rw [if_pos rfl, endOf_of_hasClosingTag htemplate]
      exact ⟨rfl, rfl⟩
    · rintro _ ⟨⟩ hclosing
      have htag : tag ≠ "template" := by
        rintro rfl
        exact Bool.noConfusion (hclosing.symm.trans htemplate)
      rw [if_neg htag, endOf_of_not_hasClosingTag hclosing, List.append_nil]
      exact ⟨rfl, rfl⟩

/-- An empty element without an end tag, whatever the case of its tag; a payload in place of
children in an element with an end tag, and in one without. -/
theorem block_eq_inlined_iff_image :
    (((none : Option Payload) ≠ none ∨ ([] : List Tree) = []) ∧
      block 1 false (.element "IMG" [("alt", "<")] none []) =
        indent 1 ++ inlined true (.element "IMG" [("alt", "<")] none []) ++ ['\n'] ∧
      inlined true (.element "IMG" [("alt", "<")] none []) = openTag "IMG" [("alt", "<")]) ∧
    ((some (Payload.html "<i>x</i>") ≠ none ∨ [Tree.text "a"] = []) ∧
      block 2 false (.element "p" [] (some (.html "<i>x</i>")) [.text "a"]) =
        indent 2 ++ inlined true (.element "p" [] (some (.html "<i>x</i>")) [.text "a"]) ++ ['\n'] ∧
      block 0 false (.element "br" [] (some (.html "<i>x</i>")) [.text "a"]) =
        indent 0 ++ (openTag "br" [] ++ "<i>x</i>".toList ++ closeTag "br") ++ ['\n'] ∧
      inlined true (.element "br" [] (some (.html "<i>x</i>")) [.text "a"]) =
        openTag "br" [] ++ "<i>x</i>".toList) := by
  have h : (none : Option Payload) ≠ none ∨ ([] : List Tree) = [] := .inr rfl
  have hp : some (Payload.html "<i>x</i>") ≠ none ∨ [Tree.text "a"] = [] :=
    .inl (Option.some_ne_none _)
  obtain ⟨hsame, -, -, hempty⟩ := block_eq_inlined_iff h 1 false true "IMG" [("alt", "<")]
  obtain ⟨hpayload, -, -, -⟩ := block_eq_inlined_iff hp 2 false true "p" []
  obtain ⟨-, -, hvoid, -⟩ := block_eq_inlined_iff hp 0 false true "br" []
  exact ⟨⟨h, hsame.2 (.inl rfl), (hempty rfl (by decide)).2⟩,
    hp, hpayload.2 (.inr ⟨by decide, by decide⟩), hvoid (.html "<i>x</i>") rfl (by decide)⟩

/-- Neither a template nor an element without an end tag is written in one way. -/
theorem not_block_eq_inlined :
    block 0 false (.element "template" [] (some (.html "x")) []) ≠
        indent 0 ++ inlined false (.element "template" [] (some (.html "x")) []) ++ ['\n'] ∧
      block 0 false (.element "br" [] (some (.html "x")) []) ≠
        indent 0 ++ inlined false (.element "br" [] (some (.html "x")) []) ++ ['\n'] := by
  decide

end Stencil.Markup
