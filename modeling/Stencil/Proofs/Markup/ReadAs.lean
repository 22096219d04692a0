import Stencil.Proofs.Markup.Escape
import Stencil.Proofs.Markup.StartTag
import Stencil.Proofs.Text

/-!
# Trees as they are read

Which trees may be read where others were printed, and that they are printed alike.

## Main definitions

* `Tree.ReadAs`, `Tree.AllReadAs` — a tree, or a list of trees, that is read where another one was
  printed

## Main results

* `printForest_of_allReadAs` — what is read is printed as what it was read from

## Design notes

Text among lines is read with the white space that the printer puts around it.  Text among nodes
without any added white space, and raw text, is read as it was printed.
-/

namespace Stencil.Markup

open Text

/-- A text is read as it was printed, exactly or up to the blanks around it. -/
def TextReadAs (exact raw : Bool) (s read : String) : Prop :=
  if exact || raw then read.toList = printText raw s.toList
  else trim read.toList = trim (printText raw s.toList)

mutual

/-- A tree is read where another one was printed: with its shape, its tags and the attributes that
are shown, the values and texts escaped.  Texts that are not `exact` or `raw` may have blanks around
them. -/
inductive Tree.ReadAs : (exact raw : Bool) → Tree → Tree → Prop where
  | text {exact raw : Bool} {s read : String} :
      TextReadAs exact raw s read → Tree.ReadAs exact raw (.text s) (.text read)
  | element {exact raw : Bool} {tag : String} {attributes : List (String × String)}
      {children read : List Tree} :
      Tree.AllReadAs (exact || isPreformatted tag) (raw || isRawText tag) children read →
      Tree.ReadAs exact raw (.element tag attributes none children)
        (.element tag (shownAttributes attributes) none read)

/-- Trees are read where others were printed, each where its own. `exact` tells that no white space
was added around them, and `raw` that they stand in raw text. -/
inductive Tree.AllReadAs : (exact raw : Bool) → List Tree → List Tree → Prop where
  | nil {exact raw : Bool} : Tree.AllReadAs exact raw [] []
  | cons {exact raw : Bool} {t read : Tree} {ts reads : List Tree} :
      Tree.ReadAs exact raw t read → Tree.AllReadAs exact raw ts reads →
      Tree.AllReadAs exact raw (t :: ts) (read :: reads)

end

/-! ### Texts -/

theorem printText_self (raw : Bool) (cs : List Char) :
    printText raw (printText raw cs) = printText raw cs := by
  cases raw with
  | true => rfl
  | false => exact escapeUnlessEscaped_self cs

theorem printText_trim (raw : Bool) (cs : List Char) :
    printText raw (trim cs) = trim (printText raw cs) := by
  cases raw with
  | true => rfl
  | false => exact escapeUnlessEscaped_trim cs

theorem printText_eq_nil_iff {raw : Bool} {cs : List Char} : printText raw cs = [] ↔ cs = [] := by
  cases raw with
  | true => exact Iff.rfl
  | false => exact escapeUnlessEscaped_eq_nil_iff

namespace TextReadAs

variable {exact raw : Bool} {s read : String}

theorem trim (h : TextReadAs exact raw s read) :
    Text.trim read.toList = printText raw (Text.trim s.toList) := by
  rw [printText_trim]
  unfold TextReadAs at h
  split at h
  · rw [h]
  · exact h

theorem isBlankText (h : TextReadAs exact raw s read) :
    isBlankText read.toList = isBlankText s.toList := by
  rw [Bool.eq_iff_iff, isBlankText_iff_trim, isBlankText_iff_trim, h.trim, printText_eq_nil_iff]

/-- Printed with white space around it, a text looks as it did. -/
theorem printText_trim (h : TextReadAs exact raw s read) :
    printText raw (Text.trim read.toList) = printText raw (Text.trim s.toList) := by
  rw [h.trim, printText_self]

/-- Printed without added white space, an exact text looks as it did. -/
theorem printText_exact (h : TextReadAs exact raw s read) (hexact : (exact || raw) = true) :
    printText raw read.toList = printText raw s.toList := by
  rw [TextReadAs, if_pos hexact] at h
  rw [h, printText_self]

end TextReadAs

/-! ### Start tags -/

theorem shownAttributes_shownAttributes (attributes : List (String × String)) :
    shownAttributes (shownAttributes attributes) = shownAttributes attributes := by
  induction attributes with
  | nil => rfl
  | cons a attributes ih =>
      cases ha : isDirectiveAttribute a.1 with
      | true =>
          have hhidden : shownAttributes (a :: attributes) = shownAttributes attributes := by
            simp [shownAttributes, ha]
          rw [hhidden, ih]
      | false =>
          have hshown : ∀ value others, shownAttributes ((a.1, value) :: others) =
              (a.1, String.ofList (escapeUnlessEscaped value.toList)) ::
                shownAttributes others := by
            intro value others
            simp [shownAttributes, ha]
          rw [hshown a.2 attributes, hshown, ih, String.toList_ofList, escapeUnlessEscaped_self]

theorem openTag_shownAttributes (tag : String) (attributes : List (String × String)) :
    openTag tag (shownAttributes attributes) = openTag tag attributes := by
  rw [openTag_eq, openTag_eq, shownAttributes_shownAttributes]

/-! ### Printing what is read -/

namespace Tree

variable {exact raw : Bool}

theorem ReadAs.isVisible {t read : Tree} (h : t.ReadAs exact raw read) :
    isVisible read = isVisible t := by
  cases h with
  | text h => exact congrArg (!·) h.isBlankText
  | element _ => rfl

theorem AllReadAs.concat {t read : Tree} {ts reads : List Tree} (hts : AllReadAs exact raw ts reads)
    (ht : t.ReadAs exact raw read) : AllReadAs exact raw (ts ++ [t]) (reads ++ [read]) := by
  induction ts generalizing reads with
  | nil =>
      cases hts
      exact .cons ht .nil
  | cons first ts ih =>
      cases hts with
      | cons hfirst hts => exact .cons hfirst (ih hts)

/-- Trees that take part in the layout are read where such were printed. -/
theorem AllReadAs.filter_isVisible {ts reads : List Tree} (h : AllReadAs exact raw ts reads) :
    AllReadAs exact raw (ts.filter Markup.isVisible) (reads.filter Markup.isVisible) := by
  induction ts generalizing reads with
  | nil =>
      cases h
      exact .nil
  | cons t ts ih =>
      cases h with
      | cons ht hts =>
          rw [List.filter_cons, List.filter_cons, ht.isVisible]
          split
          · exact .cons ht (ih hts)
          · exact ih hts

end Tree

open Stencil.Markup.Tree

/-- What is read is laid out as what it was read from. A layout depends on which children show and
on what their texts are printed as, which reading keeps. -/
theorem layoutOf_of_allReadAs {tag : String} {exact raw : Bool} {children read : List Tree}
    (h : AllReadAs (exact || isPreformatted tag) raw children read) :
    layoutOf tag raw read = layoutOf tag raw children := by
  have hvisible := h.filter_isVisible
  unfold layoutOf
  generalize children.filter isVisible = visible at hvisible ⊢
  generalize read.filter isVisible = visibleRead at hvisible ⊢
  cases hvisible with
  | nil => rfl
  | cons hfirst hothers =>
      cases hothers with
      | nil =>
          cases hfirst with
          | text htext =>
              dsimp only
              split
              · -- Text that is printed verbatim was read exactly.
                rename_i hverbatim
                have hexact : ((exact || isPreformatted tag) || raw) = true := by
                  rw [Bool.or_eq_true] at hverbatim ⊢
                  rcases hverbatim with hraw | hpre
                  · exact .inr hraw
                  · rw [hpre, Bool.or_true]
                    exact .inl rfl
                rw [htext.printText_exact hexact]
              · rw [htext.printText_trim]
          | element _ => rfl
      | cons hsecond _ => cases hfirst <;> rfl

mutual

theorem inlined_of_readAs (raw : Bool) :
    (t : Tree) → {read : Tree} → t.ReadAs true raw read → inlined raw read = inlined raw t
  | .text s, _, h => by
      cases h with
      | text h => exact h.printText_exact rfl
  | .raw s, _, h => nomatch h
  | .element tag attributes payload children, _, h => by
      cases h with
      | element h =>
          have hchildren := inlinedAll_of_allReadAs (raw || isRawText tag) children h
          rw [inlined, inlined, openTag_shownAttributes, hchildren]

theorem inlinedAll_of_allReadAs (raw : Bool) :
    (ts : List Tree) → {reads : List Tree} → AllReadAs true raw ts reads →
      inlinedAll raw reads = inlinedAll raw ts
  | [], _, h => by
      cases h
      rfl
  | t :: ts, _, h => by
      cases h with
      | cons ht hts =>
          rw [inlinedAll, inlinedAll, inlined_of_readAs raw t ht,
            inlinedAll_of_allReadAs raw ts hts]

end

mutual

theorem block_of_readAs (depth : Nat) (raw : Bool) :
    (t : Tree) → {exact : Bool} → {read : Tree} → t.ReadAs exact raw read →
      block depth raw read = block depth raw t
  | .text s, _, _, h => by
      cases h with
      | text h => rw [block, block, h.isBlankText, h.printText_trim]
  | .raw s, _, _, h => nomatch h
  | .element tag attributes payload children, exact, _, h => by
      cases h with
      | element h =>
          have hblocks := blocks_of_allReadAs (depth + 1) (raw || isRawText tag) children h
          rw [block, block, openTag_shownAttributes, layoutOf_of_allReadAs h]
          rcases hlayout : layoutOf tag (raw || isRawText tag) children with content | _ | _
          · rfl
          · -- Only preformatted content is laid out without added white space.
            have hpre : isPreformatted tag = true := by
              unfold layoutOf at hlayout
              split at hlayout
              · exact nomatch hlayout
              · exact nomatch hlayout
              · exact nomatch hlayout
              · split at hlayout
                · assumption
                · exact nomatch hlayout
            rw [hpre, Bool.or_true] at h
            rw [inlinedAll_of_allReadAs (raw || isRawText tag) children h]
          · rw [hblocks]

theorem blocks_of_allReadAs (depth : Nat) (raw : Bool) :
    (ts : List Tree) → {exact : Bool} → {reads : List Tree} → AllReadAs exact raw ts reads →
      blocks depth raw reads = blocks depth raw ts
  | [], _, _, h => by
      cases h
      rfl
  | t :: ts, _, _, h => by
      cases h with
      | cons ht hts =>
          rw [blocks, blocks, block_of_readAs depth raw t ht, blocks_of_allReadAs depth raw ts hts]

end

/-- What is read is printed as what it was read from. Reading changes texts by outer white space
alone where the printer puts some, and the printer trims them there. -/
theorem printForest_of_allReadAs {forest read : List Tree} (h : AllReadAs false false forest read) :
    printForest read = printForest forest :=
  congrArg String.ofList (blocks_of_allReadAs 0 false forest h)

end Stencil.Markup
