import Mathlib.Data.List.Forall2
import Stencil.Proofs.Markup.StartTag
import Stencil.Markup.Printer

/-!
# What is shown of a tree

## Main definitions

* `Tree.shown` — a tree without the attributes that are not printed

## Main results

* `printForest_eq_of_shown` — trees are printed alike if they are shown alike
* `printForest_append` — two documents one after the other
-/

namespace Stencil.Markup

namespace Tree

mutual

/-- A tree without the attributes that are not printed. -/
def shown : Tree → Tree
  | .text s => .text s
  | .raw s => .raw s
  | .element tag attributes payload children =>
    .element tag (attributes.filter fun a => !isDirectiveAttribute a.1) payload (shownAll children)

def shownAll : List Tree → List Tree
  | [] => []
  | t :: rest => shown t :: shownAll rest

end

theorem shownAll_eq {ts ts' : List Tree}
    (h : List.Forall₂ (fun t t' => shown t = shown t') ts ts') : shownAll ts = shownAll ts' := by
  induction h with
  | nil => rfl
  | cons hfirst _ ih => rw [shownAll, shownAll, hfirst, ih]

/-- The same attributes are shown of both trees, and the same children. -/
theorem shown_element {tag : String} {attributes attributes' : List (String × String)}
    {payload : Option Payload} {children children' : List Tree}
    (hattributes : attributes.filter (fun a => !isDirectiveAttribute a.1) =
      attributes'.filter fun a => !isDirectiveAttribute a.1)
    (hchildren : List.Forall₂ (fun t t' => shown t = shown t') children children') :
    shown (.element tag attributes payload children) =
      shown (.element tag attributes' payload children') := by
  rw [shown, shown, hattributes, shownAll_eq hchildren]

end Tree

open Stencil.Markup.Tree

theorem openTag_shown (tag : String) (attributes : List (String × String)) :
    openTag tag (attributes.filter fun a => !isDirectiveAttribute a.1) =
      openTag tag attributes := by
  rw [openTag_eq, openTag_eq, shownAttributes, List.filter_filter]
  simp [shownAttributes]

theorem filter_isVisible_shown (ts : List Tree) :
    (shownAll ts).filter isVisible = shownAll (ts.filter isVisible) := by
  induction ts with
  | nil => rfl
  | cons t rest ih =>
      have hvisible : isVisible t.shown = isVisible t := by cases t <;> rfl
      rw [shownAll, List.filter_cons, List.filter_cons, hvisible, ih]
      split
      · rw [shownAll]
      · rfl

/-- The layout of an element does not depend on the attributes in it. -/
theorem layoutOf_shown (tag : String) (raw : Bool) (children : List Tree) :
    layoutOf tag raw (shownAll children) = layoutOf tag raw children := by
  unfold layoutOf
  rw [filter_isVisible_shown]
  rcases children.filter isVisible with _ | ⟨t, _ | ⟨other, rest⟩⟩
  · rfl
  · cases t <;> rfl
  · cases t <;> rfl

mutual

theorem inlined_shown (raw : Bool) : (t : Tree) → inlined raw t.shown = inlined raw t
  | .text s => rfl
  | .raw s => rfl
  | .element tag attributes (some payload) children => by
      simp only [shown, inlined, openTag_shown]
  | .element tag attributes none children => by
      simp only [shown, inlined, openTag_shown, inlinedAll_shown]

theorem inlinedAll_shown (raw : Bool) :
    (ts : List Tree) → inlinedAll raw (shownAll ts) = inlinedAll raw ts
  | [] => rfl
  | t :: rest => by rw [shownAll, inlinedAll, inlinedAll, inlined_shown, inlinedAll_shown]

end

mutual

theorem block_shown (depth : Nat) (raw : Bool) :
    (t : Tree) → block depth raw t.shown = block depth raw t
  | .text s => rfl
  | .raw s => rfl
  | .element tag attributes (some payload) children => by
      rw [shown, block, block, payloadBlock, payloadBlock, openTag_shown]
  | .element tag attributes none children => by
      rw [shown, block, block, openTag_shown, layoutOf_shown, inlinedAll_shown, blocks_shown]

theorem blocks_shown (depth : Nat) (raw : Bool) :
    (ts : List Tree) → blocks depth raw (shownAll ts) = blocks depth raw ts
  | [] => rfl
  | t :: rest => by rw [shownAll, blocks, blocks, block_shown, blocks_shown]

end

/-- Trees are printed alike if they are shown alike. What is not shown are the attributes that only
steer the rendering. -/
theorem printForest_eq_of_shown {ts ts' : List Tree}
    (h : List.Forall₂ (fun t t' => shown t = shown t') ts ts') :
    printForest ts = printForest ts' := by
  rw [printForest, printForest, ← blocks_shown, shownAll_eq h, blocks_shown]

theorem blocks_append (depth : Nat) (raw : Bool) (ts ts' : List Tree) :
    blocks depth raw (ts ++ ts') = blocks depth raw ts ++ blocks depth raw ts' := by
  induction ts with
  | nil => rfl
  | cons t rest ih => rw [List.cons_append, blocks, blocks, ih, List.append_assoc]

/-- Two documents one after the other are printed one after the other: no white space depends on
what stands beside a top-level node. -/
theorem printForest_append (ts ts' : List Tree) :
    printForest (ts ++ ts') = printForest ts ++ printForest ts' := by
  rw [printForest, blocks_append, String.ofList_append]
  rfl

end Stencil.Markup
