import Stencil.Markup.Printer

/-!
# The pieces of printed markup

## Main definitions

* `Segment` — a piece of a printed document: a start tag, a text of the tree, or anything else
* `blockSegments`, `inlinedSegments` — the pieces of a printed tree
* `Tree.Made` — trees with given properties of their texts and start tags, in which raw text holds
  nothing but one text
* `Printed` — how the printer may show a text

## Main results

* `flatMap_segments` — the pieces of a document are all of it
* `made_segments` — what the pieces of a document of such trees are like
-/

namespace Stencil.Markup

open Text

/-- A piece of a printed document. The text of a piece says where it comes from, so that a page can
be searched for what a value became. -/
inductive Segment where
  | markup (cs : List Char)
  | startTag (tag : String) (attributes : List (String × String))
  /-- A text of the tree with what is printed for it; `raw` tells whether it stands in raw text, and
  `inlined` whether it is among nodes without any added white space. -/
  | text (raw inlined : Bool) (s : String) (printed : List Char)
  deriving DecidableEq

/-- What is printed. -/
def Segment.chars : Segment → List Char
  | .markup cs => cs
  | .startTag tag attributes => openTag tag attributes
  | .text _ _ _ printed => printed

mutual

/-- The pieces of a node without any added white space, as they stand where blanks would show. -/
def inlinedSegments (raw : Bool) : Tree → List Segment
  | .text s => [.text raw true s (printText raw s.toList)]
  | .raw s => [.markup s.toList]
  | .element tag attributes payload children =>
    let content :=
      match payload with
      | some p => [.markup p.content.toList]
      | none => inlinedAllSegments (raw || isRawText tag) children
    [.startTag tag attributes] ++ content ++
      [.markup (if hasClosingTag tag then closeTag tag else [])]

/-- The pieces of nodes one after the other. -/
def inlinedAllSegments (raw : Bool) : List Tree → List Segment
  | [] => []
  | t :: rest => inlinedSegments raw t ++ inlinedAllSegments raw rest

end

/-- The piece of a child that alone fills the line of its parent's tags, or that is left out. -/
def compactSegment (tag : String) (raw : Bool) : Tree → Segment
  | .text s =>
    .text raw false s (if isBlankText s.toList then []
      else printText raw (if raw || isPreformatted tag then s.toList else trim s.toList))
  | .raw s => .markup s.toList
  | .element .. => .markup []

mutual

/-- The pieces of a node on a line of its own, indented by its depth. Its content may be on that
line as well, or on lines further in. -/
def blockSegments (depth : Nat) (raw : Bool) : Tree → List Segment
  | .text s =>
    if isBlankText s.toList then [.text raw false s []]
    else [.markup (indent depth), .text raw false s (printText raw (trim s.toList)), .markup ['\n']]
  | .raw s => [.markup (indent depth ++ s.toList ++ ['\n'])]
  | .element tag attributes (some payload) _ =>
    let start := if tag == "template" then [] else [.startTag tag attributes]
    let ending := if tag == "template" then [] else closeTag tag
    [.markup (indent depth)] ++ start ++ [.markup (payload.content.toList ++ ending ++ ['\n'])]
  | .element tag attributes none children =>
    let inner := raw || isRawText tag
    let content :=
      match layoutOf tag inner children with
      | .compact _ => children.map (compactSegment tag inner)
      | .inlined => inlinedAllSegments inner children
      | .lines => [.markup ['\n']] ++ blocksSegments (depth + 1) inner children ++
          [.markup (indent depth)]
    [.markup (indent depth), .startTag tag attributes] ++
      (if hasClosingTag tag then content ++ [.markup (closeTag tag)] else []) ++ [.markup ['\n']]

/-- The pieces of nodes, each on lines of its own. -/
def blocksSegments (depth : Nat) (raw : Bool) : List Tree → List Segment
  | [] => []
  | t :: rest => blockSegments depth raw t ++ blocksSegments depth raw rest

end

/-! ### The pieces are all that is printed -/

mutual

theorem flatMap_inlinedSegments (raw : Bool) :
    (t : Tree) → (inlinedSegments raw t).flatMap Segment.chars = inlined raw t
  | .text s => by simp [inlinedSegments, inlined, Segment.chars]
  | .raw s => by simp [inlinedSegments, inlined, Segment.chars]
  | .element tag attributes (some p) children => by
      simp [inlinedSegments, inlined, Segment.chars]
  | .element tag attributes none children => by
      simp [inlinedSegments, inlined, Segment.chars,
        flatMap_inlinedAllSegments (raw || isRawText tag) children]

theorem flatMap_inlinedAllSegments (raw : Bool) :
    (ts : List Tree) → (inlinedAllSegments raw ts).flatMap Segment.chars = inlinedAll raw ts
  | [] => rfl
  | t :: rest => by
      rw [inlinedAllSegments, inlinedAll, List.flatMap_append, flatMap_inlinedSegments raw t,
        flatMap_inlinedAllSegments raw rest]

end

/-- What is left out of a layout on one line prints nothing. -/
theorem flatMap_filter_compactSegment (tag : String) (raw : Bool) (children : List Tree) :
    (children.map (compactSegment tag raw)).flatMap Segment.chars =
      ((children.filter isVisible).map (compactSegment tag raw)).flatMap Segment.chars := by
  induction children with
  | nil => rfl
  | cons t children ih =>
      rw [List.map_cons, List.flatMap_cons, ih, List.filter_cons]
      by_cases hv : isVisible t
      · rw [if_pos hv, List.map_cons, List.flatMap_cons]
      · rw [if_neg hv]
        cases t with
        | text s =>
            have hblank : isBlankText s.toList = true := by simpa [isVisible] using hv
            simp [compactSegment, Segment.chars, hblank]
        | raw s => exact absurd rfl hv
        | element _ _ _ _ => exact absurd rfl hv

theorem flatMap_compactSegment {tag : String} {raw : Bool} {children : List Tree}
    {content : List Char} (h : layoutOf tag raw children = .compact content) :
    (children.map (compactSegment tag raw)).flatMap Segment.chars = content := by
  rw [flatMap_filter_compactSegment]
  have hvisible : ∀ t ∈ children.filter isVisible, isVisible t = true :=
    fun t ht => (List.mem_filter.1 ht).2
  unfold layoutOf at h
  generalize children.filter isVisible = visible at h hvisible ⊢
  split at h
  · exact Layout.compact.inj h
  · rename_i s
    have hs : isBlankText s.toList = false := by
      simpa [isVisible] using hvisible (.text s) List.mem_cons_self
    simpa [compactSegment, Segment.chars, hs] using Layout.compact.inj h
  · simpa [compactSegment, Segment.chars] using Layout.compact.inj h
  · split at h <;> exact nomatch h

mutual

theorem flatMap_blockSegments (depth : Nat) (raw : Bool) :
    (t : Tree) → (blockSegments depth raw t).flatMap Segment.chars = block depth raw t
  | .text s => by
      unfold blockSegments block
      split
      · rfl
      · simp [Segment.chars]
  | .raw s => by simp [blockSegments, block, Segment.chars]
  | .element tag attributes (some payload) children => by
      unfold blockSegments block payloadBlock
      by_cases htag : tag == "template" <;> simp [htag, Segment.chars]
  | .element tag attributes none children => by
      unfold blockSegments block
      have hblocks := flatMap_blocksSegments (depth + 1) (raw || isRawText tag) children
      have hinlined := flatMap_inlinedAllSegments (raw || isRawText tag) children
      dsimp only
      rcases hl : layoutOf tag (raw || isRawText tag) children with content | _ | _
      · have hcompact := flatMap_compactSegment hl
        by_cases hclosing : hasClosingTag tag <;> simp [hclosing, Segment.chars, hcompact]
      · by_cases hclosing : hasClosingTag tag <;> simp [hclosing, Segment.chars, hinlined]
      · by_cases hclosing : hasClosingTag tag <;> simp [hclosing, Segment.chars, hblocks]

theorem flatMap_blocksSegments (depth : Nat) (raw : Bool) :
    (ts : List Tree) → (blocksSegments depth raw ts).flatMap Segment.chars = blocks depth raw ts
  | [] => rfl
  | t :: rest => by
      rw [blocksSegments, blocks, List.flatMap_append, flatMap_blockSegments depth raw t,
        flatMap_blocksSegments depth raw rest]

end

/-- The pieces of a document. -/
def segments (forest : List Tree) : List Segment := blocksSegments 0 false forest

/-- The pieces of a document are all of it, so that nothing stands in it but texts, start tags, end
tags and white space. -/
theorem flatMap_segments (forest : List Tree) :
    (segments forest).flatMap Segment.chars = (printForest forest).toList := by
  rw [printForest, String.toList_ofList]
  exact flatMap_blocksSegments 0 false forest

/-! ### What the pieces are like -/

/-- Trees with given properties of their texts and start tags, in which raw text holds nothing but
one text. -/
inductive Tree.Made (text : Bool → String → Prop)
    (start : String → List (String × String) → Prop) : Bool → Tree → Prop where
  | text {raw : Bool} {s : String} : text raw s → Made text start raw (.text s)
  | raw (s : String) : Made text start false (.raw s)
  | element {tag : String} {attributes : List (String × String)} {payload : Option Payload}
      {children : List Tree} : start tag attributes →
      (isRawText tag = true → children.length ≤ 1) →
      (∀ t ∈ children, Made text start (isRawText tag) t) →
      Made text start false (.element tag attributes payload children)

/-- How a text is printed: among nodes without added white space as it is; elsewhere not at all if
it is blank, and else as it is or, outside of raw text, trimmed. -/
inductive Printed : (raw inlined : Bool) → String → List Char → Prop where
  | inlined (raw : Bool) (s : String) : Printed raw true s (printText raw s.toList)
  | blank (raw : Bool) {s : String} : isBlankText s.toList = true → Printed raw false s []
  | kept (raw : Bool) {s : String} : isBlankText s.toList = false →
      Printed raw false s (printText raw s.toList)
  | trimmed {s : String} : isBlankText s.toList = false →
      Printed false false s (printText false (trim s.toList))

theorem printed_compactSegment (tag : String) (raw : Bool) (s : String) :
    Printed raw false s (if isBlankText s.toList then []
      else printText raw (if raw || isPreformatted tag then s.toList else trim s.toList)) := by
  split
  · rename_i hblank
    exact .blank raw hblank
  · rename_i hblank
    rw [Bool.not_eq_true] at hblank
    split
    · exact .kept raw hblank
    · rename_i hraw
      simp only [Bool.or_eq_true, not_or, Bool.not_eq_true] at hraw
      rw [hraw.1]
      exact .trimmed hblank

/-- Raw text is always laid out on the line of its tags. -/
theorem layoutOf_of_length_le {tag : String} {children : List Tree} (h : children.length ≤ 1)
    (htext : ∀ t ∈ children, ∃ s, t = .text s) :
    ∃ content, layoutOf tag true children = .compact content := by
  rcases children with _ | ⟨t, _ | ⟨u, rest⟩⟩
  · exact ⟨[], rfl⟩
  · obtain ⟨s, rfl⟩ := htext t List.mem_cons_self
    unfold layoutOf
    by_cases hv : isVisible (.text s)
    · rw [List.filter_cons, if_pos hv]
      exact ⟨_, rfl⟩
    · rw [List.filter_cons, if_neg hv]
      exact ⟨_, rfl⟩
  · simp at h

section Made

variable {text : Bool → String → Prop} {start : String → List (String × String) → Prop}

/-- What the pieces of such trees are like. -/
def Segment.Made (text : Bool → String → Prop) (start : String → List (String × String) → Prop) :
    Segment → Prop
  | .markup _ => True
  | .startTag tag attributes => start tag attributes
  | .text raw inlined s printed => text raw s ∧ Printed raw inlined s printed

theorem made_compactSegment {tag : String} {raw : Bool} {t : Tree} (h : t.Made text start raw) :
    (compactSegment tag raw t).Made text start := by
  cases h with
  | text htext => exact ⟨htext, printed_compactSegment tag raw _⟩
  | raw s => trivial
  | element _ _ _ => trivial

mutual

theorem made_inlinedSegments :
    (t : Tree) → ∀ {raw}, t.Made text start raw →
      ∀ segment ∈ inlinedSegments raw t, segment.Made text start
  | .text s, raw, .text htext => by
      simpa [inlinedSegments, Segment.Made] using ⟨htext, .inlined raw s⟩
  | .raw s, _, .raw _ => by simp [inlinedSegments, Segment.Made]
  | .element tag attributes (some p) children, _, .element hstart _ _ => by
      simpa [inlinedSegments, Segment.Made] using hstart
  | .element tag attributes none children, _, .element hstart _ hchildren => by
      have hall := made_inlinedAllSegments children hchildren
      simpa [inlinedSegments, Segment.Made, or_imp, forall_and] using ⟨hstart, hall⟩

theorem made_inlinedAllSegments :
    (ts : List Tree) → ∀ {raw}, (∀ t ∈ ts, t.Made text start raw) →
      ∀ segment ∈ inlinedAllSegments raw ts, segment.Made text start
  | [], _, _ => by simp [inlinedAllSegments]
  | t :: rest, _, h => by
      obtain ⟨ht, hrest⟩ := List.forall_mem_cons.1 h
      rw [inlinedAllSegments, List.forall_mem_append]
      exact ⟨made_inlinedSegments t ht, made_inlinedAllSegments rest hrest⟩

end

theorem made_elementSegments {tag : String} {attributes : List (String × String)}
    (hstart : start tag attributes) {content : List Segment}
    (hcontent : ∀ segment ∈ content, segment.Made text start) {closing : Bool}
    {before ending after : List Char} :
    ∀ segment ∈ [.markup before, .startTag tag attributes] ++
        (if closing then content ++ [.markup ending] else []) ++ [.markup after],
      segment.Made text start := by
  cases closing with
  | true => simpa [Segment.Made, or_imp, forall_and] using ⟨hstart, hcontent⟩
  | false => simpa [Segment.Made] using hstart

/-- An element with its children on lines of their own has no raw text. -/
theorem not_isRawText_of_lines {tag : String} {children : List Tree}
    (hl : layoutOf tag (isRawText tag) children = .lines)
    (hlength : isRawText tag = true → children.length ≤ 1)
    (hchildren : ∀ t ∈ children, t.Made text start (isRawText tag)) : isRawText tag = false := by
  cases hraw : isRawText tag with
  | false => rfl
  | true =>
      rw [hraw] at hl hchildren
      have htext : ∀ t ∈ children, ∃ s, t = .text s := by
        intro t ht
        cases hchildren t ht with
        | text _ => exact ⟨_, rfl⟩
      obtain ⟨content, hcompact⟩ := layoutOf_of_length_le (hlength hraw) htext
      exact nomatch hcompact.symm.trans hl

mutual

/-- Raw text stands on the line of its tags, so no text on a line of its own is raw. The recursion
is that of printing. -/
theorem made_blockSegments :
    (t : Tree) → ∀ {depth}, t.Made text start false →
      ∀ segment ∈ blockSegments depth false t, segment.Made text start
  | .text s, depth, .text htext => by
      unfold blockSegments
      split
      · rename_i hblank
        simpa [Segment.Made] using ⟨htext, Printed.blank false hblank⟩
      · rename_i hblank
        have hprinted : Printed false false s (printText false (trim s.toList)) :=
          .trimmed (Bool.not_eq_true _ ▸ hblank)
        simpa [Segment.Made] using ⟨htext, hprinted⟩
  | .raw s, _, .raw _ => by simp [blockSegments, Segment.Made]
  | .element tag attributes (some p) children, _, .element hstart _ _ => by
      unfold blockSegments
      by_cases htag : tag == "template" <;> simp [htag, Segment.Made, hstart]
  | .element tag attributes none children, depth, .element hstart hlength hchildren => by
      unfold blockSegments
      dsimp only
      rw [Bool.false_or]
      rcases hl : layoutOf tag (isRawText tag) children with content | _ | _
      · refine made_elementSegments hstart fun segment hmem => ?_
        obtain ⟨t, ht, rfl⟩ := List.mem_map.1 hmem
        exact made_compactSegment (hchildren t ht)
      · exact made_elementSegments hstart (made_inlinedAllSegments children hchildren)
      · -- Children on lines of their own are several, and raw text is one at most.
        have hraw : isRawText tag = false := not_isRawText_of_lines hl hlength hchildren
        rw [hraw] at hchildren ⊢
        refine made_elementSegments hstart ?_
        simpa [Segment.Made, or_imp, forall_and] using made_blocksSegments children hchildren

theorem made_blocksSegments :
    (ts : List Tree) → ∀ {depth}, (∀ t ∈ ts, t.Made text start false) →
      ∀ segment ∈ blocksSegments depth false ts, segment.Made text start
  | [], _, _ => by simp [blocksSegments]
  | t :: rest, _, h => by
      obtain ⟨ht, hrest⟩ := List.forall_mem_cons.1 h
      rw [blocksSegments, List.forall_mem_append]
      exact ⟨made_blockSegments t ht, made_blocksSegments rest hrest⟩

end

/-- What the pieces of a document of such trees are like: its texts and start tags are those of the
trees, wherever they are in them. -/
theorem made_segments {forest : List Tree} (h : ∀ t ∈ forest, t.Made text start false) :
    ∀ segment ∈ segments forest, segment.Made text start :=
  made_blocksSegments forest h

end Made

end Stencil.Markup
