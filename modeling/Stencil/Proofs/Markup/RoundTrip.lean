import Mathlib.Data.List.Chain
import Stencil.Proofs.Markup.ReadAs
import Stencil.Proofs.Markup.Reader

/-!
# Printed markup read again

Printed trees are read as trees of the same shape, which are printed the same.

## Main definitions

* `HasRead` — the siblings that a reader has behind it
* `ReadsAfter`, `ReadsElement`, `ReadsContent` — what a printed node, a printed element and the
  printed content of an element are read as

## Main results

* `exists_reads_siblings` — siblings are read one after the other
* `readsAfter_of_plain` — a plain tree is read in any layout
* `parseFragment_printForest` — a printed forest is read, and what is read is printed the same

## Design notes

A text is only read once the tag after it is reached.  So what a reader has behind it is either a
list of nodes, or a list of nodes and a text that is still pending.
-/

namespace Stencil.Markup

open Text Stencil.Markup.Tree

/-! ### White space of the layout -/

/-- White space that a layout puts between nodes; where texts are exact, it puts none. -/
structure IsLayout (exact : Bool) (cs : List Char) : Prop where
  blank : isBlankText cs = true
  none : exact = true → cs = []

namespace IsLayout

variable {exact : Bool} {cs ds : List Char}

/-- No white space is a layout, in either mode. -/
theorem nil : IsLayout exact [] := ⟨rfl, fun _ => rfl⟩

/-- White space after white space is a layout. -/
theorem append (hcs : IsLayout exact cs) (hds : IsLayout exact ds) :
    IsLayout exact (cs ++ ds) where
  blank := by
    rw [isBlankText, List.all_append, Bool.and_eq_true]
    exact ⟨hcs.blank, hds.blank⟩
  none := fun h => List.append_eq_nil_iff.2 ⟨hcs.none h, hds.none h⟩

/-- White space read backwards is a layout; the reader holds its pending text that way. -/
theorem reverse (hcs : IsLayout exact cs) : IsLayout exact cs.reverse where
  blank := List.all_reverse.trans hcs.blank
  none := fun h => List.reverse_eq_nil_iff.2 (hcs.none h)

/-- White space of a layout does not begin a tag. -/
theorem less_not_mem (hcs : IsLayout exact cs) : '<' ∉ cs :=
  fun hmem => absurd (List.all_eq_true.1 hcs.blank _ hmem) (by decide)

end IsLayout

/-- The end of a line is a layout where texts are not exact. -/
theorem isLayout_newline : IsLayout false ['\n'] := ⟨by decide, nofun⟩

/-- So is the indentation, at every depth. -/
theorem isLayout_indent (depth : Nat) : IsLayout false (indent depth) where
  blank := List.all_eq_true.2 fun c hc => by
    rw [List.eq_of_mem_replicate hc]
    decide
  none := nofun

/-- White space of the layout around a text is not what makes it exact. -/
theorem TextReadAs.layout {exact : Bool} {s : String} {text pre post : List Char}
    (h : TextReadAs exact false s (String.ofList text)) (hpre : IsLayout exact pre)
    (hpost : IsLayout exact post) :
    TextReadAs exact false s (String.ofList (pre ++ text ++ post)) := by
  cases exact with
  | true =>
      obtain rfl := hpre.none rfl
      obtain rfl := hpost.none rfl
      rw [List.nil_append, List.append_nil]
      exact h
  | false =>
      show Text.trim (String.ofList (pre ++ text ++ post)).toList = _
      rw [String.toList_ofList, trim_blanks hpre.blank text hpost.blank,
        ← String.toList_ofList (l := text)]
      exact h

/-! ### Siblings that are read -/

/-- The siblings that a reader has read since some building; the last of them may be pending. A text
is pending until something ends it, as more of it could follow. -/
inductive HasRead (exact : Bool) (b : Building) : List Tree → Reader → Prop where
  | nodes {ts reads : List Tree} {pending : List Char} :
      AllReadAs exact false ts reads → IsLayout exact pending →
      HasRead exact b ts ⟨b.addAll reads, pending⟩
  | text {ts reads : List Tree} {s : String} {pending : List Char} :
      AllReadAs exact false ts reads → isBlankText s.toList = false →
      TextReadAs exact false s (String.ofList pending.reverse) →
      HasRead exact b (ts ++ [.text s]) ⟨b.addAll reads, pending⟩

section Siblings

variable {exact : Bool} {b : Building} {ts : List Tree} {r : Reader}

/-- A reader that has just begun has read no siblings. -/
theorem hasRead_nil (exact : Bool) (b : Building) : HasRead exact b [] ⟨b, []⟩ := .nodes .nil .nil

/-- With the pending text taken in, the siblings are the nodes added since. -/
theorem HasRead.flush (h : HasRead exact b ts r) :
    ∃ reads, AllReadAs exact false ts reads ∧ r.flush = b.addAll reads := by
  cases h with
  | nodes hreads hpending => exact ⟨_, hreads, Reader.flush_of_blank hpending.blank⟩
  | @text ts reads s pending hreads hs htext =>
      -- What is pending for a text that is not blank is not blank either, so it becomes a node.
      have hpending : isBlankText pending = false := by
        have hreverse := htext.isBlankText.trans hs
        rw [String.toList_ofList] at hreverse
        rw [← hreverse]
        exact List.all_reverse.symm
      refine ⟨_, hreads.concat (.text htext), ?_⟩
      rw [Reader.flush_of_not_blank hpending, Building.addAll_concat]

/-- White space of the layout belongs to none of the siblings. -/
theorem HasRead.layout {cs : List Char} (h : HasRead exact b ts r) (hcs : IsLayout exact cs) :
    ∃ r', Reads r cs r' ∧ HasRead exact b ts r' := by
  obtain ⟨building, pending⟩ := r
  refine ⟨⟨building, cs.reverse ++ pending⟩, reads_text hcs.less_not_mem building pending, ?_⟩
  cases h with
  | nodes hreads hpending => exact .nodes hreads (hcs.reverse.append hpending)
  | text hreads hs htext =>
      refine .text hreads hs ?_
      rw [List.reverse_append, List.reverse_reverse]
      have hlayout := htext.layout .nil hcs
      rwa [List.nil_append] at hlayout

end Siblings

/-! ### Nodes after their siblings -/

/-- Printed after its siblings, a node is read after them. -/
def ReadsAfter (exact : Bool) (t : Tree) (cs : List Char) : Prop :=
  ∀ (b : Building) (before : List Tree) (r : Reader), HasRead exact b before r →
    Apart (before ++ [t]) → ∃ r', Reads r cs r' ∧ HasRead exact b (before ++ [t]) r'

/-- A printed element is read, whatever is pending. The start tag ends a text that is pending, which
is then read as a node of its own. -/
def ReadsElement (exact : Bool) (t : Tree) (cs : List Char) : Prop :=
  ∀ r : Reader, ∃ read, t.ReadAs exact false read ∧ Reads r cs ⟨r.flush.add read, []⟩

/-- The printed content of an element is read as its children. -/
def ReadsContent (exact : Bool) (children : List Tree) (cs : List Char) : Prop :=
  ∀ b : Building, ∃ r reads, Reads ⟨b, []⟩ cs r ∧ AllReadAs exact false children reads ∧
    r.flush = b.addAll reads

section Nodes

variable {exact : Bool} {t : Tree} {cs pre post : List Char}

/-- An element may be printed with white space on both sides: what stands before it ends the text
that is pending, and what stands after it is pending in turn. -/
theorem readsAfter_of_readsElement (h : ReadsElement exact t cs) (hpre : IsLayout exact pre)
    (hpost : IsLayout exact post) : ReadsAfter exact t (pre ++ cs ++ post) := by
  intro b before r hbefore _
  obtain ⟨r₁, hr₁, hread₁⟩ := hbefore.layout hpre
  obtain ⟨reads, hreads, hflush⟩ := hread₁.flush
  obtain ⟨read, ht, hr₂⟩ := h r₁
  have hread₂ : HasRead exact b (before ++ [t]) ⟨r₁.flush.add read, []⟩ := by
    rw [hflush, ← Building.addAll_concat]
    exact .nodes (hreads.concat ht) .nil
  obtain ⟨r₃, hr₃, hread₃⟩ := hread₂.layout hpost
  exact ⟨r₃, (hr₁.trans hr₂).trans hr₃, hread₃⟩

/-- An element may be printed without white space around it. -/
theorem ReadsElement.readsAfter (h : ReadsElement exact t cs) : ReadsAfter exact t cs := by
  have hafter := readsAfter_of_readsElement h .nil .nil
  rwa [List.nil_append, List.append_nil] at hafter

/-- A text is pending until the next tag, together with the white space on its sides. The text
before it must not be pending, which is why no two texts may be neighbours. -/
theorem readsAfter_text {s : String} (hs : isBlankText s.toList = false)
    (htext : TextReadAs exact false s (String.ofList cs)) (hless : '<' ∉ cs)
    (hpre : IsLayout exact pre) (hpost : IsLayout exact post) :
    ReadsAfter exact (.text s) (pre ++ cs ++ post) := by
  intro b before r hbefore hapart
  obtain ⟨r₁, hr₁, hread₁⟩ := hbefore.layout hpre
  cases hread₁ with
  | @nodes before reads pending hreads hpending =>
      have hr₂ := reads_text hless (b.addAll reads) pending
      have hread₂ : HasRead exact b (before ++ [.text s])
          ⟨b.addAll reads, cs.reverse ++ pending⟩ := by
        refine .text hreads hs ?_
        rw [List.reverse_append, List.reverse_reverse]
        have hlayout := htext.layout hpending.reverse .nil
        rwa [List.append_nil] at hlayout
      obtain ⟨r₃, hr₃, hread₃⟩ := hread₂.layout hpost
      exact ⟨r₃, (hr₁.trans hr₂).trans hr₃, hread₃⟩
  | text _ _ _ =>
      -- Two texts would stand side by side.
      rw [Apart, List.append_assoc] at hapart
      have hpair := hapart.right_of_append
      simp [Tree.isText] at hpair

/-- Siblings are read one after the other. The induction is on the siblings, with those read so far
left free; what is pending after each of them is white space of the layout, or a text that the next
tag ends. -/
theorem exists_reads_siblings {print : Tree → List Char} {ts : List Tree}
    (h : ∀ t ∈ ts, ReadsAfter exact t (print t)) {b : Building} {before : List Tree} {r : Reader}
    (hbefore : HasRead exact b before r) (hapart : Apart (before ++ ts)) :
    ∃ r', Reads r (ts.flatMap print) r' ∧ HasRead exact b (before ++ ts) r' := by
  induction ts generalizing before r with
  | nil =>
      refine ⟨r, .refl r, ?_⟩
      rw [List.append_nil]
      exact hbefore
  | cons t ts ih =>
      -- The node that is read moves over to those before the next one.
      rw [← List.singleton_append, ← List.append_assoc] at hapart ⊢
      obtain ⟨r₁, hr₁, hread₁⟩ := h t List.mem_cons_self b before r hbefore hapart.left_of_append
      obtain ⟨r₂, hr₂, hread₂⟩ := ih (fun t ht => h t (List.mem_cons_of_mem _ ht)) hread₁ hapart
      exact ⟨r₂, hr₁.trans hr₂, hread₂⟩

/-- An only child is the content of its element. -/
theorem readsContent_singleton (h : ReadsAfter exact t cs) : ReadsContent exact [t] cs := by
  intro b
  obtain ⟨r, hr, hread⟩ := h b [] _ (hasRead_nil exact b) (List.isChain_singleton t)
  obtain ⟨reads, hreads, hflush⟩ := hread.flush
  exact ⟨r, reads, hr, hreads, hflush⟩

/-- Siblings that are each read after the ones before are the content of their element. No two texts
stand side by side, for they would be read as one. -/
theorem readsContent_of_siblings {print : Tree → List Char} {ts : List Tree}
    (h : ∀ t ∈ ts, ReadsAfter exact t (print t)) (hapart : Apart ts) (hpre : IsLayout exact pre)
    (hpost : IsLayout exact post) :
    ReadsContent exact ts (pre ++ ts.flatMap print ++ post) := by
  intro b
  obtain ⟨r₁, hr₁, hread₁⟩ := (hasRead_nil exact b).layout hpre
  obtain ⟨r₂, hr₂, hread₂⟩ := exists_reads_siblings h hread₁ hapart
  obtain ⟨r₃, hr₃, hread₃⟩ := hread₂.layout hpost
  obtain ⟨reads, hreads, hflush⟩ := hread₃.flush
  exact ⟨r₃, reads, (hr₁.trans hr₂).trans hr₃, hreads, hflush⟩

end Nodes

/-! ### Elements -/

section Elements

variable {exact : Bool} {tag : String} {attributes : List (String × String)}

/-- An element is read if its content is. The content is read in whatever building the start tag
leaves. -/
theorem readsElement_of_readsContent {children : List Tree} {content : List Char}
    (htag : IsPlainTag tag) (hattributes : ∀ a ∈ attributes, IsPlainAttribute a)
    (hclosing : hasClosingTag tag = true) (hraw : isRawText tag = false)
    (hcontent : ReadsContent (exact || isPreformatted tag) children content) :
    ReadsElement exact (.element tag attributes none children)
      (openTag tag attributes ++ content ++ closeTag tag) := by
  intro r
  -- The children are added to the element while it is innermost, and the end tag finds it there.
  have hr₁ : Reads r (openTag tag attributes)
      ⟨r.flush.openElement tag (shownAttributes attributes), []⟩ :=
    reads_openTag htag hattributes hclosing hraw
  obtain ⟨r₂, reads, hr₂, hreads, hflush⟩ :=
    hcontent (r.flush.openElement tag (shownAttributes attributes))
  have hr₃ : Reads r₂ (closeTag tag) ⟨r₂.flush.closeTag tag, []⟩ := reads_closeTag htag
  rw [hflush, Building.closeTag_openElement] at hr₃
  refine ⟨.element tag (shownAttributes attributes) none reads, .element ?_,
    (hr₁.trans hr₂).trans hr₃⟩
  rw [hraw]
  exact hreads

/-- A void element is read from its start tag alone. -/
theorem readsElement_leaf (htag : IsPlainTag tag)
    (hattributes : ∀ a ∈ attributes, IsPlainAttribute a) (hclosing : hasClosingTag tag = false) :
    ReadsElement exact (.element tag attributes none []) (openTag tag attributes) := fun _ =>
  ⟨.element tag (shownAttributes attributes) none [], .element .nil,
    reads_leaf htag hattributes hclosing⟩

/-- An element with raw text has a closing tag. -/
theorem hasClosingTag_of_isRawText (h : isRawText tag = true) : hasClosingTag tag = true := by
  unfold isRawText at h
  unfold hasClosingTag
  generalize lowerTag tag = lower at h ⊢
  rcases List.mem_cons.1 (List.contains_iff_mem.1 h) with rfl | h
  · decide
  · obtain rfl := List.mem_singleton.1 h
    decide

/-- An element with raw text is read up to the first `</`, which its content must not have. -/
theorem readsElement_rawText {content : Option String} (htag : IsPlainTag tag)
    (hattributes : ∀ a ∈ attributes, IsPlainAttribute a) (hraw : isRawText tag = true)
    (hcontent : ∀ s ∈ content, isBlankText s.toList = false ∧ ¬ ['<', '/'] <:+: s.toList) :
    ReadsElement exact (.element tag attributes none (content.toList.map .text))
      (openTag tag attributes ++ (content.elim [] String.toList) ++ closeTag tag) := by
  intro r
  have hclosing := hasClosingTag_of_isRawText hraw
  rcases content with _ | s
  · refine ⟨.element tag (shownAttributes attributes) none [], .element .nil, ?_⟩
    exact reads_rawText htag hattributes hclosing hraw (by decide)
  · obtain ⟨hblank, hslash⟩ := hcontent s rfl
    have hchildren : Building.rawTextChildren s.toList = [.text s] := by
      rw [Building.rawTextChildren, hblank, String.ofList_toList]
      rfl
    refine ⟨.element tag (shownAttributes attributes) none [.text s],
      .element (.cons (.text ?_) .nil), ?_⟩
    · rw [hraw, TextReadAs, Bool.or_true, Bool.or_true]
      rfl
    · rw [← hchildren]
      exact reads_rawText htag hattributes hclosing hraw hslash

end Elements

/-! ### Layouts -/

/-- A printed text does not begin markup. -/
theorem less_not_mem_printText {s : String} (h : IsPlainText s) :
    '<' ∉ printText false s.toList := by
  show '<' ∉ escapeUnlessEscaped s.toList
  unfold escapeUnlessEscaped
  split
  · rename_i hmarks
    exact (h hmarks).1
  · exact not_mem_escapeChars (by decide) _

/-- A text printed without added white space is read as it is printed. -/
theorem readsAfter_inlinedText {s : String} (hs : isBlankText s.toList = false)
    (hplain : IsPlainText s) (exact : Bool) :
    ReadsAfter exact (.text s) (printText false s.toList) := by
  have htext : TextReadAs exact false s (String.ofList (printText false s.toList)) := by
    unfold TextReadAs
    rw [String.toList_ofList]
    split <;> rfl
  have hreads := readsAfter_text hs htext (less_not_mem_printText hplain) .nil .nil
  rwa [List.nil_append, List.append_nil] at hreads

/-- A text printed without the blanks around it is read up to these. -/
theorem readsAfter_trimmedText {s : String} {pre post : List Char}
    (hs : isBlankText s.toList = false) (hplain : IsPlainText s) (hpre : IsLayout false pre)
    (hpost : IsLayout false post) :
    ReadsAfter false (.text s) (pre ++ printText false (trim s.toList) ++ post) := by
  have htext : TextReadAs false false s (String.ofList (printText false (trim s.toList))) := by
    show trim _ = trim _
    rw [String.toList_ofList, printText_trim, trim_trim]
  have hless : '<' ∉ printText false (trim s.toList) := by
    rw [printText_trim, mem_trim_iff (by decide)]
    exact less_not_mem_printText hplain
  exact readsAfter_text hs htext hless hpre hpost

/-- Siblings in one line are printed one after the other. -/
theorem inlinedAll_eq (raw : Bool) (ts : List Tree) :
    inlinedAll raw ts = ts.flatMap (inlined raw) := by
  induction ts with
  | nil => rfl
  | cons t ts ih => rw [inlinedAll, ih, List.flatMap_cons]

/-- So are siblings on lines of their own. -/
theorem blocks_eq (depth : Nat) (raw : Bool) (ts : List Tree) :
    blocks depth raw ts = ts.flatMap (block depth raw) := by
  induction ts with
  | nil => rfl
  | cons t ts ih => rw [blocks, ih, List.flatMap_cons]

/-- The layouts of plain children: nothing, a text on the line of the tags, or nodes. Plain trees
have no blank text, so a single text always shows. -/
theorem layoutOf_cases (tag : String) {children : List Tree} (h : ∀ t ∈ children, t.Plain) :
    (children = [] ∧ layoutOf tag false children = .compact []) ∨
      (∃ s, children = [.text s] ∧ layoutOf tag false children =
        .compact (printText false (if isPreformatted tag then s.toList else trim s.toList))) ∨
      layoutOf tag false children = if isPreformatted tag then .inlined else .lines := by
  have hvisible : children.filter isVisible = children := by
    refine List.filter_eq_self.2 fun t ht => ?_
    cases h t ht with
    | text hs _ => exact congrArg (!·) hs
    | element _ _ _ _ _ _ => rfl
    | rawText _ _ _ _ => rfl
  unfold layoutOf
  rw [hvisible]
  rcases children with _ | ⟨t, _ | ⟨next, children⟩⟩
  · exact .inl ⟨rfl, rfl⟩
  · cases h t List.mem_cons_self with
    | @text s _ _ => exact .inr (.inl ⟨s, rfl, rfl⟩)
    | element _ _ _ _ _ _ => exact .inr (.inr rfl)
    | rawText _ _ _ _ => exact .inr (.inr rfl)
  · cases h t List.mem_cons_self with
    | text _ _ => exact .inr (.inr rfl)
    | element _ _ _ _ _ _ => exact .inr (.inr rfl)
    | rawText _ _ _ _ => exact .inr (.inr rfl)

/-- The content of an element, as it is laid out on lines of its own. -/
def contentText (depth : Nat) (tag : String) (raw : Bool) (children : List Tree) : List Char :=
  match layoutOf tag raw children with
  | .compact content => content
  | .inlined => inlinedAll raw children
  | .lines => ['\n'] ++ blocks (depth + 1) raw children ++ indent depth

/-- An element on lines of its own: its indentation, its start tag, its content and closing tag
unless it is void, and the end of the line. -/
theorem block_element (depth : Nat) (raw : Bool) (tag : String)
    (attributes : List (String × String)) (children : List Tree) :
    block depth raw (.element tag attributes none children) =
      indent depth ++ (openTag tag attributes ++
        (if hasClosingTag tag then
          contentText depth tag (raw || isRawText tag) children ++ closeTag tag
        else [])) ++ ['\n'] := by
  unfold block contentText
  exact congrArg (· ++ ['\n']) (List.append_assoc (indent depth) (openTag tag attributes) _)

/-- Raw text is printed as it is. -/
theorem contentText_rawText (depth : Nat) (tag : String) {content : Option String}
    (h : ∀ s ∈ content, isBlankText s.toList = false) :
    contentText depth tag true (content.toList.map .text) = content.elim [] String.toList := by
  rcases content with _ | s
  · rfl
  · have hvisible : [Tree.text s].filter isVisible = [.text s] :=
      List.filter_cons_of_pos (congrArg (!·) (h s rfl))
    show contentText depth tag true [.text s] = s.toList
    rw [contentText, layoutOf, hvisible]
    rfl

/-- Raw text is printed as it stands. -/
theorem inlinedAll_rawText (content : Option String) :
    inlinedAll true (content.toList.map .text) = content.elim [] String.toList := by
  rcases content with _ | s
  · rfl
  · exact List.append_nil s.toList

/-- The content of an element is read in each layout. What a child needs is that it is read among
lines and inline; which of them applies is told by the layout. -/
theorem readsContent_contentText (depth : Nat) (tag : String) {children : List Tree}
    (hplain : ∀ t ∈ children, t.Plain) (hapart : Apart children)
    (hblock : ∀ t ∈ children, ReadsAfter false t (block (depth + 1) false t))
    (hinlined : ∀ t ∈ children, ReadsAfter true t (inlined false t)) :
    ReadsContent (isPreformatted tag) children (contentText depth tag false children) := by
  unfold contentText
  rcases layoutOf_cases tag hplain with ⟨rfl, hlayout⟩ | ⟨s, rfl, hlayout⟩ | hlayout
  · rw [hlayout]
    exact fun b => ⟨⟨b, []⟩, [], .refl _, .nil, rfl⟩
  · rw [hlayout]
    refine readsContent_singleton ?_
    cases hpre : isPreformatted tag with
    | true => exact hinlined (.text s) List.mem_cons_self
    | false =>
        cases hplain (.text s) List.mem_cons_self with
        | text hs htext =>
            have hreads := readsAfter_trimmedText hs htext .nil .nil
            rwa [List.nil_append, List.append_nil] at hreads
  · rw [hlayout]
    cases hpre : isPreformatted tag with
    | true =>
        have hcontent := readsContent_of_siblings hinlined hapart .nil .nil
        rw [List.nil_append, List.append_nil, ← inlinedAll_eq] at hcontent
        exact hcontent
    | false =>
        have hcontent :=
          readsContent_of_siblings hblock hapart isLayout_newline (isLayout_indent depth)
        rw [← blocks_eq] at hcontent
        exact hcontent

/-! ### Forests -/

/-- A plain tree is read in any layout: on lines of its own, where white space is added around it,
and inline, where none is. -/
theorem readsAfter_of_plain {t : Tree} (h : t.Plain) :
    (∀ depth, ReadsAfter false t (block depth false t)) ∧ ReadsAfter true t (inlined false t) := by
  induction h with
  | @text s hs hplain =>
      refine ⟨fun depth => ?_, readsAfter_inlinedText hs hplain true⟩
      rw [block, hs]
      exact readsAfter_trimmedText hs hplain (isLayout_indent depth) isLayout_newline
  | @element tag attributes children htag hattributes hraw hvoid hapart hchildren ih =>
      cases hclosing : hasClosingTag tag with
      | false =>
          -- An element without an end tag is its start tag alone.
          obtain rfl := hvoid hclosing
          have hleaf : ∀ exact, ReadsElement exact (.element tag attributes none [])
              (openTag tag attributes ++ []) := by
            intro exact
            rw [List.append_nil]
            exact readsElement_leaf htag hattributes hclosing
          constructor
          · intro depth
            rw [block_element, hclosing]
            exact readsAfter_of_readsElement (hleaf false) (isLayout_indent depth) isLayout_newline
          · rw [inlined, hclosing, inlinedAll, List.append_nil]
            exact (hleaf true).readsAfter
      | true =>
          constructor
          · -- The children of a preformatted element are read exactly from here on.
            intro depth
            have hcontent := readsContent_contentText depth tag hchildren hapart
              (fun t ht => (ih t ht).1 (depth + 1)) fun t ht => (ih t ht).2
            have helement : ReadsElement false (.element tag attributes none children) _ :=
              readsElement_of_readsContent htag hattributes hclosing hraw hcontent
            rw [List.append_assoc] at helement
            rw [block_element, hclosing, hraw]
            exact readsAfter_of_readsElement helement (isLayout_indent depth) isLayout_newline
          · have hcontent :=
              readsContent_of_siblings (fun t ht => (ih t ht).2) hapart .nil .nil
            rw [List.nil_append, List.append_nil, ← inlinedAll_eq] at hcontent
            have helement : ReadsElement true (.element tag attributes none children) _ :=
              readsElement_of_readsContent htag hattributes hclosing hraw hcontent
            rw [inlined, hclosing, hraw]
            exact helement.readsAfter
  | @rawText tag attributes content htag hattributes hraw hcontent =>
      have hclosing := hasClosingTag_of_isRawText hraw
      have helement : ∀ exact, ReadsElement exact _ _ :=
        fun exact => readsElement_rawText htag hattributes hraw hcontent
      constructor
      · intro depth
        rw [block_element, hclosing, hraw, Bool.or_true,
          contentText_rawText depth tag fun s hs => (hcontent s hs).1]
        have hblock := helement false
        rw [List.append_assoc] at hblock
        exact readsAfter_of_readsElement hblock (isLayout_indent depth) isLayout_newline
      · rw [inlined, hclosing, hraw, Bool.or_true, inlinedAll_rawText]
        exact (helement true).readsAfter

/-- A printed forest is read as one of the same shape, with its tags, the attributes that are shown
and its texts, and what is read is printed the same. -/
theorem parseFragment_printForest {forest : List Tree} (hplain : ∀ t ∈ forest, t.Plain)
    (hapart : Apart forest) :
    ∃ read, parseFragment (printForest forest) = .ok read ∧
      AllReadAs false false forest read ∧ printForest read = printForest forest := by
  obtain ⟨r, hr, hread⟩ := exists_reads_siblings
    (fun t ht => (readsAfter_of_plain (hplain t ht)).1 0) (hasRead_nil false ⟨[], []⟩) hapart
  obtain ⟨read, hreads, hflush⟩ := hread.flush
  rw [← blocks_eq, ← String.toList_ofList (l := blocks 0 false forest)] at hr
  -- Nothing is open at the end, so the nodes that were added are the forest.
  refine ⟨read, ?_, hreads, printForest_of_allReadAs hreads⟩
  have hparse := parseFragment_of_reads hr
  rw [hflush, Building.forest_addAll] at hparse
  exact hparse

/-- Preformatted content, raw text, an element without content and a text to escape. -/
def article : List Tree :=
  [.element "article" [("title", "a \"b\""), ("v-if", "x")] none
    [.element "pre" [] none [.text " a ", .element "b" [] none [.text "&lt;"]],
      .text "1 < 2", .element "br" [] none [],
      .element "script" [] none [.text "1 < 2"]]]

/-- The forest is plain and its siblings are apart, so it is read back from its print up to white
space, and printing again changes nothing. -/
theorem parseFragment_printForest_article :
    (∀ t ∈ article, t.Plain) ∧ Apart article ∧
      ∃ read, parseFragment (printForest article) = .ok read ∧
        AllReadAs false false article read ∧ printForest read = printForest article := by
  have hbold : Plain (.element "b" [] none [.text "&lt;"]) :=
    .element ⟨'b', [], by decide, by decide, by decide⟩ nofun (by decide) (by decide)
      (List.isChain_singleton _) (List.forall_mem_singleton.2 (.text (by decide) (by decide)))
  have hpre : Plain
      (.element "pre" [] none [.text " a ", .element "b" [] none [.text "&lt;"]]) := by
    refine .element ⟨'p', ['r', 'e'], by decide, by decide, by decide⟩ nofun (by decide)
      (by decide) (by simp [Apart, isText]) ?_
    exact List.forall_mem_cons.2 ⟨.text (by decide) (by decide), List.forall_mem_singleton.2 hbold⟩
  have hbreak : Plain (.element "br" [] none []) :=
    .element ⟨'b', ['r'], by decide, by decide, by decide⟩ nofun (by decide) (fun _ => rfl) .nil
      nofun
  have hscript : Plain (.element "script" [] none [.text "1 < 2"]) := by
    have hcontent : ∀ s ∈ some "1 < 2",
        isBlankText s.toList = false ∧ ¬ ['<', '/'] <:+: s.toList := by
      rintro s ⟨⟩
      exact ⟨by decide, by decide⟩
    exact .rawText ⟨'s', ['c', 'r', 'i', 'p', 't'], by decide, by decide, by decide⟩ (by decide)
      (by decide) hcontent
  have hplain : ∀ t ∈ article, t.Plain := by
    refine List.forall_mem_singleton.2 (.element
      ⟨'a', ['r', 't', 'i', 'c', 'l', 'e'], by decide, by decide, by decide⟩ (by decide) (by decide)
      (by decide) (by simp [Apart, isText]) ?_)
    exact List.forall_mem_cons.2 ⟨hpre, List.forall_mem_cons.2 ⟨.text (by decide) (by decide),
      List.forall_mem_cons.2 ⟨hbreak, List.forall_mem_singleton.2 hscript⟩⟩⟩
  have hapart : Apart article := List.isChain_singleton _
  exact ⟨hplain, hapart, parseFragment_printForest hplain hapart⟩

end Stencil.Markup
