import Stencil.Markup.Parser
import Stencil.Proofs.Markup.Plain

/-!
# Reading markup piece by piece

What the parser does with a piece of a document, whatever follows it.

## Main definitions

* `Reader` — a document that is read up to some place
* `Reads` — a piece that leads from one place to another

## Main results

* `Reads.trans` — pieces are read one after the other
* `reads_text`, `reads_openTag`, `reads_leaf`, `reads_rawText`, `reads_closeTag` — the pieces of a
  printed document
* `parseFragment_of_reads` — a document is read once all of it is

## Design notes

Text is held back until the next tag or the end, since only then it is known how far it goes.
-/

namespace Stencil.Markup

open Text

/-! ### Nodes under construction -/

namespace Building

/-- Adds finished nodes, one after the other. -/
def addAll (b : Building) (ts : List Tree) : Building := ts.foldl add b

/-- Opens an element. -/
def openElement (b : Building) (tag : String) (attributes : List (String × String)) : Building :=
  { b with elements := ⟨tag, attributes, []⟩ :: b.elements }

variable {b : Building}

theorem addAll_concat (ts : List Tree) (t : Tree) : b.addAll (ts ++ [t]) = (b.addAll ts).add t := by
  rw [addAll, List.foldl_append]
  rfl

/-- Finished nodes become children of the innermost open element. -/
theorem addAll_cons (e : OpenElement) (outer : List OpenElement) (reversed ts : List Tree) :
    (⟨e :: outer, reversed⟩ : Building).addAll ts =
      ⟨{ e with reversed := ts.reverse ++ e.reversed } :: outer, reversed⟩ := by
  induction ts generalizing e with
  | nil => rfl
  | cons t ts ih =>
      show (⟨{ e with reversed := t :: e.reversed } :: outer, reversed⟩ : Building).addAll ts = _
      rw [ih, List.reverse_cons, List.append_assoc]
      rfl

theorem addAll_top (reversed ts : List Tree) :
    (⟨[], reversed⟩ : Building).addAll ts = ⟨[], ts.reverse ++ reversed⟩ := by
  induction ts generalizing reversed with
  | nil => rfl
  | cons t ts ih =>
      show (⟨[], t :: reversed⟩ : Building).addAll ts = _
      rw [ih, List.reverse_cons, List.append_assoc]
      rfl

/-- An element is finished with the children added since it was opened. -/
theorem closeTag_openElement (tag : String) (attributes : List (String × String))
    (ts : List Tree) :
    ((b.openElement tag attributes).addAll ts).closeTag tag =
      b.add (.element tag attributes none ts) := by
  have hadded : (b.openElement tag attributes).addAll ts =
      ⟨⟨tag, attributes, ts.reverse⟩ :: b.elements, b.reversed⟩ := by
    rw [openElement, addAll_cons, List.append_nil]
  have hinnermost : (⟨tag, attributes, ts.reverse⟩ :: b.elements).findIdx? (·.tag == tag) =
      some 0 := by
    simp [List.findIdx?_cons]
  rw [hadded, closeTag, hinnermost]
  show b.add (.element tag attributes none ts.reverse.reverse) = _
  rw [List.reverse_reverse]

theorem forest_addAll (ts : List Tree) : ((⟨[], []⟩ : Building).addAll ts).forest = ts := by
  rw [addAll_top]
  show (ts.reverse ++ []).reverse = ts
  rw [List.append_nil, List.reverse_reverse]

end Building

/-! ### Readers -/

/-- A document that is read up to some place: what is built of it, and the text since the last tag
in reverse. -/
structure Reader where
  building : Building
  pending : List Char

namespace Reader

/-- What is built once the pending text is taken in. -/
def flush (r : Reader) : Building := (textTokens r.pending).foldl (Building.step false) r.building

/-- The trees of what was read and of what is still to be read. -/
def trees (r : Reader) (bound position : Nat) (cs : List Char) :
    Except SyntaxError (List Tree) :=
  (tokenizeFrom bound position r.pending cs).map fun tokens =>
    (tokens.foldl (Building.step false) r.building).forest

theorem flush_of_blank {r : Reader} (h : isBlankText r.pending = true) : r.flush = r.building := by
  rw [flush, textTokens, if_pos h]
  rfl

theorem flush_of_not_blank {r : Reader} (h : isBlankText r.pending = false) :
    r.flush = r.building.add (.text (String.ofList r.pending.reverse)) := by
  rw [flush, textTokens, h]
  rfl

end Reader

/-- A piece of a document leads from one place to another, whatever follows it. -/
def Reads (r : Reader) (cs : List Char) (r' : Reader) : Prop :=
  ∀ rest bound position, (cs ++ rest).length ≤ bound →
    ∃ bound' position', rest.length ≤ bound' ∧
      r.trees bound position (cs ++ rest) = r'.trees bound' position' rest

theorem Reads.refl (r : Reader) : Reads r [] r :=
  fun _ bound position hbound => ⟨bound, position, hbound, rfl⟩

/-- Two texts are read one after the other. This is why reading a piece is stated for every text
that follows it. -/
theorem Reads.trans {r r' r'' : Reader} {cs ds : List Char} (h : Reads r cs r')
    (h' : Reads r' ds r'') : Reads r (cs ++ ds) r'' := by
  intro rest bound position hbound
  rw [List.append_assoc] at hbound ⊢
  obtain ⟨bound₁, position₁, hbound₁, htrees₁⟩ := h (ds ++ rest) bound position hbound
  obtain ⟨bound₂, position₂, hbound₂, htrees₂⟩ := h' rest bound₁ position₁ hbound₁
  exact ⟨bound₂, position₂, hbound₂, htrees₁.trans htrees₂⟩

/-- A document is read once all of it is. What is pending then is a text at its end, and what is
open is closed. -/
theorem parseFragment_of_reads {s : String} {r : Reader} (h : Reads ⟨⟨[], []⟩, []⟩ s.toList r) :
    parseFragment s = .ok r.flush.forest := by
  obtain ⟨bound, position, -, htrees⟩ := h [] s.toList.length 0 (by rw [List.append_nil])
  rw [List.append_nil] at htrees
  have hend : r.trees bound position [] = .ok r.flush.forest := by
    rw [Reader.trees, tokenizeFrom]
    rfl
  exact htrees.trans hend

/-- Text without a less-than sign is held back, to be one node with what follows it up to the next
tag. -/
theorem reads_text {cs : List Char} (h : '<' ∉ cs) (b : Building) (pending : List Char) :
    Reads ⟨b, pending⟩ cs ⟨b, cs.reverse ++ pending⟩ := by
  induction cs generalizing pending with
  | nil => exact .refl _
  | cons c cs ih =>
      rw [List.mem_cons, not_or] at h
      have hc : (c == '<') = false := beq_false_of_ne (Ne.symm h.1)
      have hfirst : Reads ⟨b, pending⟩ [c] ⟨b, c :: pending⟩ := by
        intro rest bound position hbound
        obtain ⟨bound, rfl⟩ : ∃ n, bound = n + 1 := ⟨bound - 1, by simp at hbound; omega⟩
        refine ⟨bound, position + c.utf8Size, by simpa using hbound, ?_⟩
        rw [Reader.trees, List.singleton_append, tokenizeFrom, hc]
        rfl
      rw [List.reverse_cons, List.append_assoc]
      exact hfirst.trans (ih h.2 _)

/-- What a less-than sign begins is taken in after the pending text. All forms of markup are covered
at once; what differs is what their tokens build. -/
theorem reads_markup {cs : List Char} {tokens : List Token} (hfirst : cs.head? = some '<')
    (h : ∀ position rest, takeMarkup position (cs ++ rest) = .ok (some (tokens, rest)))
    (r : Reader) : Reads r cs ⟨tokens.foldl (Building.step false) r.flush, []⟩ := by
  obtain ⟨cs, rfl⟩ : ∃ after, cs = '<' :: after := List.head?_eq_some_iff.1 hfirst
  intro rest bound position hbound
  -- A step takes the sign at least, so what is left stays within the bound of the next one.
  obtain ⟨bound, rfl⟩ : ∃ n, bound = n + 1 := ⟨bound - 1, by simp at hbound; omega⟩
  have hmarkup := h position rest
  rw [List.cons_append] at hbound hmarkup ⊢
  refine ⟨bound, position + (byteLength ('<' :: (cs ++ rest)) - byteLength rest), ?_, ?_⟩
  · rw [List.length_cons, List.length_append] at hbound
    omega
  · rw [Reader.trees, Reader.trees, tokenizeFrom]
    show ((takeMarkup position ('<' :: (cs ++ rest)) >>= _).map _ : Except SyntaxError _) = _
    rw [hmarkup]
    show ((tokenizeFrom bound _ [] rest >>= _).map _ : Except SyntaxError _) = _
    rcases tokenizeFrom bound (position + (byteLength ('<' :: (cs ++ rest)) - byteLength rest)) []
      rest with e | others
    · rfl
    · show Except.ok ((textTokens r.pending ++ tokens ++ others).foldl (Building.step false)
        r.building).forest = _
      rw [List.foldl_append, List.foldl_append]
      rfl

/-! ### Pieces of a printed document -/

section Pieces

variable {tag : String} {attributes : List (String × String)} {r : Reader}

/-- A printed start tag ends the text before it and opens its element. What is read of its
attributes are those that are shown. -/
theorem reads_openTag (htag : IsPlainTag tag) (hattributes : ∀ a ∈ attributes, IsPlainAttribute a)
    (hclosing : hasClosingTag tag = true) (hraw : isRawText tag = false) :
    Reads r (openTag tag attributes)
      ⟨r.flush.openElement tag (shownAttributes attributes), []⟩ := by
  have hmarkup : ∀ position rest, takeMarkup position (openTag tag attributes ++ rest) =
      .ok (some ([.startTag tag (shownAttributes attributes)], rest)) := by
    intro position rest
    rw [takeMarkup_openTag htag hattributes, startToken, hclosing, hraw]
    rfl
  exact reads_markup rfl hmarkup r

/-- A printed start tag of a void element ends the text before it and adds the element at once.
Nothing is opened, so no end tag is waited for. -/
theorem reads_leaf (htag : IsPlainTag tag) (hattributes : ∀ a ∈ attributes, IsPlainAttribute a)
    (hclosing : hasClosingTag tag = false) :
    Reads r (openTag tag attributes)
      ⟨r.flush.add (.element tag (shownAttributes attributes) none []), []⟩ := by
  have hmarkup : ∀ position rest, takeMarkup position (openTag tag attributes ++ rest) =
      .ok (some ([.leaf tag (shownAttributes attributes)], rest)) := by
    intro position rest
    rw [takeMarkup_openTag htag hattributes, startToken, hclosing]
    rfl
  exact reads_markup rfl hmarkup r

/-- A printed element with raw text ends the text before it, and its content is its only child
whatever markup is in it. -/
theorem reads_rawText (htag : IsPlainTag tag) (hattributes : ∀ a ∈ attributes, IsPlainAttribute a)
    (hclosing : hasClosingTag tag = true) (hraw : isRawText tag = true) {content : List Char}
    (hcontent : ¬ ['<', '/'] <:+: content) :
    Reads r (openTag tag attributes ++ content ++ closeTag tag)
      ⟨r.flush.add (.element tag (shownAttributes attributes) none
        (Building.rawTextChildren content)), []⟩ := by
  have hmarkup : ∀ position rest,
      takeMarkup position (openTag tag attributes ++ content ++ closeTag tag ++ rest) =
        .ok (some ([.rawText tag (shownAttributes attributes) content], rest)) := by
    intro position rest
    have htext : openTag tag attributes ++ content ++ closeTag tag ++ rest =
        openTag tag attributes ++ (content ++ closeTag tag ++ rest) := by simp
    rw [htext, takeMarkup_openTag htag hattributes, startToken, hclosing, hraw]
    simp only [takeRawText_append htag hcontent]
    rfl
  exact reads_markup rfl hmarkup r

/-- A printed end tag ends the text before it and closes the innermost element of its name. In
printed markup this is the element that was opened last. -/
theorem reads_closeTag (htag : IsPlainTag tag) :
    Reads r (closeTag tag) ⟨r.flush.closeTag tag, []⟩ := by
  have hmarkup := takeMarkup_closeTag htag
  exact reads_markup rfl hmarkup r

end Pieces

end Stencil.Markup
