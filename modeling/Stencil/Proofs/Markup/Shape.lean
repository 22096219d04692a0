import Stencil.Markup.Parser
import Stencil.Proofs.Markup.Token

/-!
# The shape of parsed markup

## Main definitions

* `Tree.Shaped` — trees of elements with readable start tags, of which those with raw text hold no
  more than one text

## Main results

* `shaped_of_parseDocument` — the parser gives nothing else

## Design notes

Shape is followed from start tags over tokens to the elements that are open, and from there to the
finished trees.  Raw text never opens an element, so nothing but text comes to stand in it.
-/

namespace Stencil.Markup

/-- What a start tag that was read looks like. -/
structure IsStartTag (tag : String) (attributes : List (String × String)) : Prop where
  tag : IsTagName tag
  names : ∀ a ∈ attributes, IsAttributeName a.1

/-- Trees as the parser builds them. Start tags can be read, an element with raw text has a single
text at most, and none has a payload. -/
inductive Tree.Shaped : Tree → Prop where
  | text (s : String) : Shaped (.text s)
  | raw (s : String) : Shaped (.raw s)
  | element {tag : String} {attributes : List (String × String)} {children : List Tree} :
      IsStartTag tag attributes →
      (isRawText tag = true → children = [] ∨ ∃ s, children = [.text s]) →
      (∀ t ∈ children, Shaped t) → Shaped (.element tag attributes none children)

/-- Tokens with readable start tags, of which those with raw text come with all of it. -/
def Token.Shaped : Token → Prop
  | .startTag tag attributes => IsStartTag tag attributes ∧ isRawText tag = false
  | .leaf tag attributes => IsStartTag tag attributes
  | .rawText tag attributes _ => IsStartTag tag attributes
  | _ => True

/-! ### Tokens -/

theorem shaped_startToken {tag : String} {attributes : List (String × String)}
    (h : IsStartTag tag attributes) (closed : Bool) (rest : List Char) :
    (startToken tag attributes closed rest).1.Shaped := by
  unfold startToken
  split
  · exact h
  · split
    · exact h
    · rename_i hraw
      exact ⟨h, Bool.not_eq_true _ ▸ hraw⟩

theorem shaped_of_begins {cs rest : List Char} {tokens : List Token} (h : Begins cs tokens rest) :
    ∀ token ∈ tokens, token.Shaped := by
  cases h with
  | comment => exact List.forall_mem_nil _
  | declaration => exact List.forall_mem_singleton.2 trivial
  | endTag => exact List.forall_mem_singleton.2 trivial
  | startTag hletter htag =>
      have hstart := IsStartTag.mk (isTagName_of_takeStartTag (htag 0))
        (isAttributeName_of_takeStartTag (htag 0))
      exact List.forall_mem_singleton.2 (shaped_startToken hstart _ _)

/-- Every token of a text has the shape of tokens. -/
theorem shaped_of_tokenize {s : String} {tokens : List Token} (h : tokenize s = .ok tokens) :
    ∀ token ∈ tokens, token.Shaped :=
  (lexes_of_tokenize h).forall_mem (fun _ => trivial) shaped_of_begins

/-! ### Trees -/

/-- Open elements take in children of any kind, so none of them has raw text. -/
structure OpenElement.Shaped (e : OpenElement) : Prop where
  start : IsStartTag e.tag e.attributes
  notRaw : isRawText e.tag = false
  children : ∀ t ∈ e.reversed, t.Shaped

/-- All that was built so far has the shape of parsed trees. -/
structure Building.Shaped (b : Building) : Prop where
  elements : ∀ e ∈ b.elements, e.Shaped
  finished : ∀ t ∈ b.reversed, t.Shaped

namespace Building

variable {b : Building}

theorem Shaped.add (h : b.Shaped) {t : Tree} (ht : t.Shaped) : (b.add t).Shaped := by
  obtain ⟨elements, reversed⟩ := b
  cases elements with
  | nil => exact ⟨h.elements, List.forall_mem_cons.2 ⟨ht, h.finished⟩⟩
  | cons e outer =>
      obtain ⟨he, houter⟩ := List.forall_mem_cons.1 h.elements
      refine ⟨List.forall_mem_cons.2 ⟨⟨he.start, he.notRaw, ?_⟩, houter⟩, h.finished⟩
      exact List.forall_mem_cons.2 ⟨ht, he.children⟩

theorem shaped_finish {e : OpenElement} (h : e.Shaped) : (finish e).Shaped := by
  refine .element h.start (fun hraw => ?_) fun t ht => h.children t (List.mem_reverse.1 ht)
  exact absurd hraw (by rw [h.notRaw]; decide)

theorem Shaped.close (count : Nat) : ∀ {b : Building}, b.Shaped → (b.close count).Shaped := by
  induction count with
  | zero => exact fun h => h
  | succ count ih =>
      intro b h
      unfold Building.close
      obtain ⟨elements, reversed⟩ := b
      cases elements with
      | nil => exact h
      | cons e outer =>
          obtain ⟨he, houter⟩ := List.forall_mem_cons.1 h.elements
          have hrest : (⟨outer, reversed⟩ : Building).Shaped := ⟨houter, h.finished⟩
          exact ih (hrest.add (shaped_finish he))

theorem Shaped.closeTag (h : b.Shaped) (tag : String) : (b.closeTag tag).Shaped := by
  unfold Building.closeTag
  split
  · exact h.close _
  · exact h

theorem shaped_rawText {tag : String} {attributes : List (String × String)}
    (h : IsStartTag tag attributes) (content : List Char) :
    (Tree.element tag attributes none (rawTextChildren content)).Shaped := by
  unfold rawTextChildren
  split
  · exact .element h (fun _ => .inl rfl) (by simp)
  · exact .element h (fun _ => .inr ⟨_, rfl⟩) (by simpa using .text _)

/-- A token keeps the shape of what is built. -/
theorem Shaped.step (h : b.Shaped) (declarations : Bool) {token : Token} (ht : token.Shaped) :
    (b.step declarations token).Shaped := by
  cases token with
  | text cs => exact h.add (.text _)
  | declaration cs =>
      show (if declarations && b.elements.isEmpty then b.add (.raw (String.ofList cs))
        else b).Shaped
      split
      · exact h.add (.raw _)
      · exact h
  | startTag tag attributes =>
      exact ⟨List.forall_mem_cons.2 ⟨⟨ht.1, ht.2, by simp⟩, h.elements⟩, h.finished⟩
  | leaf tag attributes => exact h.add (.element ht (fun _ => .inl rfl) (by simp))
  | rawText tag attributes content => exact h.add (shaped_rawText ht content)
  | endTag tag => exact h.closeTag tag

theorem Shaped.foldl {tokens : List Token} (declarations : Bool) (h : b.Shaped)
    (ht : ∀ token ∈ tokens, token.Shaped) :
    (tokens.foldl (Building.step declarations) b).Shaped := by
  induction tokens generalizing b with
  | nil => exact h
  | cons token tokens ih =>
      obtain ⟨hfirst, hrest⟩ := List.forall_mem_cons.1 ht
      exact ih (h.step declarations hfirst) hrest

end Building

/-- The trees of a document have the shape of parsed trees. The invariant is one of the building:
what is open and what is finished have this shape after each token. -/
theorem shaped_of_parseDocument {s : String} {forest : List Tree}
    (h : parseDocument s = .ok forest) : ∀ t ∈ forest, t.Shaped := by
  unfold parseDocument at h
  rcases ht : tokenize s with _ | tokens
  · rw [ht] at h
    exact nomatch h
  · rw [ht] at h
    obtain rfl := Except.ok.inj h
    have hempty : (⟨[], []⟩ : Building).Shaped := ⟨by simp, by simp⟩
    have hbuilt := hempty.foldl true (shaped_of_tokenize ht)
    intro t hmem
    exact (hbuilt.close _).finished t (List.mem_reverse.1 hmem)

end Stencil.Markup
