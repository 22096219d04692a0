import Stencil.Proofs.Markup.Escape
import Stencil.Proofs.Markup.Token

/-!
# Plain trees

Trees whose printed tags and texts are read as what they were printed from.

## Main definitions

* `IsPlainTag`, `IsPlainAttribute`, `IsPlainText` — what tags, attributes and texts are like
* `Tree.Plain`, `Tree.Apart` — trees of these, without texts side by side

## Main results

* `takeMarkup_openTag`, `takeMarkup_closeTag` — a printed tag is read whatever follows it
* `takeRawText_append` — raw text ends where its element does
-/

namespace Stencil.Markup

open Text

/-- Whether a character is a letter in lower case. -/
def isLowerLetter (c : Char) : Bool := 'a' ≤ c && c ≤ 'z'

/-- Whether a character can follow the first one of a tag. -/
def isPlainTagChar (c : Char) : Bool :=
  isLowerLetter c || c.isDigit || c == '-' || c == '_' || c == ':'

/-- A tag in lower case that begins with a letter. -/
def IsPlainTag (tag : String) : Prop :=
  ∃ c cs, tag.toList = c :: cs ∧ isLowerLetter c = true ∧ cs.all isPlainTagChar = true

/-- Text with the marks of a reference holds none of the other characters that are escaped. -/
def IsPlainText (s : String) : Prop :=
  looksEscaped s = true →
    '<' ∉ s.toList ∧ '>' ∉ s.toList ∧ '"' ∉ s.toList ∧ '\'' ∉ s.toList

/-- An attribute with a name that is read as a whole. -/
def IsPlainAttribute (a : String × String) : Prop :=
  (a.1.toList.all fun c => isAttributeChar c && c != '/') = true ∧ IsPlainText a.2

instance (s : String) : Decidable (IsPlainText s) :=
  inferInstanceAs (Decidable (looksEscaped s = true → _))

instance (a : String × String) : Decidable (IsPlainAttribute a) :=
  inferInstanceAs (Decidable (_ = true ∧ IsPlainText a.2))

namespace Tree

/-- Whether a node is text. -/
def isText : Tree → Bool
  | .text _ => true
  | _ => false

/-- No two texts stand side by side. Printed one after the other they would be read as a single
text. -/
def Apart (forest : List Tree) : Prop :=
  forest.IsChain fun t next => t.isText = false ∨ next.isText = false

/-- Trees without blank text, verbatim markup and payloads. Printing such trees loses nothing: blank
text would be taken for layout, and the other two are read as what they look like. -/
inductive Plain : Tree → Prop where
  | text {s : String} : isBlankText s.toList = false → IsPlainText s → Plain (.text s)
  | element {tag : String} {attributes : List (String × String)} {children : List Tree} :
      IsPlainTag tag → (∀ a ∈ attributes, IsPlainAttribute a) → isRawText tag = false →
      (hasClosingTag tag = false → children = []) → Apart children →
      (∀ t ∈ children, Plain t) → Plain (.element tag attributes none children)
  /-- Raw text ends at the first less-than sign before a slash. -/
  | rawText {tag : String} {attributes : List (String × String)} {content : Option String} :
      IsPlainTag tag → (∀ a ∈ attributes, IsPlainAttribute a) → isRawText tag = true →
      (∀ s ∈ content, isBlankText s.toList = false ∧ ¬ ['<', '/'] <:+: s.toList) →
      Plain (.element tag attributes none (content.toList.map .text))

end Tree

/-! ### Tags -/

theorem isPlainTagChar_of_isLowerLetter {c : Char} (h : isLowerLetter c = true) :
    isPlainTagChar c = true := by
  rw [isPlainTagChar, h]
  rfl

theorem isLetter_of_isLowerLetter {c : Char} (h : isLowerLetter c = true) : isLetter c = true := by
  unfold isLowerLetter at h
  rw [isLetter, h]
  rfl

theorem isEndTagChar_of_isPlainTagChar {c : Char} (h : isPlainTagChar c = true) :
    isEndTagChar c = true := by
  simp only [isPlainTagChar, Bool.or_eq_true] at h
  simp only [isEndTagChar, Bool.or_eq_true]
  rcases h with (((h | h) | h) | h) | h
  · exact .inl (.inl (.inl (.inl (isLetter_of_isLowerLetter h))))
  · exact .inl (.inl (.inl (.inr h)))
  · exact .inl (.inl (.inr h))
  · exact .inr h
  · exact .inl (.inr h)

theorem isTagChar_of_isPlainTagChar {c : Char} (h : isPlainTagChar c = true) :
    isTagChar c = true :=
  isTagChar_of_class (by decide) h

theorem toLower_of_isPlainTagChar {c : Char} (h : isPlainTagChar c = true) : c.toLower = c := by
  refine dif_neg fun hupper => ?_
  have hlow : 65 ≤ c.toNat := UInt32.le_iff_toNat_le.1 hupper.1
  have hhigh : c.toNat ≤ 90 := UInt32.le_iff_toNat_le.1 hupper.2
  simp only [isPlainTagChar, isLowerLetter, Char.isDigit, Bool.or_eq_true, Bool.and_eq_true,
    decide_eq_true_eq, beq_iff_eq] at h
  rcases h with (((h | h) | rfl) | rfl) | rfl
  · have hletter : 97 ≤ c.toNat := UInt32.le_iff_toNat_le.1 h.1
    omega
  · have hdigit : c.toNat ≤ 57 := UInt32.le_iff_toNat_le.1 h.2
    omega
  · exact absurd hlow (by decide)
  · exact absurd hhigh (by decide)
  · exact absurd hlow (by decide)

namespace IsPlainTag

variable {tag : String}

theorem isPlainTagChar (h : IsPlainTag tag) : ∀ c ∈ tag.toList, isPlainTagChar c = true := by
  obtain ⟨c, cs, htag, hc, hcs⟩ := h
  rw [htag]
  intro d hd
  rcases List.mem_cons.1 hd with rfl | hd
  · exact isPlainTagChar_of_isLowerLetter hc
  · exact List.all_eq_true.1 hcs d hd

theorem isTagName (h : IsPlainTag tag) : IsTagName tag := fun c hc =>
  ⟨isTagChar_of_isPlainTagChar (h.isPlainTagChar c hc),
    toLower_of_isPlainTagChar (h.isPlainTagChar c hc)⟩

theorem map_toLower (h : IsPlainTag tag) : tag.toList.map Char.toLower = tag.toList :=
  (List.map_congr_left fun c hc => toLower_of_isPlainTagChar (h.isPlainTagChar c hc)).trans
    (List.map_id' _)

theorem greater_not_mem (h : IsPlainTag tag) : '>' ∉ tag.toList :=
  fun hmem => absurd (h.isPlainTagChar _ hmem) (by decide)

end IsPlainTag

/-- The shown attributes of a plain start tag are read as they are shown. -/
theorem readsBack_of_isPlainAttribute {attributes : List (String × String)}
    (h : ∀ a ∈ attributes, IsPlainAttribute a) :
    ∀ a ∈ shownAttributes attributes, IsAttributeName a.1 ∧ ReadsBack a := by
  intro a ha
  obtain ⟨b, hb, rfl⟩ := List.mem_map.1 ha
  obtain ⟨hname, htext⟩ := h b (List.mem_of_mem_filter hb)
  have hchars : ∀ c ∈ b.1.toList, isAttributeChar c = true ∧ c ≠ '/' := by
    intro c hc
    have hboth := List.all_eq_true.1 hname c hc
    rw [Bool.and_eq_true, bne_iff_ne] at hboth
    exact hboth
  refine ⟨fun c hc => (hchars c hc).1, fun hfirst => ?_, fun hquote => ?_⟩
  · exact (hchars '/' (List.mem_of_head? hfirst)).2 rfl
  · rw [String.toList_ofList, quote_mem_escapeUnlessEscaped] at hquote
    exact (htext hquote.1).2.2.1 hquote.2

/-- A printed start tag is read whatever follows it, since its values are in quotes and escaped, and
so do not end it. -/
theorem takeMarkup_openTag {tag : String} {attributes : List (String × String)}
    (htag : IsPlainTag tag) (hattributes : ∀ a ∈ attributes, IsPlainAttribute a) (position : Nat)
    (rest : List Char) :
    takeMarkup position (openTag tag attributes ++ rest) =
      let token := startToken tag (shownAttributes attributes) false rest
      .ok (some ([token.1], token.2)) := by
  have hread := takeStartTag_openTag_append htag.isTagName
    (readsBack_of_isPlainAttribute hattributes) position rest
  obtain ⟨c, cs, hcs, hc, -⟩ := htag
  have htext : openTag tag attributes ++ rest =
      '<' :: c ::
        (cs ++ ((shownAttributes attributes).flatMap attributeText ++ ['>']) ++ rest) := by
    rw [openTag_eq, hcs]
    rfl
  have htail : (openTag tag attributes).tail ++ rest =
      c :: (cs ++ ((shownAttributes attributes).flatMap attributeText ++ ['>']) ++ rest) := by
    rw [openTag_eq, hcs]
    rfl
  rw [htail] at hread
  rw [htext, takeMarkup_letter (isLetter_of_isLowerLetter hc), hread]
  rfl

theorem endTagName?_toList {tag : String} (htag : IsPlainTag tag) :
    endTagName? tag.toList = some tag := by
  have hlower := htag.map_toLower
  obtain ⟨c, cs, hcs, hc, hchars⟩ := htag
  have hname : cs.takeWhile isEndTagChar = cs :=
    List.takeWhile_eq_self_iff.2
      fun d hd => isEndTagChar_of_isPlainTagChar (List.all_eq_true.1 hchars d hd)
  rw [hcs, endTagName?, if_pos (isLetter_of_isLowerLetter hc), hname, ← hcs, hlower,
    String.ofList_toList]

/-- A printed end tag is read whatever follows it, since it ends with a character that no name of a
tag has. -/
theorem takeMarkup_closeTag {tag : String} (htag : IsPlainTag tag) (position : Nat)
    (rest : List Char) :
    takeMarkup position (closeTag tag ++ rest) = .ok (some ([.endTag tag], rest)) := by
  have htext : closeTag tag ++ rest = '<' :: '/' :: (tag.toList ++ '>' :: rest) := by
    simp [closeTag]
  have hname : endTagName? (tag.toList ++ '>' :: rest) = some tag := by
    rw [endTagName?_append, endTagName?_toList htag]
  have hquoted := takeQuoted?_append htag.greater_not_mem rest
  rw [htext]
  exact (Begins.endTag hname hquoted).takeMarkup position

/-! ### Raw text -/

/-- A character that is no letter is not a capital in lower case. -/
theorem eq_of_toLower_eq {c d : Char} (hd : d.toNat < 65) (h : c.toLower = d) : c = d := by
  rcases toLower_cases c with hkept | ⟨-, hlow, -⟩
  · exact hkept.symm.trans h
  · rw [h] at hlow
    omega

theorem startsWith_append (start rest : List Char) : startsWith start (start ++ rest) = true := by
  rw [startsWith, stripPrefix?_eq_some_iff.2 rfl]
  rfl

/-- Text without a less-than sign before a slash does not begin as an end tag does. -/
theorem startsWith_of_not_prefix {name : List Char} {c : Char} {cs rest : List Char}
    (h : ¬ ['<', '/'] <+: c :: cs) :
    startsWith ('<' :: '/' :: name)
      (((c :: (cs ++ '<' :: rest)).take ('<' :: '/' :: name).length).map Char.toLower) = false := by
  rw [Bool.eq_false_iff]
  intro hstart
  obtain ⟨after, hafter⟩ := Option.isSome_iff_exists.1 hstart
  rw [stripPrefix?_eq_some_iff] at hafter
  rcases cs with _ | ⟨d, cs⟩
  · -- The sign is the last of the text, and the one of the end tag comes next.
    have hsecond : '<'.toLower = '/' := (List.cons.inj (List.cons.inj hafter).2).1
    exact absurd hsecond (by decide)
  · have hc : c.toLower = '<' := (List.cons.inj hafter).1
    have hd : d.toLower = '/' := (List.cons.inj (List.cons.inj hafter).2).1
    obtain rfl := eq_of_toLower_eq (by decide) hc
    obtain rfl := eq_of_toLower_eq (by decide) hd
    exact h (List.prefix_append ['<', '/'] cs)

/-- A text is split where the end tag begins. -/
theorem splitBefore_append {name content rest : List Char}
    (hcontent : ¬ ['<', '/'] <:+: content)
    (hrest : startsWith ('<' :: '/' :: name)
      ((('<' :: rest).take ('<' :: '/' :: name).length).map Char.toLower) = true) :
    splitBefore ('<' :: '/' :: name) (content ++ '<' :: rest) = (content, '<' :: rest) := by
  induction content with
  | nil => rw [List.nil_append, splitBefore, if_pos hrest]
  | cons c content ih =>
      rw [List.infix_cons_iff, not_or] at hcontent
      rw [List.cons_append, splitBefore, startsWith_of_not_prefix hcontent.1, ih hcontent.2]
      rfl

theorem afterGreater_append {cs : List Char} (h : '>' ∉ cs) (rest : List Char) :
    afterGreater (cs ++ '>' :: rest) = rest := by
  have hkeep : ∀ c ∈ cs, (c != '>') = true := by
    intro c hc
    rw [bne_iff_ne]
    rintro rfl
    exact h hc
  rw [afterGreater, List.dropWhile_append_of_pos hkeep, List.dropWhile_cons_of_neg (by decide)]
  rfl

/-- Raw text ends where its element does. The condition on the content is more than is needed, for
an end tag of another element would not end it either. -/
theorem takeRawText_append {tag : String} (htag : IsPlainTag tag) {content : List Char}
    (hcontent : ¬ ['<', '/'] <:+: content) (rest : List Char) :
    takeRawText tag (content ++ closeTag tag ++ rest) = (content, rest) := by
  have hclose : closeTag tag ++ rest = '<' :: '/' :: tag.toList ++ '>' :: rest := by
    simp [closeTag]
  -- Letters of the text are compared in lower case, as which the tag is written already.
  have hend : startsWith ('<' :: '/' :: tag.toList)
      ((('<' :: '/' :: tag.toList ++ '>' :: rest).take ('<' :: '/' :: tag.toList).length).map
        Char.toLower) = true := by
    rw [List.take_left, List.map_cons, List.map_cons, htag.map_toLower]
    have hwhole := startsWith_append ('<' :: '/' :: tag.toList) []
    rwa [List.append_nil] at hwhole
  have hgreater : '>' ∉ '<' :: '/' :: tag.toList := by
    simp [htag.greater_not_mem]
  have hsplit : splitBefore (['<', '/'] ++ tag.toList) (content ++ closeTag tag ++ rest) =
      (content, '<' :: '/' :: tag.toList ++ '>' :: rest) := by
    rw [List.append_assoc, hclose]
    exact splitBefore_append hcontent hend
  rw [takeRawText, hsplit]
  dsimp only
  rw [afterGreater_append hgreater]

end Stencil.Markup
