import Stencil.Proofs.Markup.Division
import Stencil.Proofs.Markup.Reader

/-!
# End tags and the elements they close

## Main definitions

* `IsElementName` — the names that a start tag can have
* `parseAs` — the trees of a fragment or of a document
* `Building.onto` — nodes under construction, added to what was built before them

## Main results

* `Building.foldl_onto`, `Building.forest_onto` — what follows an open element is built as if it
  were a text of its own, as long as no end tag in it names the element
* `parseAs_enclose_iff` — an element is closed by an end tag of its name if the name is made of
  characters that the names of end tags are read to have, and not closed at all otherwise

## Design notes

The name of a start tag goes up to the first white space, slash or greater-than sign, that of an end
tag only as far as there are letters, digits and a few other characters.  A name with any other
character is thus cut off in an end tag, which then names another element.
-/

namespace Stencil.Markup

open Text

/-! ### Nodes built above others -/

namespace Building

/-- What is built, added to what was built before. A document that closes all that it opens builds
the same siblings in any surroundings. -/
def onto (b base : Building) : Building :=
  let below := base.addAll b.reversed.reverse
  ⟨b.elements ++ below.elements, below.reversed⟩

variable {b base : Building}

/-- Where no element is open, the finished nodes are added to what was built before. -/
theorem onto_of_nil (h : b.elements = []) : b.onto base = base.addAll b.reversed.reverse := by
  rw [onto, h]
  rfl

/-- Finished nodes open no element. -/
theorem names_addAll (ts : List Tree) : (base.addAll ts).names = base.names := by
  induction ts generalizing base with
  | nil => rfl
  | cons t ts ih => exact ih.trans (names_add base t)

/-- There are no names of open elements exactly where no element is open. -/
theorem isEmpty_names (b : Building) : b.names.isEmpty = b.elements.isEmpty := List.isEmpty_map

/-- Put onto another building, the elements open are the own ones inside those of the other. -/
theorem names_onto : (b.onto base).names = b.names ++ base.names := by
  rw [names, onto, List.map_append]
  exact congrArg (b.names ++ ·) (names_addAll _)

/-- Adding a node and putting onto another building may change places. -/
theorem add_onto (t : Tree) : (b.onto base).add t = (b.add t).onto base := by
  obtain ⟨elements, reversed⟩ := b
  rcases elements with _ | ⟨e, outer⟩
  · have hadd : (⟨[], reversed⟩ : Building).add t = ⟨[], t :: reversed⟩ := rfl
    rw [hadd, onto_of_nil rfl, onto_of_nil rfl, List.reverse_cons, addAll_concat]
  · rfl

/-- So may closing elements, as long as they are the own ones. -/
theorem close_onto {count : Nat} (h : count ≤ b.elements.length) :
    (b.onto base).close count = (b.close count).onto base := by
  induction count generalizing b with
  | zero => rfl
  | succ count ih =>
      obtain ⟨elements, reversed⟩ := b
      rcases elements with _ | ⟨e, outer⟩
      · exact absurd h (Nat.not_succ_le_zero count)
      have hlength : ((⟨outer, reversed⟩ : Building).add (finish e)).elements.length =
          outer.length := by
        rw [← length_names, names_add, length_names]
      have hcount : count ≤ ((⟨outer, reversed⟩ : Building).add (finish e)).elements.length := by
        rw [hlength]
        exact Nat.le_of_succ_le_succ h
      show (((⟨outer, reversed⟩ : Building).onto base).add (finish e)).close count =
        (((⟨outer, reversed⟩ : Building).add (finish e)).close count).onto base
      rw [add_onto, ih hcount]

/-- An end tag that names no element of those below closes what it would close without them, and
nothing if it would close nothing. -/
theorem closeTag_onto {tag : String} (h : tag ∉ base.names) :
    (b.onto base).closeTag tag = (b.closeTag tag).onto base := by
  have hbelow : ((base.addAll b.reversed.reverse).elements.findIdx? (·.tag == tag)) = none := by
    rw [List.findIdx?_eq_none_iff]
    intro e he
    refine beq_false_of_ne ?_
    rintro rfl
    refine h ?_
    rw [← names_addAll b.reversed.reverse]
    exact List.mem_map_of_mem he
  have hfound : (b.onto base).elements.findIdx? (·.tag == tag) =
      b.elements.findIdx? (·.tag == tag) := by
    rw [onto, List.findIdx?_append, hbelow]
    simp
  rw [closeTag, closeTag, hfound]
  rcases hindex : b.elements.findIdx? (·.tag == tag) with _ | i
  · rw [hindex]
  · rw [hindex]
    exact close_onto (List.findIdx?_eq_some_iff_getElem.1 hindex).1

/-- Declarations are kept at the top level only. Apart from them a step does the same with or
without what is below, unless an end tag reaches down to it. -/
theorem step_onto {declarations : Bool} {token : Token}
    (h : ∀ tag, token = .endTag tag → tag ∉ base.names) :
    (b.onto base).step declarations token =
      (b.step (declarations && base.elements.isEmpty) token).onto base := by
  cases token with
  | text cs => exact add_onto _
  | declaration cs =>
      have hempty : (b.onto base).elements.isEmpty =
          (b.elements.isEmpty && base.elements.isEmpty) := by
        rw [← isEmpty_names, names_onto, ← isEmpty_names b, ← isEmpty_names base]
        cases b.names <;> rfl
      rw [step, step, hempty, Bool.and_comm b.elements.isEmpty, ← Bool.and_assoc]
      split
      · exact add_onto _
      · rfl
  | startTag tag attributes => rfl
  | leaf tag attributes => exact add_onto _
  | rawText tag attributes content => exact add_onto _
  | endTag tag => exact closeTag_onto (h tag rfl)

/-- Tokens that close none of the elements open before build on top of them what they build alone. A
declaration is only kept outside of all elements, so whether it is kept depends on the ones open
before. -/
theorem foldl_onto {declarations : Bool} {tokens : List Token}
    (h : ∀ tag, .endTag tag ∈ tokens → tag ∉ base.names) :
    tokens.foldl (step declarations) (b.onto base) =
      (tokens.foldl (step (declarations && base.elements.isEmpty)) b).onto base := by
  induction tokens generalizing b with
  | nil => rfl
  | cons token tokens ih =>
      have hfirst : ∀ tag, token = .endTag tag → tag ∉ base.names :=
        fun tag htag => h tag (htag ▸ List.mem_cons_self)
      rw [List.foldl_cons, List.foldl_cons, step_onto hfirst]
      exact ih fun tag hmem => h tag (List.mem_cons_of_mem token hmem)

/-- Elements are closed one after the other. -/
theorem close_add (m n : Nat) : b.close (m + n) = (b.close m).close n := by
  induction m generalizing b with
  | zero => rw [Nat.zero_add]; rfl
  | succ m ih =>
      rw [Nat.succ_add]
      obtain ⟨elements, reversed⟩ := b
      rcases elements with _ | ⟨e, outer⟩
      · have hnone : ∀ count, (⟨[], reversed⟩ : Building).close count = ⟨[], reversed⟩ := by
          rintro (_ | count) <;> rfl
        rw [hnone, hnone, hnone]
      · exact ih

/-- The trees of what was built before have those of what was added in them or after them: in the
innermost element that is open, or after the finished ones where none is. -/
theorem forest_onto : (b.onto base).forest = (base.addAll b.forest).forest := by
  have hlength : (b.onto base).elements.length = b.elements.length + base.elements.length := by
    rw [← length_names, names_onto, List.length_append, length_names, length_names]
  have hbelow : (base.addAll b.forest).elements.length = base.elements.length := by
    rw [← length_names, names_addAll, length_names]
  rw [forest, hlength, close_add, close_onto (Nat.le_refl _), onto_of_nil b.elements_close_length,
    ← hbelow]
  rfl

end Building

/-! ### Names of tags -/

/-- A name as it is written in a start tag: a letter, and what does not end the name. -/
def IsElementName (name : String) : Prop :=
  ∃ c cs, name.toList = c :: cs ∧ isLetter c = true ∧ ∀ d ∈ cs, isTagChar d = true

/-- An element with some text, its name written in its start tag and in its end tag. -/
def enclose (name text : String) : String := "<" ++ name ++ ">" ++ text ++ "</" ++ name ++ ">"

/-- Letters stay letters in lower case. -/
theorem isLetter_of_toLower_ne {c : Char} (h : c.toLower ≠ c) :
    isLetter c = true ∧ isLetter c.toLower = true := by
  constructor
  · by_contra hletter
    refine h (dif_neg fun hupper => hletter ?_)
    have hupper : ('A' ≤ c && c ≤ 'Z') = true := by
      rw [Bool.and_eq_true, decide_eq_true_eq, decide_eq_true_eq]
      exact hupper
    rw [isLetter, hupper, Bool.or_true]
  · rcases toLower_cases c with hkept | ⟨-, hlow, hhigh⟩
    · exact absurd hkept h
    · have hlower : ('a' ≤ c.toLower && c.toLower ≤ 'z') = true := by
        rw [Bool.and_eq_true, decide_eq_true_eq, decide_eq_true_eq]
        exact ⟨UInt32.le_iff_toNat_le.2 hlow, UInt32.le_iff_toNat_le.2 hhigh⟩
      rw [isLetter, hlower, Bool.true_or]

/-- A letter may stand in the name of an end tag. -/
theorem isEndTagChar_of_isLetter {c : Char} (h : isLetter c = true) : isEndTagChar c = true := by
  simp [isEndTagChar, h]

/-- The names of end tags have the same characters in lower case. -/
theorem isEndTagChar_toLower (c : Char) : isEndTagChar c.toLower = isEndTagChar c := by
  by_cases h : c.toLower = c
  · rw [h]
  · obtain ⟨hletter, hlower⟩ := isLetter_of_toLower_ne h
    rw [isEndTagChar_of_isLetter hletter, isEndTagChar_of_isLetter hlower]

/-- The characters that the name of an end tag is made of. -/
theorem isEndTagChar_of_endTagName? {name : List Char} {tag : String}
    (h : endTagName? name = some tag) : ∀ c ∈ tag.toList, isEndTagChar c = true := by
  rcases name with _ | ⟨c, cs⟩
  · cases h
  · rw [endTagName?] at h
    split at h
    · rename_i hletter
      obtain rfl := Option.some.inj h
      rw [String.toList_ofList]
      intro d hd
      obtain ⟨e, he, rfl⟩ := List.mem_map.1 hd
      rw [isEndTagChar_toLower]
      rcases List.mem_cons.1 he with rfl | he
      · exact isEndTagChar_of_isLetter hletter
      · exact List.mem_takeWhile_imp he
    · cases h

/-- The first token of a start tag is not an end tag. -/
theorem startToken_ne_endTag (tag : String) (attributes : List (String × String)) (closed : Bool)
    (rest : List Char) (name : String) :
    (startToken tag attributes closed rest).1 ≠ .endTag name := by
  unfold startToken
  split
  · exact Token.noConfusion
  · split
    · exact Token.noConfusion
    · exact Token.noConfusion

/-- The end tags of a text are named by such characters alone. A start tag may have others in its
name, which no end tag can then repeat. -/
theorem isEndTagChar_of_lexes {reversed cs : List Char} {tokens : List Token}
    (h : Lexes reversed cs tokens) :
    ∀ tag, .endTag tag ∈ tokens → ∀ c ∈ tag.toList, isEndTagChar c = true := by
  have hall : ∀ token ∈ tokens, ∀ tag, token = .endTag tag →
      ∀ c ∈ tag.toList, isEndTagChar c = true := by
    refine h.forall_mem (fun _ tag htag => nomatch htag) fun hbegins token hmem tag htag => ?_
    subst htag
    cases hbegins with
    | comment => cases hmem
    | declaration => cases List.mem_singleton.1 hmem
    | endTag hname =>
        obtain rfl := Token.endTag.inj (List.mem_singleton.1 hmem)
        exact isEndTagChar_of_endTagName? hname
    | @startTag _ _ rest tag attributes closed =>
        exact absurd (List.mem_singleton.1 hmem).symm
          (startToken_ne_endTag tag attributes closed rest _)
  exact fun tag hmem => hall _ hmem tag rfl

/-- A tag in lower case stays as it is. -/
theorem lowerTag_lowerTag (tag : String) : lowerTag (lowerTag tag) = lowerTag tag := by
  rw [lowerTag, lowerTag, String.toList_ofList, List.map_map]
  exact congrArg String.ofList (List.map_congr_left fun c _ => toLower_toLower c)

namespace IsElementName

variable {name : String}

/-- All characters of the name of an element may stand in a tag. -/
theorem isTagChar_of_mem (h : IsElementName name) : ∀ c ∈ name.toList, isTagChar c = true := by
  obtain ⟨c, cs, hname, hc, hcs⟩ := h
  rw [hname, List.forall_mem_cons]
  exact ⟨isTagChar_of_isLetter hc, hcs⟩

/-- A start tag without attributes opens an element, whatever follows it. Its name may be in letters
of any case, and is kept in lower case. -/
theorem begins_startTag (h : IsElementName name) (hclosing : hasClosingTag name = true)
    (hraw : isRawText name = false) (rest : List Char) :
    Begins ('<' :: (name.toList ++ '>' :: rest)) [.startTag (lowerTag name) []] rest := by
  have htake : (name.toList ++ '>' :: rest).takeWhile isTagChar = name.toList := by
    rw [List.takeWhile_append_of_pos h.isTagChar_of_mem, List.takeWhile_cons_of_neg (by decide),
      List.append_nil]
  have hdrop : (name.toList ++ '>' :: rest).dropWhile isTagChar = '>' :: rest := by
    rw [List.dropWhile_append_of_pos h.isTagChar_of_mem, List.dropWhile_cons_of_neg (by decide)]
  have hread : ∀ position, takeStartTag position (name.toList ++ '>' :: rest) =
      .ok (lowerTag name, [], false, rest) := by
    intro position
    rw [takeStartTag, htake, hdrop, takeAttributes_end (skipSpace_cons (by decide))]
    rfl
  have htoken : startToken (lowerTag name) [] false rest =
      (.startTag (lowerTag name) [], rest) := by
    rw [startToken, hasClosingTag, isRawText, lowerTag_lowerTag, ← hasClosingTag, ← isRawText,
      hclosing, hraw]
    rfl
  obtain ⟨c, cs, hchars, hletter, -⟩ := h
  rw [hchars] at hread ⊢
  have hbegins := Begins.startTag hletter hread
  rwa [htoken] at hbegins

/-- An end tag with the name is one of what is read of the name. -/
theorem begins_endTag (h : IsElementName name) {tag : String}
    (htag : endTagName? name.toList = some tag) (rest : List Char) :
    Begins ('<' :: '/' :: (name.toList ++ '>' :: rest)) [.endTag tag] rest := by
  have hgreater : '>' ∉ name.toList :=
    fun hmem => absurd (h.isTagChar_of_mem _ hmem) (by decide)
  refine .endTag ?_ (takeQuoted?_append hgreater rest)
  rw [endTagName?_append, htag]

/-- All of the name is read in an end tag if all of its characters can be. -/
theorem exists_endTagName? (h : IsElementName name) :
    ∃ tag, endTagName? name.toList = some tag ∧
      ((∀ c ∈ name.toList, isEndTagChar c = true) → tag = lowerTag name) := by
  obtain ⟨c, cs, hname, hc, -⟩ := h
  rw [hname, endTagName?, if_pos hc]
  refine ⟨_, rfl, fun hall => ?_⟩
  have hwhole : cs.takeWhile isEndTagChar = cs :=
    List.takeWhile_eq_self_iff.2 (List.forall_mem_cons.1 hall).2
  rw [hwhole, lowerTag, hname]

end IsElementName

/-! ### Elements that are closed -/

/-- The trees of a document, which keeps its declarations, or of a fragment. -/
def parseAs (declarations : Bool) (s : String) : Except SyntaxError (List Tree) :=
  if declarations then parseDocument s else parseFragment s

/-- A text is parsed to the nodes that its tokens build. -/
theorem parseAs_eq_ok_iff {declarations : Bool} {s : String} {nodes : List Tree} :
    parseAs declarations s = .ok nodes ↔
      ∃ tokens, Lexes [] s.toList tokens ∧ forestOfTokens declarations tokens = nodes := by
  have hparse : parseAs declarations s = (tokenize s).map (forestOfTokens declarations) := by
    cases declarations <;> rfl
  rw [hparse]
  constructor
  · intro h
    rcases htokens : tokenize s with e | tokens
    · rw [htokens] at h
      cases h
    · rw [htokens] at h
      exact ⟨tokens, lexes_of_tokenize htokens, Except.ok.inj h⟩
  · rintro ⟨tokens, htokens, rfl⟩
    rw [htokens.tokenize]
    rfl

section Enclose

variable {name text rest tag : String} {tokens : List Token} {declarations : Bool}

/-- The tokens of an element with some text, and of what follows it. The end tag is the one that is
read of the name, which may be a part of it. -/
theorem lexes_enclose (hname : IsElementName name) (hclosing : hasClosingTag name = true)
    (hraw : isRawText name = false) (htext : '<' ∉ text.toList)
    (hblank : isBlankText text.toList = false) (htag : endTagName? name.toList = some tag)
    (h : Lexes [] rest.toList tokens) :
    Lexes [] (enclose name text ++ rest).toList
      (.startTag (lowerTag name) [] :: .text text.toList :: .endTag tag :: tokens) := by
  have hsource : (enclose name text ++ rest).toList =
      '<' :: (name.toList ++ '>' :: (text.toList ++ '<' :: '/' ::
        (name.toList ++ '>' :: rest.toList))) := by
    simp [enclose]
  have hpending : textTokens (text.toList.reverse ++ []) = [.text text.toList] := by
    rw [List.append_nil, textTokens, isBlankText_reverse, hblank, List.reverse_reverse]
    rfl
  have hinner : Lexes (text.toList.reverse ++ [])
      ('<' :: '/' :: (name.toList ++ '>' :: rest.toList))
      (textTokens (text.toList.reverse ++ []) ++ [.endTag tag] ++ tokens) :=
    .markup (hname.begins_endTag htag _) h
  rw [hpending] at hinner
  rw [hsource]
  exact .markup (hname.begins_startTag hclosing hraw _) (hinner.append_text htext)

/-- An element that its end tag names is closed before what follows. -/
theorem forestOfTokens_closed :
    forestOfTokens declarations
        (.startTag tag [] :: .text text.toList :: .endTag tag :: tokens) =
      .element tag [] none [.text text] :: forestOfTokens declarations tokens := by
  let base : Building := ⟨[], [.element tag [] none [.text text]]⟩
  have hnames : ∀ tag', .endTag tag' ∈ tokens → tag' ∉ base.names :=
    fun tag' _ => List.not_mem_nil
  have hclosed : ((Building.openElement ⟨[], []⟩ tag []).addAll [.text text]).closeTag tag =
      (⟨[], []⟩ : Building).onto base := Building.closeTag_openElement tag [] [.text text]
  show (tokens.foldl (Building.step declarations)
    (((Building.openElement ⟨[], []⟩ tag []).addAll
      [.text (String.ofList text.toList)]).closeTag tag)).forest = _
  rw [String.ofList_toList, hclosed, Building.foldl_onto hnames, Building.forest_onto,
    show base.elements.isEmpty = true from rfl, Bool.and_true, Building.addAll_top]
  show (((forestOfTokens declarations tokens).reverse) ++ [_]).reverse = _
  rw [List.reverse_append, List.reverse_reverse]
  rfl

/-- An element that no end tag names takes in all that follows, up to the end of the document. -/
theorem forestOfTokens_unclosed {other : String}
    (h : ∀ tag', .endTag tag' ∈ .endTag other :: tokens → tag' ≠ tag) :
    forestOfTokens declarations
        (.startTag tag [] :: .text text.toList :: .endTag other :: tokens) =
      [.element tag [] none (.text text :: forestOfTokens false tokens)] := by
  let base : Building := ⟨[⟨tag, [], [.text text]⟩], []⟩
  have hnames : ∀ tag', .endTag tag' ∈ .endTag other :: tokens → tag' ∉ base.names :=
    fun tag' hmem hname => h tag' hmem (List.mem_singleton.1 hname)
  show ((.endTag other :: tokens).foldl (Building.step declarations)
    ⟨[⟨tag, [], [.text (String.ofList text.toList)]⟩], []⟩).forest = _
  rw [String.ofList_toList]
  show ((.endTag other :: tokens).foldl (Building.step declarations)
    ((⟨[], []⟩ : Building).onto base)).forest = _
  rw [Building.foldl_onto hnames, Building.forest_onto,
    show base.elements.isEmpty = false from rfl, Bool.and_false, Building.addAll_cons]
  -- The end tag names no element of those that follow either, as none of them is open yet.
  show [Tree.element tag [] none ((forestOfTokens false tokens).reverse ++ [_]).reverse] = _
  rw [List.reverse_append, List.reverse_reverse]
  rfl

/-- The end tag of a name with other characters names no element, nor does any end tag after it. -/
theorem ne_lowerTag_of_lexes {cs : List Char} (h : Lexes [] cs tokens)
    (hcut : ∃ c ∈ name.toList, isEndTagChar c = false) (hmem : .endTag tag ∈ tokens) :
    tag ≠ lowerTag name := by
  rintro rfl
  obtain ⟨c, hc, hcut⟩ := hcut
  have hlower : c.toLower ∈ (lowerTag name).toList := by
    rw [lowerTag, String.toList_ofList]
    exact List.mem_map_of_mem hc
  have hread := isEndTagChar_of_lexes h _ hmem _ hlower
  rw [isEndTagChar_toLower, hcut] at hread
  cases hread

end Enclose

section Parse

variable {name text rest : String} {nodes : List Tree} {declarations : Bool}
variable (hname : IsElementName name) (hclosing : hasClosingTag name = true)
variable (hraw : isRawText name = false) (htext : '<' ∉ text.toList)
variable (hblank : isBlankText text.toList = false)
include hname hclosing hraw htext hblank

/-- An element whose name an end tag can repeat is closed by it, and what follows comes after the
element. -/
theorem parseAs_enclose_closed (hall : ∀ c ∈ name.toList, isEndTagChar c = true)
    (h : parseAs declarations rest = .ok nodes) :
    parseAs declarations (enclose name text ++ rest) =
      .ok (.element (lowerTag name) [] none [.text text] :: nodes) := by
  obtain ⟨tokens, htokens, rfl⟩ := parseAs_eq_ok_iff.1 h
  obtain ⟨tag, htag, hwhole⟩ := hname.exists_endTagName?
  obtain rfl := hwhole hall
  have hlexes := lexes_enclose hname hclosing hraw htext hblank htag htokens
  exact parseAs_eq_ok_iff.2 ⟨_, hlexes, forestOfTokens_closed⟩

/-- An element whose name no end tag can repeat stays open: all that follows is inside of it. -/
theorem parseAs_enclose_unclosed (hcut : ∃ c ∈ name.toList, isEndTagChar c = false)
    (h : parseAs declarations rest = .ok nodes) :
    ∃ inner, parseFragment rest = .ok inner ∧
      parseAs declarations (enclose name text ++ rest) =
        .ok [.element (lowerTag name) [] none (.text text :: inner)] := by
  obtain ⟨tokens, htokens, -⟩ := parseAs_eq_ok_iff.1 h
  obtain ⟨tag, htag, -⟩ := hname.exists_endTagName?
  have hlexes := lexes_enclose hname hclosing hraw htext hblank htag htokens
  have hfragment : parseAs false rest = .ok (forestOfTokens false tokens) :=
    parseAs_eq_ok_iff.2 ⟨tokens, htokens, rfl⟩
  refine ⟨forestOfTokens false tokens, hfragment, ?_⟩
  refine parseAs_eq_ok_iff.2 ⟨_, hlexes, forestOfTokens_unclosed fun tag' hmem => ?_⟩
  exact ne_lowerTag_of_lexes hlexes hcut
    (List.mem_cons_of_mem _ (List.mem_cons_of_mem _ hmem))

end Parse

/-- An element with some text is closed by an end tag of its name, before anything that may follow,
if and only if all characters of its name are among those that the names of end tags are read to
have.  Otherwise the end tag is ignored, and all that follows comes to stand in the element. -/
theorem parseAs_enclose_iff {name text : String} (hname : IsElementName name)
    (hclosing : hasClosingTag name = true) (hraw : isRawText name = false)
    (htext : '<' ∉ text.toList) (hblank : isBlankText text.toList = false) (declarations : Bool) :
    ((∀ rest nodes, parseAs declarations rest = .ok nodes →
        parseAs declarations (enclose name text ++ rest) =
          .ok (.element (lowerTag name) [] none [.text text] :: nodes)) ↔
      ∀ c ∈ name.toList, isEndTagChar c = true) ∧
    ((∃ c ∈ name.toList, isEndTagChar c = false) → ∀ rest nodes,
      parseAs declarations rest = .ok nodes → ∃ inner, parseFragment rest = .ok inner ∧
        parseAs declarations (enclose name text ++ rest) =
          .ok [.element (lowerTag name) [] none (.text text :: inner)]) := by
  refine ⟨⟨fun hclosed c hc => ?_, fun hall rest nodes h => ?_⟩, fun hcut rest nodes h => ?_⟩
  · by_contra hcut
    rw [Bool.not_eq_true] at hcut
    -- A text that follows would be a node of its own, and is a child of the element.
    have hrest : parseAs declarations "x" = .ok [.text "x"] := by cases declarations <;> rfl
    obtain ⟨inner, -, hinside⟩ :=
      parseAs_enclose_unclosed hname hclosing hraw htext hblank ⟨c, hc, hcut⟩ hrest
    have hbeside := hclosed "x" _ hrest
    have hlength := congrArg List.length (Except.ok.inj (hbeside.symm.trans hinside))
    cases hlength
  · exact parseAs_enclose_closed hname hclosing hraw htext hblank hall h
  · exact parseAs_enclose_unclosed hname hclosing hraw htext hblank hcut h

/-- A name that is cut off in its end tag, and one that is not. -/
theorem parseAs_enclose_iff_widget :
    IsElementName "my.widget" ∧ hasClosingTag "my.widget" = true ∧
      isRawText "my.widget" = false ∧ '<' ∉ "hi".toList ∧ isBlankText "hi".toList = false ∧
      parseAs true (enclose "my.widget" "hi" ++ "<!a><p>x") =
        .ok [.element "my.widget" [] none [.text "hi", .element "p" [] none [.text "x"]]] ∧
      IsElementName "X-Card" ∧ hasClosingTag "X-Card" = true ∧ isRawText "X-Card" = false ∧
      parseAs true (enclose "X-Card" "hi" ++ "<!a><p>x") =
        .ok [.element "x-card" [] none [.text "hi"], .raw "<!a>",
          .element "p" [] none [.text "x"]] := by
  have hwidget : IsElementName "my.widget" :=
    ⟨'m', _, rfl, by decide, List.all_eq_true.1 (by decide)⟩
  have hcard : IsElementName "X-Card" :=
    ⟨'X', _, rfl, by decide, List.all_eq_true.1 (by decide)⟩
  have htext : '<' ∉ "hi".toList := by decide
  have hblank : isBlankText "hi".toList = false := by decide
  have hrest : parseAs true "<!a><p>x" = .ok [.raw "<!a>", .element "p" [] none [.text "x"]] := rfl
  obtain ⟨inner, hinner, hinside⟩ :=
    (parseAs_enclose_iff hwidget (by decide) (by decide) htext hblank true).2
      ⟨'.', by decide, by decide⟩ _ _ hrest
  obtain rfl : [Tree.element "p" [] none [.text "x"]] = inner := Except.ok.inj hinner
  have hbeside := (parseAs_enclose_iff hcard (by decide) (by decide) htext hblank true).1.2
    (List.all_eq_true.1 (by decide)) _ _ hrest
  exact ⟨hwidget, by decide, by decide, htext, hblank, hinside, hcard, by decide, by decide,
    hbeside⟩

/-- What follows an element comes to stand in it, though its end tag stands before. -/
theorem not_parseAs_enclose :
    IsElementName "my.widget" ∧ hasClosingTag "my.widget" = true ∧
      isRawText "my.widget" = false ∧ '<' ∉ "hi".toList ∧ isBlankText "hi".toList = false ∧
      parseAs false "<p>x</p>" = .ok [.element "p" [] none [.text "x"]] ∧
      parseAs false (enclose "my.widget" "hi" ++ "<p>x</p>") ≠
        .ok [.element "my.widget" [] none [.text "hi"], .element "p" [] none [.text "x"]] := by
  have hname : IsElementName "my.widget" :=
    ⟨'m', _, rfl, by decide, List.all_eq_true.1 (by decide)⟩
  refine ⟨hname, by decide, by decide, by decide, by decide, rfl, fun h => ?_⟩
  have hinside : parseAs false (enclose "my.widget" "hi" ++ "<p>x</p>") =
      .ok [.element "my.widget" [] none [.text "hi", .element "p" [] none [.text "x"]]] := rfl
  cases hinside.symm.trans h

end Stencil.Markup
