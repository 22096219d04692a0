import Mathlib.Data.List.Pairwise
import Stencil.Markup.Arena
import Stencil.Markup.Parser

/-!
# The nodes of a document in the order of their beginnings

## Main definitions

* `Label` — what a node is, without what is below it
* `Tree.outline`, `Building.outline` — labels in document order, with the depths of the nodes
* `Construct` — a part of a document: text, a comment, a declaration or a tag
* `Construct.label?`, `Construct.after` — the node that begins at a part, and the elements that are
  open after it
* `entries` — the nodes that begin at some parts, with their places in the source
* `Tells` — tokens that build what begins at some parts

## Main results

* `Building.outline_add`, `Building.outline_close` — a node is added at the end of the outline, and
  closing elements leaves it as it is
* `Tells.outline_forest` — the outline of the trees of some tokens is that of the parts they are
  from

## Design notes

A forest is determined by its outline, since the depth of a node tells whose child it is.  The
outline of the parts is computed over the names of the elements that are open, and nothing else;
what the elements hold so far plays no part in where a node goes.
-/

namespace Stencil.Markup

open Text

/-- What a node is, without what is below it. -/
inductive Label where
  | text (s : String)
  | raw (s : String)
  | element (tag : String) (attributes : List (String × String))
  deriving DecidableEq, Repr

namespace Tree

mutual

/-- The nodes of a tree, each before those below it, with their depths. With the depths the list
tells the tree, and unlike trees such lists can be joined. -/
def outline (depth : Nat) : Tree → List (Nat × Label)
  | .text s => [(depth, .text s)]
  | .raw s => [(depth, .raw s)]
  | .element tag attributes _ children =>
    (depth, .element tag attributes) :: outlineAll (depth + 1) children

/-- The nodes of trees one after the other. -/
def outlineAll (depth : Nat) : List Tree → List (Nat × Label)
  | [] => []
  | t :: rest => outline depth t ++ outlineAll depth rest

end

/-- The outline of two lists of trees is the outlines in turn. -/
theorem outlineAll_append (depth : Nat) (ts ts' : List Tree) :
    outlineAll depth (ts ++ ts') = outlineAll depth ts ++ outlineAll depth ts' := by
  induction ts with
  | nil => rfl
  | cons t ts ih =>
      show outline depth t ++ outlineAll depth (ts ++ ts') = _
      rw [ih, ← List.append_assoc]
      rfl

/-- The outline of one tree is its own. -/
theorem outlineAll_singleton (depth : Nat) (t : Tree) : outlineAll depth [t] = outline depth t :=
  List.append_nil _

end Tree

/-! ### Nodes under construction -/

namespace Building

open Markup.Tree

/-- The outline of the elements that are open, the outermost one first. -/
def openOutline : List OpenElement → List (Nat × Label)
  | [] => []
  | e :: outer =>
    openOutline outer ++ (outer.length, .element e.tag e.attributes) ::
      outlineAll (outer.length + 1) e.reversed.reverse

/-- The outline of what is built so far. -/
def outline (b : Building) : List (Nat × Label) :=
  outlineAll 0 b.reversed.reverse ++ openOutline b.elements

/-- The tags of the elements that are open, innermost first. -/
def names (b : Building) : List String := b.elements.map OpenElement.tag

/-- There are as many names as open elements. -/
theorem length_names (b : Building) : b.names.length = b.elements.length := List.length_map _

/-- A finished node comes last, at the depth of the children of the innermost open element. Outlines
are in the order of the source because of it. -/
theorem outline_add (b : Building) (t : Tree) :
    (b.add t).outline = b.outline ++ Tree.outline b.names.length t := by
  obtain ⟨elements, reversed⟩ := b
  cases elements with
  | nil =>
      show outlineAll 0 (t :: reversed).reverse ++ [] =
        outlineAll 0 reversed.reverse ++ [] ++ Tree.outline 0 t
      rw [List.reverse_cons, outlineAll_append, outlineAll_singleton, List.append_nil,
        List.append_nil]
  | cons e outer =>
      show outlineAll 0 reversed.reverse ++ (openOutline outer ++
          (outer.length, .element e.tag e.attributes) ::
            outlineAll (outer.length + 1) (t :: e.reversed).reverse) = _
      rw [length_names, List.reverse_cons, outlineAll_append, outlineAll_singleton]
      simp only [outline, openOutline, List.length_cons, List.append_assoc, List.cons_append]

/-- A finished node opens no element. -/
theorem names_add (b : Building) (t : Tree) : (b.add t).names = b.names := by
  obtain ⟨elements, reversed⟩ := b
  cases elements with
  | nil => rfl
  | cons e outer => rfl

/-- An element that is closed stays where it is in the outline: it was told where it began, and
closing only moves it from the open elements to the finished ones. -/
theorem outline_close (count : Nat) : ∀ b : Building, (b.close count).outline = b.outline := by
  induction count with
  | zero => exact fun b => rfl
  | succ count ih =>
      rintro ⟨elements, reversed⟩
      cases elements with
      | nil => rfl
      | cons e outer =>
          show ((Building.add ⟨outer, reversed⟩ (finish e)).close count).outline = _
          rw [ih, outline_add, length_names]
          simp only [outline, openOutline, finish, Tree.outline, List.append_assoc]

/-- Closing some elements takes their names off, the innermost first. -/
theorem names_close (count : Nat) : ∀ b : Building, (b.close count).names = b.names.drop count := by
  induction count with
  | zero => exact fun b => rfl
  | succ count ih =>
      rintro ⟨elements, reversed⟩
      cases elements with
      | nil => rfl
      | cons e outer =>
          show ((Building.add ⟨outer, reversed⟩ (finish e)).close count).names = _
          rw [ih, names_add]
          rfl

/-- No element is left open once all of them are closed. -/
theorem elements_close_length (b : Building) : (b.close b.elements.length).elements = [] := by
  have hnames : (b.close b.elements.length).names = [] := by
    rw [names_close, ← length_names, List.drop_length]
  exact List.map_eq_nil_iff.1 hnames

/-- The finished trees have the outline of all that was built. -/
theorem outlineAll_forest (b : Building) : outlineAll 0 b.forest = b.outline := by
  rw [← outline_close b.elements.length, outline, elements_close_length]
  exact (List.append_nil _).symm

end Building

/-! ### Parts of a document -/

/-- A part of a document, as it is written. The parts of a document put together are the document,
whatever is malformed in it. -/
inductive Construct where
  | text (cs : List Char)
  | comment (cs : List Char)
  | declaration (cs : List Char)
  | startTag (cs : List Char) (tag : String) (attributes : List (String × String))
  /-- A start tag of an element that has no content. -/
  | leaf (cs : List Char) (tag : String) (attributes : List (String × String))
  /-- An end tag; that of raw text at the end of a document may be left out. -/
  | endTag (cs : List Char) (tag : String)

/-- The open elements after an end tag: those around the innermost one that it names, and all of
them if there is none. -/
def closeNames (tag : String) (names : List String) : List String :=
  if tag ∈ names then (names.dropWhile (· != tag)).tail else names

/-- Closing what was opened since the innermost element of a tag closes this element, too. The
parser goes by an index, and the outline by the names. -/
theorem drop_of_findIdx? {tag : String} {names : List String} :
    ∀ {i}, names.findIdx? (· == tag) = some i → names.drop (i + 1) = closeNames tag names := by
  have hinnermost : ∀ {i}, names.findIdx? (· == tag) = some i →
      tag ∈ names ∧ names.drop (i + 1) = (names.dropWhile (· != tag)).tail := by
    induction names with
    | nil => exact nofun
    | cons name names ih =>
        intro i h
        rw [List.findIdx?_cons] at h
        by_cases hname : name = tag
        · subst hname
          rw [beq_self_eq_true, if_pos rfl] at h
          obtain rfl := Option.some.inj h
          rw [List.dropWhile_cons_of_neg (by simp)]
          exact ⟨List.mem_cons_self, rfl⟩
        · rw [beq_false_of_ne hname, if_neg Bool.false_ne_true] at h
          obtain ⟨i, hi, rfl⟩ := Option.map_eq_some_iff.1 h
          obtain ⟨hmem, hdrop⟩ := ih hi
          rw [List.dropWhile_cons_of_pos (by simpa using hname)]
          exact ⟨List.mem_cons_of_mem name hmem, hdrop⟩
  intro i h
  obtain ⟨hmem, hdrop⟩ := hinnermost h
  rw [closeNames, if_pos hmem, hdrop]

/-- A stray end tag closes nothing. -/
theorem closeNames_of_findIdx? {tag : String} {names : List String}
    (h : names.findIdx? (· == tag) = none) : closeNames tag names = names := by
  have hstray : tag ∉ names := fun hmem => by simpa using List.findIdx?_eq_none_iff.1 h tag hmem
  rw [closeNames, if_neg hstray]

namespace Construct

/-- A part as it is written. -/
def source : Construct → List Char
  | .text cs | .comment cs | .declaration cs | .startTag cs _ _ | .leaf cs _ _ | .endTag cs _ => cs

/-- The node that begins at a part, within the elements of some names. Blank text is no node, and a
declaration is one outside of all elements only, if declarations are kept. -/
def label? (declarations : Bool) (names : List String) : Construct → Option Label
  | .text cs => if isBlankText cs then none else some (.text (String.ofList cs))
  | .declaration cs =>
    if declarations && names.isEmpty then some (.raw (String.ofList cs)) else none
  | .startTag _ tag attributes | .leaf _ tag attributes => some (.element tag attributes)
  | .comment _ | .endTag _ _ => none

/-- The elements that are open after a part. -/
def after (names : List String) : Construct → List String
  | .startTag _ tag _ => tag :: names
  | .endTag _ tag => closeNames tag names
  | _ => names

/-- The elements that are open after some parts. -/
def afterAll (names : List String) (parts : List Construct) : List String := parts.foldl after names

/-- Parts with the places where they begin. -/
def located : (start : Nat) → List Construct → List (Nat × Construct)
  | _, [] => []
  | start, part :: parts => (start, part) :: located (start + part.source.length) parts

end Construct

/-- A node that begins at a part of a document: where the part begins, and how deep the node is. -/
structure Entry where
  start : Nat
  part : Construct
  depth : Nat
  label : Label

/-- The node that begins at a part of a document, if one does. -/
def entryOf? (declarations : Bool) (names : List String) (start : Nat) (part : Construct) :
    Option Entry :=
  (part.label? declarations names).map fun label => ⟨start, part, names.length, label⟩

/-- The nodes that begin at some parts, within the elements of some names. The names are those of
the open elements; an end tag that matches none of them begins no node and closes nothing. -/
def entries (declarations : Bool) :
    (names : List String) → (start : Nat) → List Construct → List Entry
  | _, _, [] => []
  | names, start, part :: parts =>
    (entryOf? declarations names start part).toList ++
      entries declarations (part.after names) (start + part.source.length) parts

namespace Entry

/-- Where a node is in the outline, and what it is. -/
def place (e : Entry) : Nat × Label := (e.depth, e.label)

end Entry

/-- Entries begin where their parts do, in the same order. -/
theorem entries_sublist (declarations : Bool) (parts : List Construct) : ∀ names start,
    ((entries declarations names start parts).map fun e => (e.start, e.part)).Sublist
      (Construct.located start parts) := by
  induction parts with
  | nil => exact fun _ _ => .slnil
  | cons part parts ih =>
      intro names start
      rw [entries, Construct.located, List.map_append, entryOf?]
      cases part.label? declarations names with
      | none => exact (ih _ _).cons _
      | some label => exact (ih _ _).cons_cons _

/-- The label of an entry is that of its part. -/
theorem exists_label?_of_mem (declarations : Bool) (parts : List Construct) : ∀ names start,
    ∀ e ∈ entries declarations names start parts,
      ∃ names, e.part.label? declarations names = some e.label := by
  induction parts with
  | nil => exact fun _ _ _ he => nomatch he
  | cons part parts ih =>
      intro names start e he
      rw [entries, List.mem_append, Option.mem_toList, entryOf?] at he
      rcases he with he | he
      · obtain ⟨label, hlabel, rfl⟩ := Option.map_eq_some_iff.1 he
        exact ⟨names, hlabel⟩
      · exact ih _ _ e he

/-- What begins at a part depends on the parts before it only through the elements that are open. -/
theorem map_place_entries_append (declarations : Bool) (parts parts' : List Construct) :
    ∀ names start,
    ∃ start', (entries declarations names start (parts ++ parts')).map Entry.place =
      (entries declarations names start parts).map Entry.place ++
        (entries declarations (Construct.afterAll names parts) start' parts').map Entry.place := by
  induction parts with
  | nil => exact fun _ start => ⟨start, rfl⟩
  | cons part parts ih =>
      intro names start
      obtain ⟨start', hrest⟩ := ih (part.after names) (start + part.source.length)
      refine ⟨start', ?_⟩
      rw [List.cons_append, entries, entries, List.map_append, hrest, List.map_append,
        List.append_assoc]
      rfl

/-- A part is where the parts before it end. -/
theorem exists_of_mem_located (parts : List Construct) :
    ∀ start, ∀ p ∈ Construct.located start parts,
    ∃ before after, parts = before ++ p.2 :: after ∧
      p.1 = start + (before.flatMap Construct.source).length := by
  induction parts with
  | nil => exact fun _ _ hp => nomatch hp
  | cons part parts ih =>
      intro start p hp
      rcases List.mem_cons.1 hp with rfl | hp
      · exact ⟨[], parts, rfl, rfl⟩
      · obtain ⟨before, after, rfl, hstart⟩ := ih _ p hp
        refine ⟨part :: before, after, rfl, ?_⟩
        rw [hstart, List.flatMap_cons, List.length_append, Nat.add_assoc]

/-- No part begins before those before it have ended. -/
theorem pairwise_located (parts : List Construct) : ∀ start,
    (Construct.located start parts).Pairwise fun p q => p.1 + p.2.source.length ≤ q.1 := by
  induction parts with
  | nil => exact fun _ => .nil
  | cons part parts ih =>
      intro start
      refine .cons (fun q hq => ?_) (ih _)
      obtain ⟨before, -, -, hstart⟩ := exists_of_mem_located parts _ q hq
      rw [hstart]
      exact Nat.le_add_right _ _

/-- Two parts of a document do not overlap. -/
theorem disjoint_located {parts : List Construct} {start : Nat} {p q : Nat × Construct}
    (hp : p ∈ Construct.located start parts) (hq : q ∈ Construct.located start parts)
    (hne : p ≠ q) :
    p.1 + p.2.source.length ≤ q.1 ∨ q.1 + q.2.source.length ≤ p.1 := by
  let Apart (p q : Nat × Construct) : Prop :=
    p.1 + p.2.source.length ≤ q.1 ∨ q.1 + q.2.source.length ≤ p.1
  have hsymm : Std.Symm Apart := ⟨fun _ _ => Or.symm⟩
  have hapart : (Construct.located start parts).Pairwise Apart :=
    (pairwise_located parts start).imp .inl
  exact hapart.forall hp hq hne

/-! ### Tokens of parts -/

/-- Tokens that build what begins at some parts. Both the open elements and the outline are told for
every building, so that tokens can be joined. -/
structure Tells (tokens : List Token) (parts : List Construct) : Prop where
  names : ∀ declarations (b : Building),
    (tokens.foldl (Building.step declarations) b).names = Construct.afterAll b.names parts
  outline : ∀ declarations (b : Building) start,
    (tokens.foldl (Building.step declarations) b).outline =
      b.outline ++ (entries declarations b.names start parts).map Entry.place

namespace Tells

variable {tokens tokens' : List Token} {parts parts' : List Construct}

/-- Nothing is told by no tokens. -/
theorem nil : Tells [] [] where
  names _ _ := rfl
  outline _ _ _ := (List.append_nil _).symm

/-- Tokens in turn tell their parts in turn. -/
theorem append (h : Tells tokens parts) (h' : Tells tokens' parts') :
    Tells (tokens ++ tokens') (parts ++ parts') where
  names declarations b := by
    rw [List.foldl_append, h'.names, h.names, Construct.afterAll, Construct.afterAll,
      Construct.afterAll, List.foldl_append]
  outline declarations b start := by
    obtain ⟨start', hentries⟩ :=
      map_place_entries_append declarations parts parts' b.names start
    rw [List.foldl_append, h'.outline declarations _ start', h.outline declarations b start,
      h.names, hentries, List.append_assoc]

/-- The trees of some tokens have the outline of the parts that the tokens are from. What is open at
the end is closed there, which changes no outline. -/
theorem outline_forest (h : Tells tokens parts) (declarations : Bool) :
    Tree.outlineAll 0 (forestOfTokens declarations tokens) =
      (entries declarations [] 0 parts).map Entry.place :=
  (Building.outlineAll_forest _).trans (h.outline declarations ⟨[], []⟩ 0)

/-- A token of text tells a text. -/
theorem text {cs : List Char} (h : isBlankText cs = false) : Tells [.text cs] [.text cs] where
  names _ b := b.names_add _
  outline _ b start := by
    show (b.add (.text (String.ofList cs))).outline = _
    rw [Building.outline_add, entries, entryOf?, Construct.label?, h]
    rfl

/-- Blank text has no token. -/
theorem blank {cs : List Char} (h : isBlankText cs = true) : Tells [] [.text cs] where
  names _ _ := rfl
  outline _ b start := by
    rw [entries, entryOf?, Construct.label?, h]
    exact (List.append_nil _).symm

/-- A comment has no token. -/
theorem comment (cs : List Char) : Tells [] [.comment cs] where
  names _ _ := rfl
  outline _ _ _ := (List.append_nil _).symm

/-- A declaration has its token; whether it becomes a node is decided where it stands. -/
theorem declaration (cs : List Char) : Tells [.declaration cs] [.declaration cs] where
  names declarations b := by
    show Building.names
      (if declarations && b.elements.isEmpty then b.add (.raw (String.ofList cs)) else b) = _
    split
    · exact b.names_add _
    · rfl
  outline declarations b start := by
    show (if declarations && b.elements.isEmpty then b.add (.raw (String.ofList cs))
      else b).outline = _
    have hempty : b.names.isEmpty = b.elements.isEmpty := List.isEmpty_map
    rw [entries, entryOf?, Construct.label?, hempty]
    split
    · exact Building.outline_add b _
    · exact (List.append_nil _).symm

/-- A start tag opens an element. -/
theorem startTag (cs : List Char) (tag : String) (attributes : List (String × String)) :
    Tells [.startTag tag attributes] [.startTag cs tag attributes] where
  names _ _ := rfl
  outline _ b start := by
    show Tree.outlineAll 0 b.reversed.reverse ++ (Building.openOutline b.elements ++
      [(b.elements.length, Label.element tag attributes)]) = _
    rw [← List.append_assoc, ← Building.length_names]
    rfl

/-- A start tag without content is an element at once. -/
theorem leaf (cs : List Char) (tag : String) (attributes : List (String × String)) :
    Tells [.leaf tag attributes] [.leaf cs tag attributes] where
  names _ b := b.names_add _
  outline _ b _ := Building.outline_add b _

/-- An end tag closes what its name says. -/
theorem endTag (cs : List Char) (tag : String) : Tells [.endTag tag] [.endTag cs tag] where
  names _ b := by
    show (b.closeTag tag).names = closeNames tag b.names
    have hfind : b.elements.findIdx? (·.tag == tag) = b.names.findIdx? (· == tag) :=
      (List.findIdx?_map (f := OpenElement.tag) (p := (· == tag))).symm
    rw [Building.closeTag, hfind]
    cases hfound : b.names.findIdx? (· == tag) with
    | none => exact (closeNames_of_findIdx? hfound).symm
    | some i => exact (Building.names_close (i + 1) b).trans (drop_of_findIdx? hfound)
  outline _ b _ := by
    show (b.closeTag tag).outline = b.outline ++ []
    rw [List.append_nil, Building.closeTag]
    split
    · exact Building.outline_close _ b
    · rfl

/-- Raw text is an element around its content. -/
theorem rawText (cs close : List Char) (tag : String) (attributes : List (String × String))
    (content : List Char) :
    Tells [.rawText tag attributes content]
      [.startTag cs tag attributes, .text content, .endTag close tag] where
  names _ b := by
    show (b.add _).names = closeNames tag (tag :: b.names)
    rw [Building.names_add, closeNames, if_pos List.mem_cons_self, List.dropWhile_cons_of_neg]
    · rfl
    · simp
  outline declarations b start := by
    show (b.add _).outline = _
    rw [Building.outline_add, entries, entries, entries, Building.rawTextChildren]
    cases hblank : isBlankText content with
    | true =>
        simp [entryOf?, Construct.label?, hblank, entries, Entry.place, Tree.outline,
          Tree.outlineAll]
    | false =>
        simp [entryOf?, Construct.label?, hblank, entries, Entry.place, Tree.outline,
          Tree.outlineAll, Construct.after]

end Tells

end Stencil.Markup
