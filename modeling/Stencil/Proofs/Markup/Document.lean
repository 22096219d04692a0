import Stencil.Proofs.Markup.Division
import Stencil.Proofs.Markup.Walk
import Stencil.Proofs.Markup.WellFormed

/-!
# Parsed documents and their sources

## Main definitions

* `Entry.InSource` — nodes that begin at parts of a text, one after the other

## Main results

* `walk_of_parse` — a walk over a parsed document comes to each node of its arena once, in the order
  in which the nodes begin in the source, and within the elements that are open there

## Design notes

The division of a source into its parts says nothing of the trees, and the entries of the parts
nothing of the parser: which elements are open is told by the names of the tags alone.
-/

namespace Stencil.Markup

open Text

/-- Nodes that begin at parts of a text, one after the other: none begins where another one does,
texts and declarations are written there, and no other part of the text overlaps. -/
structure Entry.InSource (cs : List Char) (parts : List Construct) (found : List Entry) : Prop where
  increasing : found.Pairwise fun e e' => e.start < e'.start
  slice : ∀ e ∈ found, ∃ before after, cs = before ++ (e.part.source ++ after) ∧
    before.length = e.start
  written : ∀ e ∈ found, ∀ s, e.label = .text s ∨ e.label = .raw s → s.toList = e.part.source
  disjoint : ∀ e ∈ found, ∀ p ∈ Construct.located 0 parts, p ≠ (e.start, e.part) →
    p.1 + p.2.source.length ≤ e.start ∨ e.start + e.part.source.length ≤ p.1

section Entries

variable {cs : List Char} {parts : List Construct} {declarations : Bool} {names : List String}
variable {part : Construct}

/-- What a part that is a text or a declaration stands for is what is written. A text that is blank
begins no node. -/
theorem toList_of_label? {label : Label} {s : String}
    (h : part.label? declarations names = some label) (hlabel : label = .text s ∨ label = .raw s) :
    s.toList = part.source ∧ (label = .text s → isBlankText s.toList = false) := by
  cases part with
  | text written =>
      rw [Construct.label?] at h
      split at h
      · cases h
      · rename_i hblank
        obtain rfl := Option.some.inj h
        obtain rfl : String.ofList written = s := hlabel.elim Label.text.inj fun h => by cases h
        rw [String.toList_ofList]
        exact ⟨rfl, fun _ => Bool.eq_false_iff.2 hblank⟩
  | declaration written =>
      rw [Construct.label?] at h
      split at h
      · obtain rfl := Option.some.inj h
        obtain rfl : String.ofList written = s := hlabel.elim (fun h => by cases h) Label.raw.inj
        rw [String.toList_ofList]
        exact ⟨rfl, fun h => by cases h⟩
      · cases h
  | comment written => cases h
  | endTag written tag => cases h
  | startTag written tag attributes =>
      obtain rfl := Option.some.inj h
      rcases hlabel with htext | hraw
      · cases htext
      · cases hraw
  | leaf written tag attributes =>
      obtain rfl := Option.some.inj h
      rcases hlabel with htext | hraw
      · cases htext
      · cases hraw

/-- A node begins at something that is written. Only the text and the end tag of raw text may be
empty parts, and neither begins a node then. -/
theorem Divided.source_ne_nil (h : Divided cs parts) (hpart : part ∈ parts)
    (hlabel : (part.label? declarations names).isSome) : part.source ≠ [] := by
  have htext : ∀ {written : List Char},
      ((Construct.text written).label? declarations names).isSome → written ≠ [] := by
    rintro written hsome rfl
    exact nomatch hsome
  have hstart : ∀ {written rest : List Char} {tag attributes closed},
      IsStartTagOf written rest tag attributes closed → written ≠ [] := by
    rintro written rest tag attributes closed ⟨c, inner, rfl, -⟩
    exact List.cons_ne_nil _ _
  induction h with
  | nil => exact nomatch hpart
  | text hne _ _ _ ih =>
      rcases List.mem_cons.1 hpart with rfl | hpart
      · exact hne
      · exact ih hpart
  | comment _ _ ih =>
      rcases List.mem_cons.1 hpart with rfl | hpart
      · exact nomatch hlabel
      · exact ih hpart
  | declaration hdeclaration _ ih =>
      rcases List.mem_cons.1 hpart with rfl | hpart
      · obtain ⟨c, after, rfl, -⟩ := hdeclaration.begins
        exact List.cons_ne_nil _ _
      · exact ih hpart
  | endTag _ _ ih =>
      rcases List.mem_cons.1 hpart with rfl | hpart
      · exact nomatch hlabel
      · exact ih hpart
  | leaf htag _ _ ih =>
      rcases List.mem_cons.1 hpart with rfl | hpart
      · exact hstart htag
      · exact ih hpart
  | startTag htag _ _ _ ih =>
      rcases List.mem_cons.1 hpart with rfl | hpart
      · exact hstart htag
      · exact ih hpart
  -- Raw text is three parts: its start tag, the text and the end tag.
  | rawText htag _ _ _ _ ih =>
      rcases List.mem_cons.1 hpart with rfl | hpart
      · exact hstart htag
      · rcases List.mem_cons.1 hpart with rfl | hpart
        · exact htext hlabel
        · rcases List.mem_cons.1 hpart with rfl | hpart
          · exact nomatch hlabel
          · exact ih hpart

/-- The nodes that begin at the parts of a text begin one after the other. Each part takes some
room, so no two nodes begin at the same place. -/
theorem Divided.inSource (h : Divided cs parts) (declarations : Bool) :
    Entry.InSource cs parts (entries declarations [] 0 parts) := by
  have hsublist := entries_sublist declarations parts [] 0
  have hlocated : ∀ e ∈ entries declarations [] 0 parts,
      (e.start, e.part) ∈ Construct.located 0 parts :=
    fun e he => hsublist.subset (List.mem_map_of_mem he)
  have hbefore : ∀ e ∈ entries declarations [] 0 parts, ∃ before after,
      parts = before ++ e.part :: after ∧ e.start = (before.flatMap Construct.source).length := by
    intro e he
    obtain ⟨before, after, hparts, hstart⟩ := exists_of_mem_located parts 0 _ (hlocated e he)
    exact ⟨before, after, hparts, hstart.trans (Nat.zero_add _)⟩
  refine ⟨?_, fun e he => ?_, fun e he s hs => ?_, fun e he p hp hne => ?_⟩
  · have hpairwise := List.pairwise_map.1 ((pairwise_located parts 0).sublist hsublist)
    refine hpairwise.imp_of_mem fun {e e'} he _ hle => ?_
    -- The part of the first node takes some room before the second one begins.
    obtain ⟨names, hlabel⟩ := exists_label?_of_mem declarations parts [] 0 e he
    obtain ⟨before, after, hparts, -⟩ := hbefore e he
    have hne := h.source_ne_nil (hparts ▸ List.mem_append_right _ List.mem_cons_self)
      (hlabel ▸ rfl : (e.part.label? declarations names).isSome)
    have hpos := List.length_pos_iff.2 hne
    dsimp only at hle
    omega
  · obtain ⟨before, after, hparts, hstart⟩ := hbefore e he
    refine ⟨before.flatMap Construct.source, after.flatMap Construct.source, ?_, hstart.symm⟩
    rw [← h.flatMap_source]
    conv => lhs; rw [hparts]
    rw [List.flatMap_append, List.flatMap_cons]
  · obtain ⟨names, hlabel⟩ := exists_label?_of_mem declarations parts [] 0 e he
    exact (toList_of_label? hlabel hs).1
  · exact disjoint_located hp (hlocated e he) hne

end Entries

/-- A walk over the nodes of a parsed fragment or document comes to each node of the arena once.
Every child stands before its parent, and no text is blank. The nodes that the walk comes to are
those that begin at the parts of the source, in this order and at the depth of the elements that are
open there; their texts are what is written at different places of the source, apart from all other
parts. -/
theorem walk_of_parse (declarations : Bool) (s : String) (region : Nat) (forest : List Tree)
    (h : (if declarations then parseDocument s else parseFragment s) = .ok forest) :
    let (roots, a) := (Arena.empty region).plantAll forest
    ((a.walk roots).map Prod.fst).Perm ((List.range a.size).map (NodeId.mk region)) ∧
      a.WellFormed ∧
      (∀ id written, a.get? id = some (.text written) → isBlankText written.toList = false) ∧
      ∃ parts, Divided s.toList parts ∧
        let found := entries declarations [] 0 parts
        (a.walk roots).map (·.2.label) = found.map Entry.label ∧
          Tree.outlineAll 0 forest = found.map Entry.place ∧
          Entry.InSource s.toList parts found := by
  obtain ⟨tokens, htokens, rfl⟩ : ∃ tokens, tokenize s = .ok tokens ∧
      forestOfTokens declarations tokens = forest := by
    have hboth : (tokenize s).map (forestOfTokens declarations) = .ok forest := by
      cases declarations
      · exact h
      · exact h
    rcases htokens : tokenize s with e | tokens
    · rw [htokens] at hboth
      exact nomatch hboth
    · rw [htokens] at hboth
      exact ⟨tokens, rfl, Except.ok.inj hboth⟩
  obtain ⟨parts, hdivided, htells⟩ := exists_divided_of_tokenize htokens
  have houtline := htells.outline_forest declarations
  generalize forestOfTokens declarations tokens = forest at houtline ⊢
  have hperm := Arena.perm_walk_plantAll region forest
  have hwell := Arena.wellFormed.plantAll (Arena.wellFormed_empty region) forest
  have hlabels := Arena.map_label_walk (Arena.tree?_plantAll (Arena.empty region) forest) 0
  rw [houtline, List.map_map] at hlabels
  refine ⟨hperm, hwell.1, fun id written hget => ?_, parts, hdivided, hlabels, houtline,
    hdivided.inSource declarations⟩
  -- A text of the arena is visited, and thus one that begins at a part of the source.
  have hvisited := Arena.mem_walk_of_get? (Arena.region_plantAll _ forest) hperm hget
  have hlabel := List.mem_map_of_mem (f := fun p : NodeId × Node => p.2.label) hvisited
  rw [hlabels] at hlabel
  obtain ⟨e, he, hwritten⟩ := List.mem_map.1 hlabel
  have htext : e.label = .text written := hwritten
  obtain ⟨names, hpart⟩ := exists_label?_of_mem declarations parts [] 0 e he
  exact (toList_of_label? hpart (.inl htext)).2 htext

/-- Elements that are not closed, or closed with the one around them, an end tag of no element, a
comment and raw text. -/
def unclosedSource : String := "a<p>b<i>c</p></b><!--d--><script>x<y</script> e"

/-- The trees of the source. -/
def unclosedForest : List Tree :=
  [.text "a", .element "p" [] none [.text "b", .element "i" [] none [.text "c"]],
    .element "script" [] none [.text "x<y"], .text " e"]

theorem walk_of_parse_unclosed :
    parseFragment unclosedSource = .ok unclosedForest ∧
      ∃ parts, Divided unclosedSource.toList parts ∧
        (entries false [] 0 parts).map Entry.place =
          [(0, .text "a"), (0, .element "p" []), (1, .text "b"), (1, .element "i" []),
            (2, .text "c"), (0, .element "script" []), (1, .text "x<y"), (0, .text " e")] := by
  have hparse : parseFragment unclosedSource = .ok unclosedForest := by rfl
  obtain ⟨-, -, -, parts, hdivided, -, houtline, -⟩ :=
    walk_of_parse false unclosedSource 0 unclosedForest hparse
  exact ⟨hparse, parts, hdivided, houtline.symm⟩

end Stencil.Markup
