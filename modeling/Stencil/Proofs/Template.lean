import Stencil.Proofs.Markup.Shape
import Stencil.Proofs.Markup.Stored
import Stencil.Proofs.Render.Balance

/-!
# Nodes of parsed templates

## Main definitions

* `Template.Parsed` — templates of sources
* `Template.Within` — a node is in a template, in raw text or not

## Main results

* `Template.Parsed.made` — start tags of parsed templates can be read, and their raw text is text
* `Template.made_below` — the same of the nodes below one, with the texts that are there
-/

namespace Stencil

open Markup

namespace Markup

/-- Parsed trees are made of readable start tags and any text, which is where the conditions on the
output begin. -/
theorem Tree.Shaped.made {t : Tree} (h : t.Shaped) : t.Made (fun _ _ => True) IsStartTag false := by
  induction h with
  | text s => exact .text trivial
  | raw s => exact .raw s
  | @element tag attributes children hstart hraw _ ih =>
      refine .element hstart (fun e => ?_) fun t ht => ?_
      · rcases hraw e with rfl | ⟨s, rfl⟩
        · exact Nat.zero_le 1
        · exact Nat.le_refl 1
      · cases htag : isRawText tag with
        | false => exact ih t ht
        | true =>
            rcases hraw htag with rfl | ⟨s, rfl⟩
            · exact nomatch ht
            · exact List.mem_singleton.1 ht ▸ .text trivial

end Markup

namespace Template

/-- Templates of sources. -/
def Parsed (t : Template) : Prop := ∃ region file source, parse region file source = .ok t

/-- A node is in a template; `raw` tells whether the element around it has raw text. In raw text
nothing is escaped when it is printed. -/
inductive Within (t : Template) : (raw : Bool) → NodeId → Prop where
  | root {id : NodeId} : id ∈ t.roots → Within t false id
  | child {raw : Bool} {parent id : NodeId} {e : Element} : Within t raw parent →
      t.element? parent = some e → id ∈ e.children → Within t (isRawText e.tag) id

variable {t : Template} {raw : Bool} {id : NodeId} {e : Element}

theorem get?_of_element? (h : t.element? id = some e) : t.arena.get? id = some (.element e) := by
  obtain ⟨node, hget, hnode⟩ := Option.bind_eq_some_iff.1 h
  cases node with
  | element e' =>
      obtain rfl : e' = e := Option.some.inj hnode
      exact hget
  | text s => exact nomatch hnode
  | raw s => exact nomatch hnode

theorem element?_of_get? (h : t.arena.get? id = some (.element e)) : t.element? id = some e := by
  rw [element?, Arena.element?, h]
  rfl

/-- Templates of libraries are those of sources. -/
theorem parsed_of_load {lib : Library} {file : String} (h : (lib.load file).1 = .ok t) :
    t.Parsed := by
  obtain ⟨source, hparse⟩ := (lib.load file).2.kept.parsed file t (Library.get?_of_load h)
  exact ⟨t.region, file, source, hparse⟩

/-- The start tags of a parsed template can be read, and its raw text is text, wherever in the
template the node is. -/
theorem Parsed.made (ht : t.Parsed) (h : t.Within raw id) :
    t.arena.Made (fun _ _ => True) IsStartTag raw id := by
  induction h with
  | root hmem =>
      obtain ⟨region, file, source, hparse⟩ := ht
      obtain ⟨body, forest, -, hdocument, -, hplant⟩ := exists_of_parse hparse
      have hshaped := shaped_of_parseDocument hdocument
      have hall := (Arena.made_plantAll (Arena.empty region) forest
        fun tree hm => (hshaped tree hm).made).2
      rw [← hplant] at hall
      exact hall _ hmem
  | child _ he hmem ih => exact (ih.of_element (get?_of_element? he)).2.2.2 _ hmem

theorem Parsed.of_element (ht : t.Parsed) (h : t.Within raw id) (he : t.element? id = some e) :
    raw = false ∧ IsStartTag e.tag e.attributes ∧
      (isRawText e.tag = true → e.children.length ≤ 1) ∧
      ∀ child ∈ e.children, t.Within (isRawText e.tag) child := by
  obtain ⟨hraw, hstart, hlength, -⟩ := (ht.made h).of_element (get?_of_element? he)
  exact ⟨hraw, hstart, hlength, fun child hmem => .child h he hmem⟩

/-- What is below some nodes is made of the texts there. With it a copy is known to have no other
texts than what it was copied from. -/
theorem made_below {ids : List NodeId} (hbelow : t.Below ids id)
    {start : String → List (String × String) → Prop}
    (h : t.arena.Made (fun _ _ => True) start raw id) :
    t.arena.Made (fun _ s => ∃ leaf, t.Below ids leaf ∧ t.arena.get? leaf = some (.text s)) start
      raw id := by
  induction h with
  | @text _ id s hget _ => exact .text hget ⟨id, hbelow, hget⟩
  | raw hget => exact .raw hget
  | element hget hstart hlength _ ih =>
      refine .element hget hstart hlength fun child hmem => ih child hmem ?_
      exact .child hbelow (element?_of_get? hget) hmem

end Template
end Stencil
