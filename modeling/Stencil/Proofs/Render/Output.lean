import Stencil.Proofs.Attribute
import Stencil.Proofs.Interpolation
import Stencil.Proofs.Render.Course
import Stencil.Proofs.Template

/-!
# What the output of a render is made of

## Main definitions

* `Render.Evaluated`, `Render.Copied` — where a text of the output comes from
* `Context.Sound` — contexts whose slots hold output that is made as all of it
* `Render.Yields` — a piece with such output

## Main results

* `Render.yields_nodes` — siblings of a parsed template yield texts that were evaluated or copied,
  and start tags that can be read
* `Render.made_template` — so does a whole template

## Design notes

The text of an element and its place in the output meet in the tag of the innermost output element:
it is the tag of the element around the text in the template, too, because raw text holds no
elements.  One lemma for each construct says so, over a walk for which it is true already, and the
depth of nesting is the only induction.
-/

namespace Stencil

open Markup Interpolation

namespace Render

/-- The parts of a text that the render comes to, with the values of its expressions there; `raw`
tells whether the element around it in its template has raw text. -/
inductive Evaluated (task : Task) (c₀ : Context) : (raw : Bool) → List Part → Prop where
  | intro {depth : Nat} {t : Template} {node : NodeId} {c : Context} {raw : Bool} {source : String}
      {parts : List Part} :
      Reaches task c₀ (.node depth t node) c → t.Parsed → t.Within raw node →
      t.arena.get? node = some (.text source) → Parts c.functions c.scope source parts →
      Evaluated task c₀ raw parts

/-- A text at or below an element that the render comes to and that is to be left as it is. Such
texts reach the page without an evaluation. -/
inductive Copied (task : Task) (c₀ : Context) : String → Prop where
  | intro {depth : Nat} {t : Template} {id leaf : NodeId} {e : Element} {c : Context} {s : String} :
      Reaches task c₀ (.once depth t id e) c → t.Parsed → t.element? id = some e →
      e.has "v-pre" = true → t.Below [id] leaf → t.arena.get? leaf = some (.text s) →
      Copied task c₀ s

/-- Where a text of the output comes from. -/
def TextOrigin (task : Task) (c₀ : Context) (raw : Bool) (s : String) : Prop :=
  Copied task c₀ s ∨
    ∃ parts, Evaluated task c₀ raw parts ∧ s.toList = fill id (valueChars (!raw)) parts

end Render

/-- Content that is made as all output, or that is in a parsed template. -/
def SlotContent.Sound (text : Bool → String → Prop) (out : Arena) : SlotContent → Prop
  | .nodes ids => ∀ id ∈ ids, out.Made text IsStartTag false id
  | .scoped t id _ => t.Parsed ∧ ∀ e, t.element? id = some e → ∀ child ∈ e.children,
      t.Within false child

/-- All content that an include passes is sound. -/
def SlotScope.Sound (text : Bool → String → Prop) (out : Arena) (slots : SlotScope) : Prop :=
  ∀ name content, Dict.get? slots name = some content → content.Sound text out

/-- Contexts whose slots hold output that is made as all of it; `raw` tells whether the innermost
output element has raw text. -/
structure Context.Sound (text : Bool → String → Prop) (raw : Bool) (c : Context) : Prop where
  slots : ∀ slots ∈ c.slots, slots.Sound text c.out
  raw : (c.tags.head?.map isRawText).getD false = raw

section Sound

variable {text : Bool → String → Prop} {raw : Bool} {c c' : Context} {names : String → Prop}

/-- Slot content stays sound while the output grows: nodes that are made are never changed. -/
theorem SlotContent.Sound.extends {out out' : Arena} {content : SlotContent}
    (h : content.Sound text out) (hout : out.Extends out') : content.Sound text out' := by
  rcases content with ids | ⟨t, id, binding⟩
  · exact fun id hid => (h id hid).extends hout
  · exact h

/-- So does all content that an include passes. -/
theorem SlotScope.Sound.extends {out out' : Arena} {slots : SlotScope} (h : slots.Sound text out)
    (hout : out.Extends out') : slots.Sound text out' :=
  fun name content hget => (h name content hget).extends hout

namespace Context.Sound

/-- Whatever keeps the balance keeps a context sound. -/
theorem balanced (h : c.Sound text raw) (hb : c.Balanced names c') : c'.Sound text raw where
  slots slots hmem := (h.slots slots (hb.slots ▸ hmem)).extends hb.out
  raw := hb.tags ▸ h.raw

/-- A frame of variables does not touch the slots. -/
theorem inFrame (h : c.Sound text raw) (frame : Frame) : (c.inFrame frame).Sound text raw :=
  ⟨h.slots, h.raw⟩

/-- The files that are entered do not touch the slots. -/
theorem inFile (h : c.Sound text raw) (file : String) : (c.inFile file).Sound text raw :=
  ⟨h.slots, h.raw⟩

/-- Below a tag the texts are raw exactly if the tag is one of raw text. -/
theorem inTag (h : c.Sound text raw) (tag : String) : (c.inTag tag).Sound text (isRawText tag) :=
  ⟨h.slots, rfl⟩

/-- New slot content may be passed if it is sound for the output so far. -/
theorem inSlots (h : c.Sound text raw) {slots : SlotScope} (hslots : slots.Sound text c.out) :
    (c.inSlots slots).Sound text raw :=
  ⟨List.forall_mem_cons.2 ⟨hslots, h.slots⟩, h.raw⟩

/-- Outside of the innermost slot scope there is less content, and all of it is sound. -/
theorem outside (h : c.Sound text raw) : c.outside.Sound text raw :=
  ⟨fun slots hmem => h.slots slots (List.mem_of_mem_tail hmem), h.raw⟩

end Context.Sound

end Sound

namespace Render

/-- A piece whose output is made of given texts and start tags that can be read, in raw text of no
more than some nodes. -/
def Yields (text : Bool → String → Prop) (raw : Bool) (bound : Nat) (act : Render (List NodeId))
    (c : Context) : Prop :=
  ∀ ids c', act.run c = (.ok ids, c') →
    (∀ id ∈ ids, c'.out.Made text IsStartTag raw id) ∧ (raw = true → ids.length ≤ bound)

variable {α : Type} {text : Bool → String → Prop} {raw : Bool} {c c' c'' : Context}

/-- A piece that only reads keeps a context sound. -/
theorem Readonly.sound {act : Render α} (h : Readonly act) {result : Except Halt α}
    (hrun : act.run c = (result, c')) (hc : c.Sound text raw) : c'.Sound text raw :=
  have hkeeps : Keeps (fun _ => False) act := h.keeps
  hc.balanced (hkeeps.balanced hrun)

/-- A piece that gives the context back keeps it sound: the output has only grown, and the slots and
tags are the old ones. -/
theorem Keeps.sound {names : String → Prop} {act : Render α} (h : Keeps names act)
    {result : Except Halt α} (hrun : act.run c = (result, c')) (hc : c.Sound text raw) :
    c'.Sound text raw :=
  hc.balanced (h.balanced hrun)

/-- Outside of raw text the number of nodes does not matter. -/
theorem yields_of_made {bound : Nat} {act : Render (List NodeId)}
    (h : ∀ ids c', act.run c = (.ok ids, c') →
      ∀ id ∈ ids, c'.out.Made text IsStartTag false id) : Yields text false bound act c :=
  fun ids c' hrun => ⟨h ids c' hrun, fun e => nomatch e⟩

/-- What renders nothing yields nothing. -/
theorem yields_nil {bound : Nat} : Yields text raw bound (pure []) c := by
  intro ids c' hrun
  obtain ⟨rfl, rfl⟩ := Act.of_run_pure hrun
  exact ⟨by simp, fun _ => Nat.zero_le bound⟩

/-- A node of the output that was just made. -/
theorem yields_allocated {node : Node}
    (h : (c.out.push node).2.Made text IsStartTag raw (c.out.push node).1) :
    Yields text raw 1 (do return [← allocate node]) c := by
  intro ids c' hrun
  rw [run_allocated, Prod.mk.injEq, Except.ok.injEq] at hrun
  obtain ⟨rfl, rfl⟩ := hrun
  exact ⟨fun id hid => List.mem_singleton.1 hid ▸ h, fun _ => Nat.le_refl 1⟩

/-- What is evaluated between two changes of the context that leave the output alone. -/
theorem Yields.within {enter leave : Context → Context} {act : Render (List NodeId)} {bound : Nat}
    (h : Yields text raw bound act (enter c)) (hleave : ∀ c, (leave c).out = c.out) :
    Yields text raw bound (within enter leave act) c := by
  intro ids c' hrun
  obtain ⟨c₁, hact, rfl⟩ := exists_of_run_within hrun
  rw [hleave]
  exact h ids c₁ hact

/-- A piece in a frame of variables yields what it yields by itself. -/
theorem Yields.withFrame {frame : Frame} {act : Render (List NodeId)} {bound : Nat}
    (h : Yields text raw bound act (c.inFrame frame)) :
    Yields text raw bound (withFrame frame act) c :=
  Yields.within h fun _ => rfl

/-- A piece to which slot content is passed yields what it yields in the context with that content.
-/
theorem Yields.withSlots {slots : SlotScope} {act : Render (List NodeId)} {bound : Nat}
    (h : Yields text raw bound act (c.inSlots slots)) :
    Yields text raw bound (withSlots slots act) c :=
  Yields.within h fun _ => rfl

/-- Content of a slot yields what it yields outside of the slot scope it was passed in. -/
theorem Yields.outsideSlots {act : Render (List NodeId)} {bound : Nat}
    (h : Yields text raw bound act c.outside) (own : SlotScope) :
    Yields text raw bound (outsideSlots own act) c :=
  Yields.within h fun _ => rfl

/-- A piece of another file yields what it yields in the context that has entered the file. -/
theorem Yields.withFile {file : String} {act : Render (List NodeId)} {bound : Nat}
    (h : Yields text raw bound act (c.inFile file)) :
    Yields text raw bound (withFile file act) c :=
  Yields.within (fun ids c' hrun => h ids c' (of_run_annotated hrun)) fun _ => rfl

/-- A bound on the number of nodes may be relaxed; it only counts where the texts are raw. -/
theorem Yields.mono {bound bound' : Nat} {act : Render (List NodeId)}
    (h : Yields text raw bound act c) (hbound : raw = true → bound ≤ bound') :
    Yields text raw bound' act c :=
  fun ids c' hrun =>
    ⟨(h ids c' hrun).1, fun hraw => ((h ids c' hrun).2 hraw).trans (hbound hraw)⟩

/-- What stood in the output before another piece stands before what that piece adds. -/
theorem Yields.append {here : List NodeId} {act : Render (List NodeId)} {bound : Nat}
    {names : String → Prop} (hhere : ∀ id ∈ here, c.out.Made text IsStartTag raw id)
    (hfew : raw = true → here.length ≤ 1) (hkeeps : Keeps names act)
    (h : Yields text raw bound act c) :
    Yields text raw (bound + 1) (do return here ++ (← act)) c := by
  intro ids c' hrun
  obtain ⟨others, c₁, hothers, hrun⟩ := Act.exists_of_run_bind hrun
  obtain ⟨rfl, rfl⟩ := Act.of_run_pure hrun
  obtain ⟨hmade, hlength⟩ := h others c₁ hothers
  have hout := (hkeeps.balanced hothers).out
  refine ⟨List.forall_mem_append.2 ⟨fun id hid => (hhere id hid).extends hout, hmade⟩, ?_⟩
  intro hraw
  rw [List.length_append, Nat.add_comm]
  exact Nat.add_le_add (hlength hraw) (hfew hraw)

/-! ### Nodes without other nodes -/

section Leaves

variable {start : Task} {c₀ : Context} {depth : Nat} {t : Template} {id : NodeId}

/-- A text node of a template yields one text of the output, and that text is the source
interpolated in the context the page has there. -/
theorem yields_text {source : String} (hreach : Reaches start c₀ (.node depth t id) c)
    (ht : t.Parsed) (hwithin : t.Within raw id) (hget : t.arena.get? id = some (.text source))
    (hc : c.Sound (TextOrigin start c₀) raw) :
    Yields (TextOrigin start c₀) raw 1 (Render.text source) c := by
  unfold Render.text
  split
  · intro ids c' hrun
    rw [Act.run_get_bind] at hrun
    obtain ⟨s, c₁, hs, hrun⟩ := Act.exists_of_run_bind hrun
    obtain ⟨parts, hparts, hfill⟩ := exists_parts (of_run_evaluate hs).1
    -- The evaluator asks for the innermost tag, which is that of the element around the text.
    rw [hc.raw] at hfill
    have horigin : TextOrigin start c₀ raw s :=
      .inr ⟨parts, .intro hreach ht hwithin hget hparts, hfill⟩
    exact yields_allocated (.text (Arena.get?_push_self _ _) horigin) ids c' hrun
  · rename_i hin
    have hparts : Parts c.functions c.scope source [.static source.toList] :=
      parts_of_not_isIn (Bool.not_eq_true _ ▸ hin)
    have horigin : TextOrigin start c₀ raw source :=
      .inr ⟨_, .intro hreach ht hwithin hget hparts, by simp [fill, Part.chars]⟩
    exact yields_allocated (.text (Arena.get?_push_self _ _) horigin)

/-- What is left as it is yields a copy of its tree, whose texts are texts of the template. No value
is in it, so nothing in it has to be escaped as one. -/
theorem yields_copy {e : Element} (hreach : Reaches start c₀ (.once depth t id e) c)
    (ht : t.Parsed) (hwithin : t.Within false id) (he : t.element? id = some e)
    (hpre : e.has "v-pre" = true) :
    Yields (TextOrigin start c₀) false 1 (copy t id) c' := by
  refine yields_of_made fun ids c'' hrun => ?_
  rw [run_copy] at hrun
  rcases hcopy : c'.out.deepCopy? t.arena id with _ | ⟨copied, out⟩
  · rw [hcopy] at hrun
    exact nomatch congrArg Prod.fst hrun
  · rw [hcopy, Prod.mk.injEq, Except.ok.injEq] at hrun
    obtain ⟨rfl, rfl⟩ := hrun
    obtain ⟨tree, htree, hplant⟩ := Option.map_eq_some_iff.1 hcopy
    have hbelow := Template.made_below (.here (List.mem_singleton_self id)) (ht.made hwithin)
    have horigin : ∀ raw s, (∃ leaf, t.Below [id] leaf ∧ t.arena.get? leaf = some (.text s)) →
        TextOrigin start c₀ raw s := by
      rintro raw s ⟨leaf, hleaf, hget⟩
      exact .inl (.intro hreach ht he hpre hleaf hget)
    have hmade := (hbelow.mono horigin).tree htree
    have hplanted := Arena.made_plant c'.out tree hmade
    rw [hplant] at hplanted
    simpa using hplanted

end Leaves

/-! ### Elements -/

/-- The attributes of an output element are named as in the template, but for `style`. -/
theorem named_attributesOf {e : Element} {attributes : Attributes}
    (hnames : Attribute.Named e.attributes)
    (hrun : (attributesOf e).run c = (.ok attributes, c')) : Attribute.Named attributes := by
  obtain ⟨evaluated, c₁, heval, hrun⟩ := Act.exists_of_run_bind hrun
  have hnamed := isAttributeName_of_evalAttributes hnames (of_run_evaluate heval).1
  split at hrun
  · obtain ⟨shown, c₂, -, hrun⟩ := Act.exists_of_run_bind hrun
    obtain ⟨rfl, -⟩ := Act.of_run_pure hrun
    cases shown with
    | true => exact hnamed
    | false => exact isAttributeName_hide hnamed
  · obtain ⟨rfl, -⟩ := Act.of_run_pure hrun
    exact hnamed

/-- A walk yields sound output wherever the render comes to it. -/
def WalkYields (start : Task) (c₀ : Context) (depth : Nat) : Prop :=
  ∀ {t ids c raw}, Reaches start c₀ (.siblings depth t ids) c → t.Parsed →
    (∀ id ∈ ids, t.Within raw id) → c.Sound (TextOrigin start c₀) raw →
    Yields (TextOrigin start c₀) raw ids.length (nodes depth t ids) c

section Elements

variable {start : Task} {c₀ : Context} {depth : Nat}
variable (hwalk : WalkYields start c₀ depth)
variable {t : Template} {id : NodeId} {e : Element}
variable (ht : t.Parsed) (hwithin : t.Within false id) (he : t.element? id = some e)

include hwalk ht hwithin he in
/-- An element of the output has the tag and the attributes that its start tag was evaluated to, and
children that are made like all output. -/
theorem yields_element (hreach : Reaches start c₀ (.element depth t e) c)
    (hc : c.Sound (TextOrigin start c₀) false) :
    Yields (TextOrigin start c₀) false 1 (element (nodes depth) t e) c := by
  refine yields_of_made fun ids c' hrun => ?_
  obtain ⟨-, hstart, hlength, hchildren⟩ := ht.of_element hwithin he
  obtain ⟨payload, c₁, hpayload, hrun⟩ := Act.exists_of_run_bind hrun
  obtain ⟨attributes, c₂, hattributes, hrun⟩ := Act.exists_of_run_bind hrun
  have hnew : IsStartTag e.tag attributes :=
    ⟨hstart.tag, named_attributesOf hstart.names hattributes⟩
  have hdone : ∀ {children c₃},
      (∀ child ∈ children,
        c₃.out.Made (TextOrigin start c₀) IsStartTag (isRawText e.tag) child) →
      (isRawText e.tag = true → children.length ≤ 1) →
      Yields (TextOrigin start c₀) false 1
        (do return [← allocate (.element ⟨e.tag, attributes, children, payload⟩)]) c₃ := by
    intro children c₃ hall hfew
    refine yields_allocated ?_
    refine .element (Arena.get?_push_self _ _) hnew hfew fun child hchild => ?_
    exact (hall child hchild).extends (Arena.extends_push _ _)
  cases payload with
  | some payload => exact (hdone (by simp) (by simp) ids c' hrun).1
  | none =>
      obtain ⟨children, c₃, htag, hrun⟩ := Act.exists_of_run_bind hrun
      obtain ⟨c₄, hinner, hleave⟩ := exists_of_run_within htag
      have hout : c₄.out = c₃.out := (congrArg Context.out hleave).symm
      have hc₁ : c₁.Sound (TextOrigin start c₀) false :=
        (readonly_payload? e).sound hpayload hc
      have hc₂ : c₂.Sound (TextOrigin start c₀) false :=
        (readonly_attributesOf e).sound hattributes hc₁
      -- The children are evaluated with the tag of the element innermost, as they are placed.
      obtain ⟨hall, hfew⟩ := hwalk (hreach.step (.children hpayload hattributes)) ht hchildren
        (hc₂.inTag e.tag) children c₄ hinner
      rw [hout] at hall
      exact (hdone hall (fun hraw => (hfew hraw).trans (hlength hraw)) ids c' hrun).1

include hwalk ht hwithin he in
/-- A `template` element yields its children, or a single node of raw markup in place of them. It
gives no element of its own, whatever its attributes are. -/
theorem yields_wrapper (htag : e.tag = "template")
    (hreach : Reaches start c₀ (.wrapper depth t e) c)
    (hc : c.Sound (TextOrigin start c₀) false) :
    Yields (TextOrigin start c₀) false 1 (wrapper (nodes depth) t e) c := by
  refine yields_of_made fun ids c' hrun => ?_
  obtain ⟨-, -, -, hchildren⟩ := ht.of_element hwithin he
  rw [htag] at hchildren
  obtain ⟨⟨⟩, c₁, hrequire, hrun⟩ := Act.exists_of_run_bind hrun
  obtain ⟨⟨⟩, c₂, hset, hrun⟩ := Act.exists_of_run_bind hrun
  obtain ⟨html?, c₃, hhtml, hrun⟩ := Act.exists_of_run_bind hrun
  have hc₁ := (readonly_require _).sound hrequire hc
  have hc₂ := (keeps_setBindings fun _ hm => hm).sound hset hc₁
  have hc₃ := (readonly_directive? e "v-html").sound hhtml hc₂
  cases html? with
  | some html =>
      exact (yields_allocated (.raw (Arena.get?_push_self _ _)) ids c' hrun).1
  | none =>
      exact (hwalk (hreach.step (.wrapper hrequire hset hhtml)) ht hchildren hc₃ ids c' hrun).1

include hwalk ht hwithin he in
/-- Content of a slot is sound where it was written, and stays so where the slot is. Content that is
evaluated late is evaluated in the template that it is in. -/
theorem yields_slot (htag : e.tag = "slot") (hreach : Reaches start c₀ (.slot depth t e) c)
    (hc : c.Sound (TextOrigin start c₀) false) :
    Yields (TextOrigin start c₀) false 1 (slot (nodes depth) t e) c := by
  refine yields_of_made fun ids c' hrun => ?_
  obtain ⟨-, -, -, hchildren⟩ := ht.of_element hwithin he
  rw [htag] at hchildren
  obtain ⟨found, c₁, hpassed, hrun⟩ := Act.exists_of_run_bind hrun
  have hfound := (run_passed? _ c).symm.trans hpassed
  rw [Prod.mk.injEq, Except.ok.injEq] at hfound
  obtain ⟨hfound, rfl⟩ := hfound
  rcases found with _ | ⟨own, content⟩
  · exact (hwalk (hreach.step (.fallback hpassed)) ht hchildren hc ids c' hrun).1
  · have hcontent : content.Sound (TextOrigin start c₀) c.out := by
      cases hslots : c.slots with
      | nil => exact nomatch hslots ▸ hfound
      | cons first rest =>
          rw [hslots] at hfound
          obtain ⟨content', hget, hpair⟩ := Option.map_eq_some_iff.1 hfound
          obtain ⟨rfl, rfl⟩ := Prod.mk.inj hpair
          exact hc.slots first (hslots ▸ List.mem_cons_self) _ _ hget
    -- Output was placed outside of raw text already; a place in a template still has to be.
    rcases content with nodes | ⟨definer, place, binding⟩
    · obtain ⟨rfl, rfl⟩ := Act.of_run_pure hrun
      exact hcontent
    · obtain ⟨frame, c₂, hframe, hrun⟩ := Act.exists_of_run_bind hrun
      have hc₂ := (readonly_properties e.attributes []).sound hframe hc
      cases hdefiner : definer.element? place with
      | none =>
          rw [hdefiner] at hrun
          have hnil : Yields (TextOrigin start c₀) false 1 (pure []) c₂ := yields_nil
          exact (hnil ids c' hrun).1
      | some inner =>
          rw [hdefiner] at hrun
          have hinner := hwalk (hreach.step (.content hpassed hframe hdefiner)) hcontent.1
            (hcontent.2 inner hdefiner) (hc₂.outside.inFrame _)
          exact (hinner.withFrame.outsideSlots own ids c' hrun).1

include ht hwithin he in
/-- The content that an include defines is sound by its source: it is not rendered yet, but stays a
part of a parsed template. -/
theorem sound_definedSlots (out : Arena) :
    (definedSlots t e.children).Sound (TextOrigin start c₀) out := by
  intro name content hget
  obtain ⟨child, hchild, hfound⟩ := List.mem_filterMap.1 (Dict.mem_of_get?_ofPairs hget)
  obtain ⟨found, hdefinition, hpair⟩ := Option.map_eq_some_iff.1 hfound
  obtain ⟨rfl, rfl⟩ := Prod.mk.inj hpair
  obtain ⟨inner, hinner, hslot⟩ := Option.bind_eq_some_iff.1 hdefinition
  have htag : inner.tag = "template" := by
    unfold slotDefinition? at hslot
    split at hslot
    · rename_i htag
      exact beq_iff_eq.1 htag
    · exact nomatch hslot
  refine ⟨ht, fun other hother grandchild hgrandchild => ?_⟩
  obtain rfl : inner = other := Option.some.inj (hinner.symm.trans hother)
  have hwithin := (ht.of_element (.child hwithin he hchild) hinner).2.2.2 grandchild hgrandchild
  rw [htag] at hwithin
  exact hwithin

include hwalk ht hwithin he in
/-- What an include passes was evaluated in its own context, and is sound there before the component
is loaded. -/
theorem sound_includedSlots {file : String} {args : Frame} {slots : SlotScope} {c₁ c₂ : Context}
    (htag : e.tag = "vuego") (hreach : Reaches start c₀ (.include depth t e) c)
    (hfile : (interpolated ((e.get? "include").getD "")).run c = (.ok file, c₁))
    (hargs : (arguments [] e.attributes).run c₁ = (.ok args, c₂))
    (hc : c₂.Sound (TextOrigin start c₀) false)
    (hrun : (includedSlots (nodes depth) t e).run c₂ = (.ok slots, c')) :
    slots.Sound (TextOrigin start c₀) c'.out := by
  have hdefined : ∀ out, (definedSlots t e.children).Sound (TextOrigin start c₀) out :=
    sound_definedSlots ht hwithin he
  have hothers : ∀ child ∈ unnamedChildren t e, t.Within false child := by
    intro child hchild
    have hchild := (ht.of_element hwithin he).2.2.2 child (List.mem_filter.1 hchild).1
    rw [htag] at hchild
    exact hchild
  unfold includedSlots at hrun
  dsimp only at hrun
  split at hrun
  · obtain ⟨rfl, -⟩ := Act.of_run_pure hrun
    exact hdefined _
  · rename_i hsome
    have hne : unnamedChildren t e ≠ [] := fun h => hsome (List.isEmpty_iff.2 h)
    obtain ⟨ids, c₃, hids, hrun⟩ := Act.exists_of_run_bind hrun
    have hmade := (hwalk (hreach.step (.passing hfile hargs hne)) ht hothers hc ids c₃ hids).1
    split at hrun
    · obtain ⟨rfl, -⟩ := Act.of_run_pure hrun
      exact hdefined _
    · obtain ⟨rfl, rfl⟩ := Act.of_run_pure hrun
      intro name content hget
      rw [Dict.get?_insert] at hget
      split at hget
      · exact Option.some.inj hget ▸ hmade
      · exact hdefined _ name content hget

include hwalk ht hwithin he in
/-- An include yields what the roots of the component yield. The content it passes was rendered
before, or stays a part of its own template. -/
theorem yields_includeFile (htag : e.tag = "vuego")
    (hreach : Reaches start c₀ (.include depth t e) c)
    (hc : c.Sound (TextOrigin start c₀) false) :
    Yields (TextOrigin start c₀) false 1 (includeFile (nodes depth) t e) c := by
  refine yields_of_made fun ids c' hrun => ?_
  obtain ⟨file, c₁, hfile, hrun⟩ := Act.exists_of_run_bind hrun
  obtain ⟨args, c₂, hargs, hrun⟩ := Act.exists_of_run_bind hrun
  obtain ⟨slots, c₃, hslots, hrun⟩ := Act.exists_of_run_bind hrun
  obtain ⟨component, c₄, hload, hrun⟩ := Act.exists_of_run_bind hrun
  obtain ⟨body, c₅, hbody, hrun⟩ := Act.exists_of_run_bind hrun
  have hc₁ := (readonly_interpolated _).sound hfile hc
  have hc₂ := (readonly_arguments e.attributes []).sound hargs hc₁
  have hc₃ := (keeps_includedSlots (keeps_nodes depth) (t.sets_any e)).sound hslots hc₂
  have hpassed := sound_includedSlots hwalk ht hwithin he htag hreach hfile hargs hc₂ hslots
  have hgrown : c₃.Balanced (fun _ => False) c₄ := (keeps_load file).balanced hload
  have hcomponent : component.Parsed := Template.parsed_of_load (of_run_load hload)
  have hinner := hwalk (hreach.step (.included hfile hargs hslots hload)) hcomponent
    (fun _ hroot => .root hroot)
    ((((hc₃.balanced hgrown).inFile _).inSlots (hpassed.extends hgrown.out)).inFrame _)
  have hmade := (hinner.withFrame.withSlots.withFile body c₅ hbody).1
  split at hrun
  · refine (yields_allocated ?_ ids c' hrun).1
    obtain ⟨-, hstart, -, -⟩ := ht.of_element hwithin he
    have hnames : ∀ a ∈ keptAttributes e, IsAttributeName a.1 :=
      fun a ha => hstart.names a (List.mem_filter.1 ha).1
    have hraw : isRawText e.tag = false := htag ▸ by decide
    refine .element (Arena.get?_push_self _ _) ⟨hstart.tag, hnames⟩
      (fun h => absurd h (by rw [hraw]; decide)) fun child hchild => ?_
    rw [hraw]
    exact (hmade child hchild).extends (Arena.extends_push _ _)
  · obtain ⟨rfl, rfl⟩ := Act.of_run_pure hrun
    exact hmade

include hwalk ht hwithin he in
/-- An element yields what its construct yields, or nothing where it has been rendered before. An
element that is left as it is has no construct, and is copied. -/
theorem yields_nodeOnce (hreach : Reaches start c₀ (.once depth t id e) c)
    (hc : c.Sound (TextOrigin start c₀) false) :
    Yields (TextOrigin start c₀) false 1 (nodeOnce (nodes depth) t id e) c := by
  intro ids c' hrun
  obtain ⟨due, c₁, hdue, hrun⟩ := Act.exists_of_run_bind hrun
  have hkeeps : Keeps (fun _ => False) (isDue id e) := keeps_isDue
  have hc₁ := hkeeps.sound hdue hc
  cases due with
  | false => exact yields_nil ids c' hrun
  | true =>
      -- The construct that the element is evaluated as is told by its attributes and its tag, in
      -- this order.
      have hnext : ∀ {task}, construct? depth t e = some task → Reaches start c₀ task c₁ :=
        fun htask => hreach.step (.due hdue htask)
      split at hrun
      · exact yields_nil ids c' hrun
      split at hrun
      · rename_i hpre
        exact yields_copy hreach ht hwithin he hpre ids c' hrun
      rename_i hpre
      split at hrun
      · rename_i hinclude
        have htask : construct? depth t e = some (.include depth t e) := by
          rw [construct?, if_neg hpre, if_pos hinclude]
        rw [Bool.and_eq_true, beq_iff_eq] at hinclude
        exact yields_includeFile hwalk ht hwithin he hinclude.1 (hnext htask) hc₁ ids c' hrun
      rename_i hinclude
      split at hrun
      · rename_i htag
        have htask : construct? depth t e = some (.wrapper depth t e) := by
          rw [construct?, if_neg hpre, if_neg hinclude, if_pos htag]
        exact yields_wrapper hwalk ht hwithin he (beq_iff_eq.1 htag) (hnext htask) hc₁ ids c' hrun
      rename_i htemplate
      split at hrun
      · rename_i htag
        have htask : construct? depth t e = some (.slot depth t e) := by
          rw [construct?, if_neg hpre, if_neg hinclude, if_neg htemplate, if_pos htag]
        exact yields_slot hwalk ht hwithin he (beq_iff_eq.1 htag) (hnext htask) hc₁ ids c' hrun
      · rename_i htag
        have htask : construct? depth t e = some (.element depth t e) := by
          rw [construct?, if_neg hpre, if_neg hinclude, if_neg htemplate, if_neg htag]
        exact yields_element hwalk ht hwithin he (hnext htask) hc₁ ids c' hrun

include hwalk ht hwithin he in
/-- A loop yields what its entries yield, one after the other. Only elements loop, so the bound for
raw text is not at stake. -/
theorem yields_eachEntry {clause : LoopClause} {entries : List (Value × Value)}
    (hreach : Reaches start c₀ (.entries depth t id e clause entries) c)
    (hc : c.Sound (TextOrigin start c₀) false) :
    Yields (TextOrigin start c₀) false 1
      (eachEntry clause (nodeOnce (nodes depth) t id e) entries) c := by
  induction entries generalizing c with
  | nil => exact yields_nil
  | cons entry entries ih =>
      intro ids c' hrun
      obtain ⟨here, c₁, hhere, hrun⟩ := Act.exists_of_run_bind hrun
      have hbody := yields_nodeOnce hwalk ht hwithin he (hreach.step .entry) (hc.inFrame _)
      have hkeeps : Keeps (fun _ => True) (nodeOnce (nodes depth) t id e) :=
        keeps_nodeOnce (keeps_nodes depth) (t.sets_any e)
      have hframe : Keeps (fun _ => False)
          (withFrame (clause.frame entry.1 entry.2) (nodeOnce (nodes depth) t id e)) :=
        keeps_withFrame hkeeps _
      have hentries : Keeps (fun _ => False)
          (eachEntry clause (nodeOnce (nodes depth) t id e) entries) :=
        keeps_eachEntry hkeeps clause entries
      have hrest := ih (hreach.step (.afterEntry hhere)) (hframe.sound hhere hc)
      have happend := Yields.append (hbody.withFrame here c₁ hhere).1 (fun h => nomatch h)
        hentries hrest
      exact happend.mono (fun h => nomatch h) ids c' hrun

end Elements

/-! ### Siblings -/

section Siblings

variable {start : Task} {c₀ : Context} {depth : Nat} (hwalk : WalkYields start c₀ depth)
variable {t : Template} (ht : t.Parsed)

include hwalk ht in
/-- A node of a template yields what its kind does: a text, an element, a loop, or a comment and the
like copied as they are. -/
theorem yields_node {id : NodeId} (hwithin : t.Within raw id)
    (hreach : Reaches start c₀ (.node depth t id) c) (hc : c.Sound (TextOrigin start c₀) raw) :
    Yields (TextOrigin start c₀) raw 1 (node (nodes depth) t id) c := by
  unfold node
  split
  · intro ids c' hrun
    cases hrun
  · rename_i s hget
    exact yields_text hreach ht hwithin hget hc
  · rename_i s hget
    obtain rfl : raw = false := by
      cases hraw : raw with
      | false => rfl
      | true =>
          obtain ⟨text, htext, -⟩ := (ht.made (hraw ▸ hwithin)).exists_text
          cases htext.symm.trans hget
    exact yields_allocated (.raw (Arena.get?_push_self _ _))
  · rename_i e hget
    have he := Template.element?_of_get? hget
    obtain ⟨rfl, -⟩ := ht.of_element hwithin he
    split
    · rename_i source hfor
      intro ids c' hrun
      unfold loop at hrun
      split at hrun
      · cases hrun
      · rename_i clause hclause
        obtain ⟨value?, c₁, hvalue, hrun⟩ := Act.exists_of_run_bind hrun
        have hnext := hreach.step (.loop hget hfor hclause hvalue)
        have hc₁ := (readonly_collection? _).sound hvalue hc
        exact yields_eachEntry hwalk ht hwithin he hnext hc₁ ids c' hrun
    · rename_i hfor
      exact yields_nodeOnce hwalk ht hwithin he (hreach.step (.once hget hfor)) hc

include hwalk ht in
/-- A group of conditional siblings yields what the branch that holds yields, or nothing. -/
theorem yields_chain {ids : List NodeId} (hwithin : ∀ id ∈ ids, t.Within raw id)
    (hreach : Reaches start c₀ (.chain depth t ids) c)
    (hc : c.Sound (TextOrigin start c₀) raw) :
    Yields (TextOrigin start c₀) raw 1 (chain (node (nodes depth) t) t ids) c := by
  induction ids generalizing c with
  | nil => exact yields_nil
  | cons id ids ih =>
      obtain ⟨hid, hids⟩ := List.forall_mem_cons.1 hwithin
      intro roots c' hrun
      obtain ⟨found, c₁, hfound, hrun⟩ := Act.exists_of_run_bind hrun
      have hc₁ := (readonly_holds t id).sound hfound hc
      cases found with
      | true => exact yields_node hwalk ht hid (hreach.step (.holds hfound)) hc₁ roots c' hrun
      | false => exact ih hids (hreach.step (.fails hfound)) hc₁ roots c' hrun

include ht in
/-- In raw text there are neither conditions nor loops. -/
theorem role_eq_plain {id : NodeId} (hwithin : t.Within true id) :
    Siblings.role t id = .plain := by
  obtain ⟨s, hget, -⟩ := (ht.made hwithin).exists_text
  have helement : t.element? id = none := by
    rw [Template.element?, Arena.element?, hget]
    rfl
  have hhas : ∀ name, t.has id name = false := fun name => by
    rw [Template.has, helement]
    rfl
  simp [Siblings.role, hhas]

/-- The groups among later siblings yield sound output. -/
def RestYields (start : Task) (c₀ : Context) (depth : Nat) (t : Template) (bound : Nat) (raw : Bool)
    (ids : List NodeId) : Prop :=
  ∀ {rest c}, rest ⊆ ids → Reaches start c₀ (.groups depth t bound rest) c →
    c.Sound (TextOrigin start c₀) raw →
    Yields (TextOrigin start c₀) raw rest.length (groups (node (nodes depth) t) t bound rest) c

section Groups

variable {bound : Nat} {id : NodeId} {ids : List NodeId}
variable (hrest : RestYields start c₀ depth t bound raw ids)
variable (hid : t.Within raw id) (hids : ∀ other ∈ ids, t.Within raw other)
variable (hreach : Reaches start c₀ (.groups depth t (bound + 1) (id :: ids)) c)
variable (hc : c.Sound (TextOrigin start c₀) raw)

include hrest in
/-- What a group yields stands before what the groups after it yield. -/
theorem yields_after {here rest : List NodeId} {c₁ : Context}
    (hhere : ∀ id ∈ here, c₁.out.Made (TextOrigin start c₀) IsStartTag raw id)
    (hfew : raw = true → here.length ≤ 1) (hsub : rest ⊆ ids)
    (hlength : raw = true → rest.length ≤ ids.length)
    (hreach : Reaches start c₀ (.groups depth t bound rest) c₁)
    (hc₁ : c₁.Sound (TextOrigin start c₀) raw) :
    Yields (TextOrigin start c₀) raw (id :: ids).length
      (do return here ++ (← groups (node (nodes depth) t) t bound rest)) c₁ := by
  have hkeeps : Keeps (fun _ => True) (groups (node (nodes depth) t) t bound rest) :=
    keeps_groups bound fun id _ => keeps_node_any t id
  have happend := Yields.append hhere hfew hkeeps (hrest hsub hreach hc₁)
  exact happend.mono fun hraw => Nat.succ_le_succ (hlength hraw)

include hwalk ht hrest hid hids hreach hc in
/-- The first group of the siblings is one of conditions. -/
theorem yields_conditionGroup (hrole : Siblings.role t id = .condition) :
    Yields (TextOrigin start c₀) raw (id :: ids).length
      (groups (node (nodes depth) t) t (bound + 1) (id :: ids)) c := by
  intro roots c' hrun
  rw [groups, hrole] at hrun
  obtain ⟨here, c₁, hhere, hrun⟩ := Act.exists_of_run_bind hrun
  have hsub := Siblings.chainRest_subset t ids
  have hmembers : ∀ other ∈ id :: (Siblings.chainRest t ids).1, t.Within raw other :=
    List.forall_mem_cons.2 ⟨hid, fun other hm => hids other (hsub.1 hm)⟩
  have hchain :=
    yields_chain hwalk ht hmembers (hreach.step (.condition hrole)) hc here c₁ hhere
  have hc₁ := (keeps_chain fun id _ => keeps_node_any t id).sound hhere hc
  have hraw : raw = true → Siblings.role t id = .plain := fun h => role_eq_plain ht (h ▸ hid)
  exact yields_after hrest hchain.1 hchain.2 hsub.2
    (fun h => nomatch hrole.symm.trans (hraw h)) (hreach.step (.afterChain hrole hhere)) hc₁
    roots c' hrun

include hwalk ht hrest hid hids hreach hc in
/-- The first group of the siblings is a loop. It yields the results of the loop, or those of the
alternative if there are none. -/
theorem yields_loopGroup (hrole : Siblings.role t id = .loop) :
    Yields (TextOrigin start c₀) raw (id :: ids).length
      (groups (node (nodes depth) t) t (bound + 1) (id :: ids)) c := by
  intro roots c' hrun
  rw [groups, hrole] at hrun
  obtain ⟨here, c₁, hhere, hrun⟩ := Act.exists_of_run_bind hrun
  have hfirst := yields_node hwalk ht hid (hreach.step (.single (.inl hrole))) hc here c₁ hhere
  have hc₁ := (keeps_node_any t id).sound hhere hc
  have hlone : here ≠ [] ∨ Siblings.elseAfter? t ids = none →
      Yields (TextOrigin start c₀) raw (id :: ids).length
        (do return here ++ (← groups (node (nodes depth) t) t bound ids)) c₁ :=
    fun h => yields_after hrest hfirst.1 hfirst.2 (List.Subset.refl _) (fun _ => Nat.le_refl _)
      (hreach.step (.afterSingle (.inr ⟨hrole, h⟩) hhere)) hc₁
  -- Only a loop without results gives way to the alternative after it.
  rcases here with _ | ⟨first, others⟩
  · rcases helse : Siblings.elseAfter? t ids with _ | ⟨other, after⟩
    · rw [helse] at hrun
      exact hlone (.inr helse) roots c' hrun
    · rw [helse] at hrun
      obtain ⟨here, c₂, hother, hrun⟩ := Act.exists_of_run_bind hrun
      have hsub := Siblings.elseAfter?_subset t helse
      have hsecond := yields_node hwalk ht (hids other hsub.1)
        (hreach.step (.alternative hrole hhere helse)) hc₁ here c₂ hother
      have hc₂ := (keeps_node_any t other).sound hother hc₁
      have hraw : raw = true → Siblings.role t id = .plain := fun h => role_eq_plain ht (h ▸ hid)
      exact yields_after hrest hsecond.1 hsecond.2 hsub.2
        (fun h => nomatch hrole.symm.trans (hraw h))
        (hreach.step (.afterAlternative hrole hhere helse hother)) hc₂ roots c' hrun
  · exact hlone (.inl (List.cons_ne_nil _ _)) roots c' hrun

include hwalk ht hrest hid hreach hc in
/-- The first group of the siblings is a single node without conditions. -/
theorem yields_plainGroup (hrole : Siblings.role t id = .plain) :
    Yields (TextOrigin start c₀) raw (id :: ids).length
      (groups (node (nodes depth) t) t (bound + 1) (id :: ids)) c := by
  intro roots c' hrun
  rw [groups, hrole] at hrun
  obtain ⟨here, c₁, hhere, hrun⟩ := Act.exists_of_run_bind hrun
  have hfirst := yields_node hwalk ht hid (hreach.step (.single (.inr hrole))) hc here c₁ hhere
  have hc₁ := (keeps_node_any t id).sound hhere hc
  exact yields_after hrest hfirst.1 hfirst.2 (List.Subset.refl _) (fun _ => Nat.le_refl _)
    (hreach.step (.afterSingle (.inl hrole) hhere)) hc₁ roots c' hrun

end Groups

include hwalk ht in
/-- Outside of raw text groups take any nodes of the siblings; in raw text every node stands for
itself. -/
theorem yields_groups {bound : Nat} {ids : List NodeId} (hwithin : ∀ id ∈ ids, t.Within raw id)
    (hreach : Reaches start c₀ (.groups depth t bound ids) c)
    (hc : c.Sound (TextOrigin start c₀) raw) :
    Yields (TextOrigin start c₀) raw ids.length (groups (node (nodes depth) t) t bound ids) c := by
  induction bound generalizing ids c with
  | zero =>
      unfold groups
      exact yields_nil
  | succ bound ih =>
      cases ids with
      | nil =>
          unfold groups
          exact yields_nil
      | cons id ids =>
          obtain ⟨hid, hids⟩ := List.forall_mem_cons.1 hwithin
          have hrest : RestYields start c₀ depth t bound raw ids :=
            fun hsub => ih fun other hm => hids other (hsub hm)
          cases hrole : Siblings.role t id with
          | condition => exact yields_conditionGroup hwalk ht hrest hid hids hreach hc hrole
          | loop => exact yields_loopGroup hwalk ht hrest hid hids hreach hc hrole
          | plain => exact yields_plainGroup hwalk ht hrest hid hreach hc hrole
          | orphan =>
              have horphan := hrest (List.Subset.refl ids) (hreach.step (.orphan hrole)) hc
              intro roots c' hrun
              rw [groups, hrole] at hrun
              exact horphan.mono (fun _ => Nat.le_succ _) roots c' hrun

end Siblings

/-! ### Templates -/

/-- Siblings of a parsed template yield sound output, at whatever depth. The induction is on the
depth: includes and slots lead to siblings at a lower one, and those of the same depth are put
together from their groups. -/
theorem yields_nodes (start : Task) (c₀ : Context) (depth : Nat) : WalkYields start c₀ depth := by
  induction depth with
  | zero =>
      intro t ids c raw _ _ _ _ roots c' hrun
      exact nomatch congrArg Prod.fst hrun
  | succ depth ih =>
      intro t ids c raw hreach ht hwithin hc
      exact yields_groups ih ht hwithin (hreach.step .siblings) hc

/-- The output of a whole template is made of texts that were evaluated or copied, and start tags
that can be read. -/
theorem made_template {depth : Nat} {t : Template} {library : Library} {scope : Scope}
    {roots : List NodeId} {c : Context} (ht : t.Parsed)
    (hrun : (template (nodes depth) t).run (Context.new library scope) = (.ok roots, c)) :
    ∀ root ∈ roots, c.out.Made (TextOrigin (.template depth t) (Context.new library scope))
      IsStartTag false root := by
  have hnew : (Context.new library scope).Sound
      (TextOrigin (.template depth t) (Context.new library scope)) false :=
    ⟨fun slots hmem => (nomatch hmem), rfl⟩
  have hinner := yields_nodes (.template depth t) (Context.new library scope) depth
    (Reaches.start.step .template) ht (fun _ hroot => .root hroot) ((hnew.inFile _).inFrame _)
  exact (hinner.withFrame.withFile roots c hrun).1

end Render
end Stencil
