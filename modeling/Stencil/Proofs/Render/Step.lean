import Stencil.Proofs.Render.Balance
import Stencil.Proofs.Render.Course
import Stencil.Proofs.Template

/-!
# What a render does to the context on its course

## Main definitions

* `Render.Task.switches` — the pieces that come to another file than their own
* `Context.Inside` — a context with other variables, tags and files alone
* `Context.Later` — a context that the render comes to after another one
* `Render.Includes`, `Render.Passes` — an include that comes to its component, and a slot that comes
  to content which was passed to it
* `Render.Inherited` — a trait of siblings that passes to all that a render comes to from them

## Main results

* `Render.Leads.exists_inside` — what a piece of a file comes to in the same file sees the same
  slots
* `Render.Leads.later`, `Render.Reaches.later` — the library and the output only grow
* `Render.Reaches.has` — all that a render comes to has an inherited trait

## Design notes

Slots change in two places only, where an include comes to its component and where a slot comes to
content; for these the rules of `Render.Leads` are repeated with the contexts in between named.
-/

namespace Stencil

open Markup

/-- A context with other variables, tags and files alone. -/
structure Context.Inside (c c' : Context) : Prop where
  slots : c'.slots = c.slots
  seen : c'.seen = c.seen
  out : c'.out = c.out
  library : c'.library = c.library

/-- A context that the render comes to after another one. What was seen, made and loaded is not
taken back, whatever fails in between. -/
structure Context.Later (c c' : Context) : Prop where
  seen : c.seen <:+ c'.seen
  out : c.out.Extends c'.out
  library : c.library.Grows c'.library

namespace Context

variable {c c₁ c' c'' : Context}

/-- A context is inside itself. -/
theorem Inside.refl (c : Context) : c.Inside c := ⟨rfl, rfl, rfl, rfl⟩

/-- A frame of variables changes nothing else. -/
theorem inside_inFrame (c : Context) (frame : Frame) : c.Inside (c.inFrame frame) :=
  ⟨rfl, rfl, rfl, rfl⟩

/-- A tag changes nothing else. -/
theorem inside_inTag (c : Context) (tag : String) : c.Inside (c.inTag tag) := ⟨rfl, rfl, rfl, rfl⟩

/-- A context counts as later than itself. -/
theorem Later.refl (c : Context) : c.Later c := ⟨List.suffix_refl _, .refl _, .refl _⟩

/-- What is later than a later context is later. -/
theorem Later.trans (h : c.Later c') (h' : c'.Later c'') : c.Later c'' :=
  ⟨h.seen.trans h'.seen, h.out.trans h'.out, h.library.trans h'.library⟩

/-- A piece that gives the context back leaves a later one. What it may change are variables of the
innermost frame, which are no part of being later. -/
theorem Balanced.later {names : String → Prop} (h : c.Balanced names c') : c.Later c' :=
  ⟨h.seen, h.out, h.library⟩

/-- A context with other variables, tags and files counts as later. -/
theorem Inside.later (h : c.Inside c') : c.Later c' :=
  ⟨h.seen ▸ List.suffix_refl _, h.out ▸ .refl _, h.library ▸ .refl _⟩

end Context

namespace Render

/-- The pieces that may come to another file than their own. -/
def Task.switches : Task → Bool
  | .include .. | .slot .. => true
  | _ => false

/-- An include comes to its component: in a first context it collects content, in a second one the
component is evaluated. -/
inductive Includes (depth : Nat) (t : Template) (e : Element) (c : Context) :
    Context → SlotScope → Template → Context → Prop where
  | intro {component : Template} {file : String} {args : Frame} {slots : SlotScope}
      {c₁ c₂ c₃ c₄ : Context} :
      (interpolated ((e.get? "include").getD "")).run c = (.ok file, c₁) →
      (arguments [] e.attributes).run c₁ = (.ok args, c₂) →
      (includedSlots (nodes depth) t e).run c₂ = (.ok slots, c₃) →
      (load file).run c₃ = (.ok component, c₄) →
      Includes depth t e c c₂ slots component
        (((c₄.inFile component.file).inSlots slots).inFrame
          (Dict.overlay args component.frontMatter))

/-- A slot comes to content that was passed to it, with all that was passed; the content is
evaluated in the last context. -/
inductive Passes (e : Element) (c : Context) :
    SlotScope → Template → NodeId → SlotBinding → Element → Context → Prop where
  | intro {own : SlotScope} {definer : Template} {id : NodeId} {binding : SlotBinding}
      {content : Element} {frame : Frame} {c₁ c₂ : Context} :
      (passed? ((e.get? "name").getD defaultSlot)).run c =
        (.ok (some (own, .scoped definer id binding)), c₁) →
      (properties [] e.attributes).run c₁ = (.ok frame, c₂) →
      definer.element? id = some content →
      Passes e c own definer id binding content (c₂.outside.inFrame (binding.frame frame))

variable {task task' : Task} {c c' : Context}

/-- What only reads gives the context back. -/
theorem Readonly.balanced {α : Type} {act : Render α} {result : Except Halt α} (h : Readonly act)
    (hrun : act.run c = (result, c')) : c.Balanced (fun _ => True) c' :=
  h.keeps.balanced hrun

/-- What a piece of a file comes to in the same file is evaluated after pieces that keep the
balance; but for a whole template it is in the same files. -/
theorem Leads.exists_balanced (h : Leads task c task' c') (hswitch : task.switches = false) :
    ∃ c₁, c.Balanced (fun _ => True) c₁ ∧ c₁.Inside c' ∧
      ((∀ depth t, task ≠ .template depth t) → c'.chain = c₁.chain) := by
  cases h with
  | template => exact ⟨c, .refl c, ⟨rfl, rfl, rfl, rfl⟩, fun hne => absurd rfl (hne _ _)⟩
  | siblings => exact ⟨_, .refl _, .refl _, fun _ => rfl⟩
  | condition _ => exact ⟨_, .refl _, .refl _, fun _ => rfl⟩
  | afterChain _ hrun =>
      exact ⟨_, (keeps_chain fun id _ => keeps_node_any _ id).balanced hrun, .refl _, fun _ => rfl⟩
  | orphan _ => exact ⟨_, .refl _, .refl _, fun _ => rfl⟩
  | single _ => exact ⟨_, .refl _, .refl _, fun _ => rfl⟩
  | alternative _ hrun _ => exact ⟨_, (keeps_node_any _ _).balanced hrun, .refl _, fun _ => rfl⟩
  | afterAlternative _ hrun _ hrun' =>
      exact ⟨_, ((keeps_node_any _ _).balanced hrun).trans ((keeps_node_any _ _).balanced hrun'),
        .refl _, fun _ => rfl⟩
  | afterSingle _ hrun => exact ⟨_, (keeps_node_any _ _).balanced hrun, .refl _, fun _ => rfl⟩
  | holds hrun => exact ⟨_, (readonly_holds _ _).balanced hrun, .refl _, fun _ => rfl⟩
  | fails hrun => exact ⟨_, (readonly_holds _ _).balanced hrun, .refl _, fun _ => rfl⟩
  | loop _ _ _ hrun => exact ⟨_, (readonly_collection? _).balanced hrun, .refl _, fun _ => rfl⟩
  | entry => exact ⟨_, .refl _, Context.inside_inFrame _ _, fun _ => rfl⟩
  | afterEntry hrun =>
      exact ⟨_, (keeps_withFrame (keeps_nodeOnce_any _ _ _) _).balanced hrun, .refl _, fun _ => rfl⟩
  | once _ _ => exact ⟨_, .refl _, .refl _, fun _ => rfl⟩
  | due hrun _ => exact ⟨_, keeps_isDue.balanced hrun, .refl _, fun _ => rfl⟩
  | passing _ _ _ => exact nomatch hswitch
  | included _ _ _ _ => exact nomatch hswitch
  | @wrapper _ _ e _ _ _ _ hrequire hset hhtml =>
      have hbound : Keeps (fun _ => True) (setBindings e.attributes) :=
        keeps_setBindings fun _ _ => trivial
      exact ⟨_, (((readonly_require _).balanced hrequire).trans (hbound.balanced hset)).trans
        ((readonly_directive? _ _).balanced hhtml), .refl _, fun _ => rfl⟩
  | fallback _ => exact nomatch hswitch
  | content _ _ _ => exact nomatch hswitch
  | children hpayload hattributes =>
      refine ⟨_, ?_, Context.inside_inTag _ _, fun _ => rfl⟩
      exact ((readonly_payload? _).balanced hpayload).trans
        ((readonly_attributesOf _).balanced hattributes)

/-- What a piece of a file comes to in the same file sees the same slots. Before it comes there, the
piece may have evaluated other parts, which gave the context back. -/
theorem Leads.exists_inside (h : Leads task c task' c') (hswitch : task.switches = false) :
    ∃ c₁, c.Balanced (fun _ => True) c₁ ∧ c₁.Inside c' := by
  obtain ⟨c₁, hbalanced, hinside, -⟩ := h.exists_balanced hswitch
  exact ⟨c₁, hbalanced, hinside⟩

section Includes

variable {depth : Nat} {t component definer : Template} {e content : Element}
variable {collecting inner c₁ c₂ : Context} {slots own : SlotScope} {file : String} {args : Frame}
variable {id : NodeId} {binding : SlotBinding}

/-- The arguments of an include are evaluated where it is. -/
theorem balanced_of_arguments
    (hfile : (interpolated ((e.get? "include").getD "")).run c = (.ok file, c₁))
    (hargs : (arguments [] e.attributes).run c₁ = (.ok args, c₂)) :
    c.Balanced (fun _ => True) c₂ :=
  ((readonly_interpolated _).balanced hfile).trans
    ((readonly_arguments e.attributes []).balanced hargs)

/-- Loading a file gives the context back, with a library that has grown. -/
theorem balanced_of_load {result : Except Halt Template} (h : (load file).run c = (result, c')) :
    c.Balanced (fun _ => True) c' :=
  (keeps_load file).balanced h

/-- What an include comes to is something that it leads to: the roots of the component. -/
theorem Includes.leads (h : Includes depth t e c collecting slots component inner) :
    Leads (.include depth t e) c (.siblings depth component component.roots) inner := by
  cases h with
  | intro hfile hargs hslots hload => exact .included hfile hargs hslots hload

/-- A component sees the content that was collected for it, on top of the slots that its include
sees. -/
theorem Includes.slots_eq (h : Includes depth t e c collecting slots component inner) :
    collecting.slots = c.slots ∧ inner.slots = slots :: c.slots := by
  cases h with
  | intro hfile hargs hslots hload =>
      have hcollecting := balanced_of_arguments hfile hargs
      have hcollected := (keeps_includedSlots (keeps_nodes depth) (t.sets_any e)).balanced hslots
      refine ⟨hcollecting.slots, congrArg (slots :: ·) ?_⟩
      exact ((balanced_of_load hload).slots.trans hcollected.slots).trans hcollecting.slots

/-- The content is collected after the include is reached, and the component evaluated after that.
-/
theorem Includes.later (h : Includes depth t e c collecting slots component inner) :
    c.Later collecting ∧ collecting.Later inner := by
  cases h with
  | intro hfile hargs hslots hload =>
      have hcollected := (keeps_includedSlots (keeps_nodes depth) (t.sets_any e)).balanced hslots
      refine ⟨(balanced_of_arguments hfile hargs).later, ?_⟩
      exact (hcollected.trans (balanced_of_load hload)).later.trans
        ⟨List.suffix_refl _, .refl _, .refl _⟩

/-- What a slot comes to is something that it leads to: the children of the content passed to it. -/
theorem Passes.leads (h : Passes e c own definer id binding content inner) :
    Leads (.slot depth t e) c (.siblings depth definer content.children) inner := by
  cases h with
  | intro hpassed hprops hcontent => exact .content hpassed hprops hcontent

/-- The content is an element of the file that passes it. -/
theorem Passes.element? (h : Passes e c own definer id binding content inner) :
    definer.element? id = some content := by
  cases h with
  | intro _ _ hcontent => exact hcontent

/-- Content of a slot sees the slots that were seen before the innermost include. It is passed by
that include, and does not see what is passed with it. -/
theorem Passes.slots_eq (h : Passes e c own definer id binding content inner) :
    c.slots = own :: inner.slots := by
  cases h with
  | intro hpassed hprops hcontent =>
      rw [run_passed?, Prod.mk.injEq, Except.ok.injEq] at hpassed
      obtain ⟨hfound, rfl⟩ := hpassed
      have hprops := ((readonly_properties e.attributes []).balanced hprops).slots
      show c.slots = own :: List.tail _
      rw [hprops]
      cases hslots : c.slots with
      | nil =>
          rw [hslots] at hfound
          exact nomatch hfound
      | cons first rest =>
          rw [hslots] at hfound
          obtain ⟨_, -, hfirst⟩ := Option.map_eq_some_iff.1 hfound
          rw [(Prod.mk.inj hfirst).1]
          rfl

/-- The content is evaluated after the slot is reached. Evaluating the properties of the slot takes
nothing back. -/
theorem Passes.later (h : Passes e c own definer id binding content inner) : c.Later inner := by
  cases h with
  | intro hpassed hprops hcontent =>
      rw [run_passed?, Prod.mk.injEq] at hpassed
      obtain ⟨-, rfl⟩ := hpassed
      have hprops := (readonly_properties e.attributes []).balanced hprops
      exact hprops.later.trans ⟨List.suffix_refl _, .refl _, .refl _⟩

end Includes

/-- What was rendered once stays so, and the output and the library only grow. It holds of one step
on the course of a render, whatever the piece is. -/
theorem Leads.later (h : Leads task c task' c') : c.Later c' := by
  cases hswitch : task.switches with
  | false =>
      obtain ⟨c₁, hbalanced, hinside⟩ := h.exists_inside hswitch
      exact hbalanced.later.trans hinside.later
  | true =>
      cases h with
      | passing hfile hargs _ => exact (balanced_of_arguments hfile hargs).later
      | included hfile hargs hslots hload =>
          have hincludes := (Includes.intro hfile hargs hslots hload).later
          exact hincludes.1.trans hincludes.2
      | fallback hpassed =>
          rw [run_passed?, Prod.mk.injEq] at hpassed
          exact hpassed.2 ▸ .refl c
      | content hpassed hprops hcontent => exact (Passes.intro hpassed hprops hcontent).later
      | _ => exact nomatch hswitch

/-- All that a render comes to is in a later context than its start, by `Leads.later` for each step.
-/
theorem Reaches.later (h : Reaches task c task' c') : c.Later c' := by
  induction h with
  | start => exact .refl c
  | step _ hleads ih => exact ih.trans hleads.later

/-! ### What is inherited on the course of a render -/

/-- What may be said of siblings at a depth, in a file to which some slots are passed. -/
abbrev Trait := List SlotScope → (depth : Nat) → Template → List NodeId → Prop

/-- A trait passes from siblings to all that a render comes to from them. The conditions ask for it
to pass to fewer siblings, to children, and to what slots and includes bring in. -/
structure Inherited (P : Trait) (start : Task) (c₀ : Context) : Prop where
  of_subset : ∀ {slots depth t ids ids'}, P slots depth t ids → ids' ⊆ ids → P slots depth t ids'
  children : ∀ {slots depth t id e}, P slots (depth + 1) t [id] → t.element? id = some e →
    P slots depth t e.children
  included : ∀ {depth t e id own component c collecting inner},
    Reaches start c₀ (.include depth t e) c →
    Includes depth t e c collecting own component inner →
    t.element? id = some e → e.tag = "vuego" → e.has "include" = true →
    P c.slots (depth + 1) t [id] → P inner.slots depth component component.roots
  passed : ∀ {depth t e id own definer id' binding content c inner},
    Reaches start c₀ (.slot depth t e) c → Passes e c own definer id' binding content inner →
    t.element? id = some e → P c.slots (depth + 1) t [id] →
    P inner.slots depth definer content.children

/-- The nodes of a piece have a trait; an include names its file. -/
def Task.Has (P : Trait) (slots : List SlotScope) : Task → Prop
  | .template depth t => P slots depth t t.roots
  | .siblings depth t ids => P slots depth t ids
  | .groups depth t _ ids | .chain depth t ids => P slots (depth + 1) t ids
  | .node depth t id => P slots (depth + 1) t [id]
  | .entries depth t id e _ _ | .once depth t id e =>
    t.element? id = some e ∧ P slots (depth + 1) t [id]
  | .include depth t e =>
    (e.tag = "vuego" ∧ e.has "include" = true) ∧
      ∃ id, t.element? id = some e ∧ P slots (depth + 1) t [id]
  | .wrapper depth t e | .slot depth t e | .element depth t e =>
    ∃ id, t.element? id = some e ∧ P slots (depth + 1) t [id]

variable {P : Trait} {start : Task} {c₀ : Context} {slots : List SlotScope}

/-- An element hands its trait on to what it is evaluated as. -/
theorem Task.Has.construct {depth : Nat} {t : Template} {id : NodeId} {e : Element}
    (h : (Task.once depth t id e).Has P slots) (hsome : construct? depth t e = some task) :
    task.Has P slots := by
  unfold construct? at hsome
  split at hsome
  · exact nomatch hsome
  · split at hsome
    · rename_i htag
      obtain rfl := Option.some.inj hsome
      exact ⟨by simpa using htag, id, h⟩
    · split at hsome
      · obtain rfl := Option.some.inj hsome
        exact ⟨id, h⟩
      · split at hsome <;>
          · obtain rfl := Option.some.inj hsome
            exact ⟨id, h⟩

/-- What a piece of a file comes to in the same file has the trait if the piece has it. There is one
case for each way to come to a piece without an include or a slot. -/
theorem Inherited.of_inside (hP : Inherited P start c₀) (h : Leads task c task' c')
    (hswitch : task.switches = false) (hhas : task.Has P slots) : task'.Has P slots := by
  cases h with
  | template => exact hhas
  | siblings => exact hhas
  | condition _ =>
      exact hP.of_subset hhas (List.cons_subset_cons _ (Siblings.chainRest_subset _ _).1)
  | afterChain _ _ =>
      exact hP.of_subset hhas (List.subset_cons_of_subset _ (Siblings.chainRest_subset _ _).2)
  | orphan _ => exact hP.of_subset hhas (List.subset_cons_self _ _)
  | single _ => exact hP.of_subset hhas (by simp)
  | alternative _ _ helse =>
      exact hP.of_subset hhas (by simp [(Siblings.elseAfter?_subset _ helse).1])
  | afterAlternative _ _ helse _ =>
      exact hP.of_subset hhas (List.subset_cons_of_subset _ (Siblings.elseAfter?_subset _ helse).2)
  | afterSingle _ _ => exact hP.of_subset hhas (List.subset_cons_self _ _)
  | holds _ => exact hP.of_subset hhas (by simp)
  | fails _ => exact hP.of_subset hhas (List.subset_cons_self _ _)
  | loop hget _ _ _ => exact ⟨Template.element?_of_get? hget, hhas⟩
  | entry => exact hhas
  | afterEntry _ => exact hhas
  | once hget _ => exact ⟨Template.element?_of_get? hget, hhas⟩
  | due _ hsome => exact hhas.construct hsome
  | wrapper _ _ _ =>
      obtain ⟨id, he, hnode⟩ := hhas
      exact hP.children hnode he
  | children _ _ =>
      obtain ⟨id, he, hnode⟩ := hhas
      exact hP.children hnode he
  | _ => exact nomatch hswitch

/-- All that a render comes to has an inherited trait. This is the run lemma for traits: what a step
hands on is in `Inherited`, and the start is given. -/
theorem Reaches.has (h : Reaches start c₀ task c) (hP : Inherited P start c₀)
    (hstart : start.Has P c₀.slots) : task.Has P c.slots := by
  induction h with
  | start => exact hstart
  | @step task₁ task₂ c₁ c₂ hreaches hleads ih =>
      cases hswitch : task₁.switches with
      | false =>
          obtain ⟨_, hbalanced, hinside⟩ := hleads.exists_inside hswitch
          rw [hinside.slots.trans hbalanced.slots]
          exact hP.of_inside hleads hswitch ih
      | true =>
          cases hleads with
          | passing hfile hargs _ =>
              obtain ⟨-, id, he, hnode⟩ := ih
              rw [(balanced_of_arguments hfile hargs).slots]
              exact hP.of_subset (hP.children hnode he) List.filter_sublist.subset
          | included hfile hargs hslots hload =>
              obtain ⟨⟨htag, hhas⟩, id, he, hnode⟩ := ih
              exact hP.included hreaches (.intro hfile hargs hslots hload) he htag hhas hnode
          | fallback hpassed =>
              obtain ⟨id, he, hnode⟩ := ih
              rw [run_passed?, Prod.mk.injEq] at hpassed
              exact hpassed.2 ▸ hP.children hnode he
          | content hpassed hprops hcontent =>
              obtain ⟨id, he, hnode⟩ := ih
              exact hP.passed hreaches (.intro hpassed hprops hcontent) he hnode
          | _ => exact nomatch hswitch

end Render
end Stencil
