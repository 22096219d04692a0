import Stencil.Proofs.Render.Law
import Stencil.Proofs.Render.Lexical

/-!
# Pieces in which nothing renders once

## Main definitions

* `Template.OnceFree`, `SlotScope.OnceFree` — no element at or below some nodes renders once, and
  none in some content
* `Render.NeverOnce` — a piece comes to no element that renders once
* `Render.ComponentsOnceFree`, `Render.OnceFree` — no component that is included has an element that
  renders once, and neither do the nodes themselves nor the content that was passed

## Main results

* `Render.NeverOnce.run_withSeen` — what was rendered once before is not read and not changed
* `Render.OnceFree.neverOnce` — a node comes to elements below it, of components and of content that
  was passed, and to no others
-/

namespace Stencil

open Markup

/-- No element at or below some nodes renders once. -/
def Template.OnceFree (t : Template) (ids : List NodeId) : Prop :=
  ∀ id e, t.Below ids id → t.element? id = some e → onceKey? id e = none

/-- No element in content that was passed renders once. -/
def SlotScope.OnceFree (own : SlotScope) : Prop :=
  ∀ name definer id binding, Dict.get? own name = some (.scoped definer id binding) →
    definer.OnceFree [id]

theorem Template.OnceFree.of_below {t : Template} {ids ids' : List NodeId} (h : t.OnceFree ids)
    (hids : ∀ id ∈ ids', t.Below ids id) : t.OnceFree ids' :=
  fun id e hbelow => h id e (hbelow.of_below hids)

theorem Template.OnceFree.children {t : Template} {id : NodeId} {e : Element}
    (h : t.OnceFree [id]) (he : t.element? id = some e) : t.OnceFree e.children :=
  h.of_below fun _ hchild => .child (.here List.mem_cons_self) he hchild

namespace Render

variable {task task' : Task} {c c' : Context}

/-- Acts that neither read nor change what was rendered once. -/
def Law.blind : Law where
  Holds act _ c := ∀ seen,
    act.run (c.withSeen seen) = ((act.run c).1, (act.run c).2.withSeen seen)
  reads := by
    rintro α act c ⟨f, -, rfl⟩ seen
    rw [run_evaluate, run_evaluate]
    rfl
  seq := by
    intro α β act act' next next' c h hn seen
    have hact := h seen
    rcases hrun : act.run c with ⟨halt | a, c₁⟩
    · rw [hrun] at hact
      rw [Act.run_bind_of_error hrun, Act.run_bind_of_error hact]
    · rw [hrun] at hact
      rw [Act.run_bind_of_ok hrun, Act.run_bind_of_ok hact]
      exact hn a c₁ hrun seen
  change := by
    intro α view change c hview hchange seen
    rw [Act.run_modifyGet, Act.run_modifyGet, hview, hchange.seen]
  inside := by
    intro α enter leave act act' c henter hleave h seen
    rw [run_within, run_within, henter.seen, h seen, hleave.seen]
  annotation := by
    intro α act act' c h seen
    rw [run_annotated, run_annotated, h seen]
    rfl

theorem Law.blind_lookUp (file : String) (c : Context) :
    Law.blind.Holds (lookUp file) (lookUp file) c := fun _ => rfl

/-- A piece comes to no element that renders once. It is said of the whole course, as included files
and passed content may hold such elements. -/
def NeverOnce (task : Task) (c : Context) : Prop :=
  ∀ depth t id e c', Reaches task c (.once depth t id e) c' → onceKey? id e = none

namespace NeverOnce

theorem of_leads (h : NeverOnce task c) (hleads : Leads task c task' c') : NeverOnce task' c' :=
  fun depth t id e c₁ hreaches => h depth t id e c₁ (hreaches.of_leads hleads)

/-- What was rendered once before is not read and not changed by a piece under which nothing renders
once. It is a law of evaluation, and the check of keys is the part of it that never comes up. -/
theorem run_withSeen (h : NeverOnce task c) (seen : List OnceKey) :
    task.act.run (c.withSeen seen) = ((task.act.run c).1, (task.act.run c).2.withSeen seen) := by
  have halong : Law.blind.Along 0 task c := by
    refine Law.along_of_reaches (fun depth t id e c' hreaches => ?_)
      (fun _ _ file c' _ _ => Law.blind_lookUp file c') fun _ _ _ _ _ => rfl
    unfold isDue
    rw [h depth t id e c' hreaches]
    exact Law.holds_pure true
  exact halong seen

theorem seen_eq (h : NeverOnce task c) : (task.act.run c).2.seen = c.seen := by
  have hsame := h.run_withSeen c.seen
  exact congrArg (fun done => done.2.seen) hsame

end NeverOnce

/-- In no component that a node includes an element renders once. -/
def ComponentsOnceFree (depth : Nat) (t : Template) (id : NodeId) (c : Context) : Prop :=
  ∀ {depth' t' e own component c₁ collecting inner},
    Reaches (.node depth t id) c (.include depth' t' e) c₁ →
    Includes depth' t' e c₁ collecting own component inner → component.OnceFree component.roots

/-- Neither a node nor a component that it includes nor content that was passed has an element that
renders once. -/
structure OnceFree (depth : Nat) (t : Template) (id : NodeId) (c : Context) : Prop where
  node : t.OnceFree [id]
  components : ComponentsOnceFree depth t id c
  passed : ∀ own ∈ c.slots, own.OnceFree

/-- Nothing renders once among some siblings or in content that was passed. -/
def onceFree : Trait := fun slots _ t ids => t.OnceFree ids ∧ ∀ own ∈ slots, own.OnceFree

variable {depth : Nat} {t : Template} {id : NodeId}

theorem OnceFree.inherited (h : OnceFree depth t id c) :
    Inherited onceFree (.node depth t id) c where
  of_subset hfree hids := ⟨hfree.1.of_below fun _ hid => .here (hids hid), hfree.2⟩
  children hfree he := ⟨hfree.1.children he, hfree.2⟩
  included := by
    intro depth' t' e id' own component c₁ collecting inner hreaches hincludes he _ _ hfree
    rw [hincludes.slots_eq.2]
    refine ⟨h.components hreaches hincludes, List.forall_mem_cons.2 ⟨?_, hfree.2⟩⟩
    -- What the include collects are its own children.
    intro name definer child binding hget
    obtain ⟨_, hslots⟩ := hincludes.exists_run
    obtain ⟨rfl, hchild, -⟩ := of_includedSlots hslots hget
    refine (hfree.1.children he).of_below fun other hother => .here ?_
    rwa [List.mem_singleton.1 hother]
  passed := by
    intro depth' t' e id' own definer child binding content c₁ inner _ hpasses _ hfree
    have hslots := hfree.2
    rw [hpasses.slots_eq] at hslots
    obtain ⟨hown, houter⟩ := List.forall_mem_cons.1 hslots
    exact ⟨(hown _ _ _ _ hpasses.get?_eq).children hpasses.element?, houter⟩

/-- A node comes to elements below it, of components and of content that was passed, and to no
others. -/
theorem OnceFree.neverOnce (h : OnceFree depth t id c) : NeverOnce (.node depth t id) c := by
  intro depth' t' id' e c' hreaches
  obtain ⟨he, hfree, -⟩ := hreaches.has h.inherited ⟨h.node, h.passed⟩
  exact hfree id' e (.here List.mem_cons_self) he

/-- No content was passed to some nodes, and no element at or below them stands for a file. -/
def alone : Trait := fun slots _ t ids =>
  slots = [] ∧ ∀ i e, t.Below ids i → t.element? i = some e → e.tag ≠ "vuego"

/-- What comes of nodes that are alone is below them: there is no include and no content to go to.
-/
theorem inherited_alone (start : Task) (c₀ : Context) : Inherited alone start c₀ where
  of_subset := by
    intro slots depth t ids ids' halone hids
    exact ⟨halone.1, fun i e hbelow => halone.2 i e (hbelow.of_below fun j hj => .here (hids hj))⟩
  children := by
    intro slots depth t id e halone he
    refine ⟨halone.1, fun i e' hbelow => halone.2 i e' (hbelow.of_below fun j hj => ?_)⟩
    exact .child (.here List.mem_cons_self) he hj
  included := by
    intro depth t e id own component c collecting inner _ _ he htag _ halone
    exact absurd htag (halone.2 id e (.here List.mem_cons_self) he)
  passed := by
    intro depth t e id own definer id' binding content c inner _ hpasses _ halone
    exact nomatch hpasses.slots_eq.symm.trans halone.1

/-- A node below which no element stands for a file includes no component, where none was passed any
content. -/
theorem componentsOnceFree_of_tag_ne (hslots : c.slots = [])
    (h : ∀ i e, t.Below [id] i → t.element? i = some e → e.tag ≠ "vuego") :
    ComponentsOnceFree depth t id c := by
  intro depth' t' e own component c₁ collecting inner hreaches _
  obtain ⟨⟨htag, -⟩, i, he, -, hnone⟩ := hreaches.has (inherited_alone _ _) ⟨hslots, h⟩
  exact absurd htag (hnone i e (.here List.mem_cons_self) he)

end Render
end Stencil
