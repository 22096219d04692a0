import Stencil.Proofs.Render.Uphold
import Stencil.Proofs.Render.World

/-!
# Output in which nothing is missing

## Main definitions

* `Markup.Arena.HasTrees` — nodes with all that is below them, and `Markup.Arena.trees`, that nodes
  have trees as an invariant of arenas
* `Context.Proper` — the output has all nodes that the includes around have passed
* `Render.Plants` — in such contexts a piece gives nodes with all that is below them

## Main results

* `Render.Upholds.plants` — a piece does so if it upholds the invariant
* `Render.Reaches.proper` — contexts stay proper on the course of a render
* `Render.exists_run_markup` — the text of what a render gives is always there
* `Render.nodes_wellFormed` — a well-formed output stays so and only grows, and what siblings give
  is in it and is printed

## Design notes

A node of the output has a tree as soon as it is allocated, because its children are allocated
before. The only nodes that a piece does not allocate itself are those that were passed to a slot.
-/

namespace Stencil

open Markup

/-- The arena has some nodes with all that is below them. -/
def Markup.Arena.HasTrees (a : Arena) (ids : List NodeId) : Prop :=
  ∀ id ∈ ids, ∃ tree, a.tree? id = some tree

namespace Markup.Arena

variable {a a' : Arena} {ids ids' : List NodeId}

theorem Extends.hasTrees (ha : a.Extends a') (h : a.HasTrees ids) : a'.HasTrees ids := by
  intro id hid
  obtain ⟨tree, htree⟩ := h id hid
  exact ⟨tree, ha.tree? htree⟩

theorem HasTrees.exists_forall₂ (h : a.HasTrees ids) :
    ∃ ts, List.Forall₂ (fun id t => a.tree? id = some t) ids ts := by
  induction ids with
  | nil => exact ⟨[], .nil⟩
  | cons id ids ih =>
      obtain ⟨⟨tree, htree⟩, hrest⟩ := List.forall_mem_cons.1 h
      obtain ⟨ts, hts⟩ := ih hrest
      exact ⟨tree :: ts, .cons htree hts⟩

/-- Nodes have trees, as their children have. -/
def trees : Invariant where
  Sound _ := True
  Good a id := ∃ tree, a.tree? id = some tree
  good_of_extends ha h := by
    obtain ⟨tree, htree⟩ := h
    exact ⟨tree, ha.tree? htree⟩
  push {a node} _ hnode := by
    refine ⟨trivial, ?_⟩
    cases node with
    | text s => exact ⟨_, tree?_plant a (.text s)⟩
    | raw s => exact ⟨_, tree?_plant a (.raw s)⟩
    | element e =>
        have hchildren : a.HasTrees e.children := hnode e rfl
        obtain ⟨ts, hts⟩ := hchildren.exists_forall₂
        exact ⟨_, tree?_push hts⟩

end Markup.Arena

/-- The output has all nodes that the includes around have passed. Every context that a render comes
to is proper, since nodes are passed after they were made and none is removed. -/
def Context.Proper (c : Context) : Prop :=
  ∀ own ∈ c.slots, ∀ name ids, Dict.get? own name = some (.nodes ids) → c.out.HasTrees ids

namespace Context

variable {c c' : Context}

theorem Proper.upholds (hc : c.Proper) : c.Upholds Arena.trees := ⟨trivial, hc⟩

theorem Proper.of_extends (hc : c.Proper) (hout : c.out.Extends c'.out)
    (hslots : c'.slots ⊆ c.slots) :
    c'.Proper :=
  fun own hown name ids hget => hout.hasTrees (hc own (hslots hown) name ids hget)

/-- A context that is given back stays proper, since nodes passed to slots are nodes of an output
that has only grown. -/
theorem Balanced.proper {names : String → Prop} (h : c.Balanced names c') (hc : c.Proper) :
    c'.Proper :=
  hc.of_extends h.out (h.slots ▸ List.Subset.refl _)

end Context

namespace Render

variable {c c' : Context}

/-- In a proper context the piece gives nodes with all that is below them. Printing nodes like these
cannot fail. -/
def Plants (act : Render (List NodeId)) : Prop :=
  ∀ c ids c', c.Proper → act.run c = (.ok ids, c') → c'.out.HasTrees ids

/-- What a piece gives has trees because trees are an invariant of the output. No other property of
the piece is used. -/
theorem Upholds.plants {act : Render (List NodeId)} (h : Upholds Arena.trees act) : Plants act :=
  fun c ids c' hc hrun => (h c hc.upholds).good ids c' hrun

/-! ### Contexts on the course of a render -/

variable {task task' : Task}

/-- What a piece leads to is in a proper context: all nodes passed to slots there were in the output
before. -/
theorem Leads.proper (h : Leads task c task' c') (hc : c.Proper) : c'.Proper := by
  cases hswitch : task.switches with
  | false =>
      obtain ⟨c₁, hbalanced, hinside⟩ := h.exists_inside hswitch
      exact (hbalanced.proper hc).of_extends (hinside.out ▸ .refl _)
        (hinside.slots ▸ List.Subset.refl _)
  | true =>
      cases h with
      | passing hfile hargs _ => exact (balanced_of_arguments hfile hargs).proper hc
      | @included depth _ _ _ _ _ _ _ _ _ _ _ hfile hargs hslots hload =>
          have hincludes := Includes.intro hfile hargs hslots hload
          exact (hincludes.upholds (upholds_nodes depth) hc.upholds).passed
      | fallback hpassed =>
          rw [run_passed?, Prod.mk.injEq] at hpassed
          exact hpassed.2 ▸ hc
      | content hpassed hprops hcontent =>
          have hpasses := Passes.intro hpassed hprops hcontent
          refine hc.of_extends hpasses.later.out ?_
          rw [hpasses.slots_eq]
          exact List.subset_cons_self _ _
      | _ => exact nomatch hswitch

/-- Contexts stay proper on the course of a render, from a start that has no slots on. Wherever a
slot is evaluated, the nodes that were passed to it are thus in the output. -/
theorem Reaches.proper (h : Reaches task c task' c') (hc : c.Proper) : c'.Proper := by
  induction h with
  | start => exact hc
  | step _ hleads ih => exact hleads.proper ih

/-! ### The text of the output -/

/-- The text of what a piece gives is always there. Printing fails for ids without a node only, and
a piece gives none. -/
theorem exists_run_markup {act : Render (List NodeId)} (h : Plants act) (hc : c.Proper)
    {ids : List NodeId} (hrun : act.run c = (.ok ids, c')) :
    ∃ text, (markup ids).run c' = (.ok text, c') := by
  obtain ⟨ts, hts⟩ := (h c ids c' hc hrun).exists_forall₂
  exact ⟨_, run_markup_of_trees hts⟩

/-- Evaluating siblings where the output is well formed and has all nodes that were passed to slots
only adds nodes to the output and keeps it well formed, however it ends. If it ends well, what it
gives is in the output, and is printed: nodes that were passed to a slot may be in it several times.
-/
theorem nodes_wellFormed (depth : Nat) (t : Template) (ids : List NodeId) (c : Context)
    (hout : c.out.WellFormed)
    (hslots : ∀ own ∈ c.slots, ∀ name passed, Dict.get? own name = some (.nodes passed) →
      ∀ id ∈ passed, c.out.Owns id) :
    let (result, c') := (nodes depth t ids).run c
    c.out.nodes.toList <+: c'.out.nodes.toList ∧ c'.out.region = c.out.region ∧
      c'.out.WellFormed ∧
      ∀ roots, result = .ok roots → (∀ id ∈ roots, c'.out.Owns id) ∧
        ∃ forest, roots.mapM c'.out.tree? = some forest ∧
          (markup roots).run c' = (.ok (printForest forest), c') := by
  have hgrown := ((keeps_nodes depth t ids) c).out
  have hdelivers := upholds_nodes (I := Arena.wellFormed) depth t ids c ⟨hout, hslots⟩
  have hsound : ((nodes depth t ids).run c).2.out.WellFormed := hdelivers.sound
  refine ⟨hgrown.nodes_prefix, hgrown.region, hsound, fun roots hok => ?_⟩
  have howns : ∀ id ∈ roots, ((nodes depth t ids).run c).2.out.Owns id :=
    hdelivers.good roots _ (Prod.ext hok rfl)
  have htrees : ((nodes depth t ids).run c).2.out.HasTrees roots :=
    fun id hid => hsound.exists_tree (howns id hid)
  obtain ⟨forest, hforest⟩ := htrees.exists_forall₂
  exact ⟨howns, forest, Arena.mapM_of_forall₂ hforest, run_markup_of_trees hforest⟩

/-- A component that has its slot twice. -/
def twoSlots : Template where
  file := "twice"
  frontMatter := []
  arena := ⟨1, #[.element ⟨"slot", [], [], none⟩, .element ⟨"slot", [], [], none⟩]⟩
  roots := [⟨1, 0⟩, ⟨1, 1⟩]

/-- A text has been passed as the content of the slot. -/
def passedText : Context :=
  { Context.new (.new (.memory []) []) .empty with
    slots := [Dict.ofPairs [(defaultSlot, .nodes [⟨0, 0⟩])]]
    out := ((Arena.empty 0).push (.text "x")).2 }

/-- The text that was passed is there twice, and is printed twice. -/
theorem nodes_wellFormed_twoSlots :
    (nodes 2 twoSlots twoSlots.roots).run passedText = (.ok [⟨0, 0⟩, ⟨0, 0⟩], passedText) ∧
      passedText.out.WellFormed ∧
      (markup [⟨0, 0⟩, ⟨0, 0⟩]).run passedText =
        (.ok (printForest [.text "x", .text "x"]), passedText) := by
  have hrun : (nodes 2 twoSlots twoSlots.roots).run passedText =
      (.ok [⟨0, 0⟩, ⟨0, 0⟩], passedText) := rfl
  have hout : passedText.out.WellFormed := (Arena.wellFormed_empty 0).push nofun
  have hslots : ∀ own ∈ passedText.slots, ∀ name passed, Dict.get? own name = some (.nodes passed) →
      ∀ id ∈ passed, passedText.out.Owns id := by
    intro own hown name passed hget id hid
    obtain rfl := List.mem_singleton.1 hown
    obtain ⟨-, hpassed⟩ := Prod.mk.inj (List.mem_singleton.1 (Dict.mem_of_get?_ofPairs hget))
    obtain rfl := SlotContent.nodes.inj hpassed
    obtain rfl := List.mem_singleton.1 hid
    decide
  have hresult := nodes_wellFormed 2 twoSlots twoSlots.roots passedText hout hslots
  rw [hrun] at hresult
  obtain ⟨-, -, hwell, hroots⟩ := hresult
  obtain ⟨-, forest, hforest, hmarkup⟩ := hroots _ rfl
  obtain rfl : [Tree.text "x", .text "x"] = forest := Option.some.inj hforest
  exact ⟨hrun, hwell, hmarkup⟩

end Render
end Stencil
