import Stencil.Proofs.Library.Hierarchy
import Stencil.Proofs.Render.Once
import Stencil.Proofs.Render.Simulation

/-!
# Templates that differ in one loop

## Main definitions

* `Markup.Element.withLoop`, `Template.withLoop` — an element with another loop, in its template

## Main results

* `Template.Parsed.not_below_children` — a node is not below its own children
* `Template.alike_of_get?` — templates that agree below some nodes, where nothing renders once
* `Render.sim_withLoop` — outside of its own loop an element is evaluated alike, whatever loop it
  has

## Design notes

The nodes of templates with different loops stand for themselves.  This is so below the children of
the element with the loop, and not at the element; that it is not below itself is what parsing is
needed for.
-/

namespace Stencil

open Markup

/-- An element with another loop. -/
def Markup.Element.withLoop (e : Element) (source : String) : Element :=
  { e with attributes := ("v-for", source) :: Attributes.bare e.attributes }

/-- A template where an element has another loop. Loops over parts of a list are compared with the
loop over the whole in this way. -/
def Template.withLoop (t : Template) (id : NodeId) (source : String) : Template :=
  { t with arena := (t.arena.modifyElement? id (·.withLoop source)).getD t.arena }

/-- A node stands for itself where its children do. -/
theorem Markup.Node.twin_self {R : NodeId → NodeId → Prop} {node : Node}
    (h : ∀ e, node = .element e → ∀ child ∈ e.children, R child child) : Node.Twin R node node := by
  cases node with
  | element e => exact .element ⟨rfl, rfl, rfl, List.forall₂_same.2 (h e rfl)⟩
  | text s => exact .text s
  | raw s => exact .raw s

namespace Markup.Element

variable (e : Element) (source source' : String)

theorem get?_withLoop_self : (e.withLoop source).get? "v-for" = some source := rfl

theorem bare_withLoop :
    Attributes.bare (e.withLoop source).attributes = Attributes.bare e.attributes := by
  simp [withLoop, Attributes.bare]

/-- Elements that differ in their loops alone. -/
theorem alike_withLoop {R : NodeId → NodeId → Prop}
    (hchildren : ∀ child ∈ e.children, R child child) :
    (e.withLoop source).Alike R (e.withLoop source') where
  tag := rfl
  attributes := (e.bare_withLoop source).trans (e.bare_withLoop source').symm
  children := List.forall₂_same.2 hchildren

theorem onceKey?_withLoop (id : NodeId) : onceKey? id (e.withLoop source) = onceKey? id e := by
  have hget : ∀ name, name ≠ "v-for" → (e.withLoop source).get? name = e.get? name := by
    intro name hname
    rw [get?, ← Attributes.lookup_bare hname, bare_withLoop, Attributes.lookup_bare hname, get?]
  rw [onceKey?, onceKey?, has, has, hget _ (by decide), hget _ (by decide)]

end Markup.Element

namespace Template

variable {t t' : Template} {id i : NodeId} {e : Element} {ids : List NodeId} {raw : Bool}

/-! ### Trees of parsed templates -/

/-- What is below nodes with trees has trees. -/
theorem exists_tree_of_below {levels : Nat}
    (h : ∀ id ∈ ids, ∃ tree, t.arena.treeWithin levels id = some tree) (hbelow : t.Below ids i) :
    ∃ tree, t.arena.treeWithin levels i = some tree := by
  induction hbelow with
  | here hmem => exact h _ hmem
  | child _ he hchild ih =>
      obtain ⟨tree, htree⟩ := ih
      obtain ⟨inner, rfl, htrees⟩ := Arena.exists_tree_of_child htree he
      obtain ⟨tree, htree⟩ := htrees _ hchild
      exact ⟨tree, Arena.treeWithin_mono (.refl _) (Nat.le_succ inner) htree⟩

/-- A node with a tree is not below its own children, because their trees have fewer levels. -/
theorem not_below_of_tree {levels : Nat} :
    ∀ {tree : Tree}, t.arena.treeWithin levels id = some tree → t.element? id = some e →
      ¬ t.Below e.children id := by
  induction levels using Nat.strong_induction_on with
  | h levels ih =>
      intro tree htree he hbelow
      obtain ⟨inner, rfl, htrees⟩ := Arena.exists_tree_of_child htree he
      obtain ⟨tree, htree⟩ := exists_tree_of_below htrees hbelow
      exact ih inner (Nat.lt_succ_self inner) htree he hbelow

theorem Parsed.exists_tree (ht : t.Parsed) (h : t.Within raw id) :
    ∃ levels tree, t.arena.treeWithin levels id = some tree := by
  induction h with
  | root hmem =>
      obtain ⟨region, file, source, hparse⟩ := ht
      exact ⟨_, exists_tree_of_parse hparse _ hmem⟩
  | child _ he hmem ih =>
      obtain ⟨levels, tree, htree⟩ := ih
      obtain ⟨inner, -, htrees⟩ := Arena.exists_tree_of_child htree he
      exact ⟨inner, htrees _ hmem⟩

/-- A node of a parsed template is not below its own children. Indices grow from children to
parents, and so on every way up. -/
theorem Parsed.not_below_children (ht : t.Parsed) (h : t.Within raw id)
    (he : t.element? id = some e) : ¬ t.Below e.children id := by
  obtain ⟨levels, tree, htree⟩ := ht.exists_tree h
  exact not_below_of_tree htree he

/-! ### An element with another loop -/

section WithLoop

variable (he : t.element? id = some e) (source : String)

include he

theorem exists_withLoop : (t.withLoop id source).arena.size = t.arena.size ∧
    ∀ i, (t.withLoop id source).arena.get? i =
      if i = id then some (.element (e.withLoop source)) else t.arena.get? i := by
  obtain ⟨arena, hmodify, hsize, hget⟩ := Arena.exists_modifyElement? he (·.withLoop source)
  rw [withLoop, hmodify, Option.getD_some]
  exact ⟨hsize, hget⟩

theorem get?_withLoop_self :
    (t.withLoop id source).arena.get? id = some (.element (e.withLoop source)) := by
  rw [(exists_withLoop he source).2, if_pos rfl]

theorem get?_withLoop_of_ne (hne : i ≠ id) :
    (t.withLoop id source).arena.get? i = t.arena.get? i := by
  rw [(exists_withLoop he source).2, if_neg hne]

theorem element?_withLoop_self : (t.withLoop id source).element? id = some (e.withLoop source) :=
  element?_of_get? (get?_withLoop_self he source)

theorem element?_withLoop_of_ne (hne : i ≠ id) :
    (t.withLoop id source).element? i = t.element? i := by
  rw [element?, Arena.element?, get?_withLoop_of_ne he source hne]
  rfl

/-- The same nodes are below each other. -/
theorem below_of_withLoop (h : (t.withLoop id source).Below ids i) : t.Below ids i := by
  induction h with
  | here hmem => exact .here hmem
  | @child parent child e' _ he' hchild ih =>
      by_cases hparent : parent = id
      · subst hparent
        rw [element?_withLoop_self he source] at he'
        obtain rfl := Option.some.inj he'
        exact .child ih he hchild
      · rw [element?_withLoop_of_ne he source hparent] at he'
        exact .child ih he' hchild

theorem OnceFree.withLoop (h : t.OnceFree ids) : (t.withLoop id source).OnceFree ids := by
  intro i e' hvariant he'
  have hbelow := below_of_withLoop he source hvariant
  by_cases hi : i = id
  · subst hi
    rw [element?_withLoop_self he source] at he'
    obtain rfl := Option.some.inj he'
    rw [Element.onceKey?_withLoop]
    exact h i e hbelow he
  · rw [element?_withLoop_of_ne he source hi] at he'
    exact h i e' hbelow he'

end WithLoop

/-! ### Templates that agree -/

/-- Templates that agree below some nodes are evaluated alike there, if nothing renders once. If
something did, the keys would have to stand for each other as well. -/
theorem alike_of_get? {w : World} (hsize : t.arena.size = t'.arena.size)
    (hget : ∀ i, t.Below ids i → t'.arena.get? i = t.arena.get? i) (hfree : t.OnceFree ids) :
    t.Alike w (fun i j => i = j ∧ t.Below ids i) t' where
  bisim := by
    refine ⟨hsize, ?_⟩
    rintro i _ ⟨rfl, hbelow⟩
    rw [hget i hbelow]
    cases hnode : t.arena.get? i with
    | none => exact .none
    | some node =>
        refine .some (Node.twin_self fun e he child hchild => ⟨rfl, ?_⟩)
        exact .child hbelow (element?_of_get? (he ▸ hnode)) hchild
  keys := by
    rintro i _ e e' ⟨rfl, hbelow⟩ he he'
    have hsame : t'.element? i = t.element? i := by
      rw [element?, Arena.element?, hget i hbelow]
      rfl
    obtain rfl : e' = e := Option.some.inj (he'.symm.trans (hsame.trans he))
    rw [hfree i e' hbelow he]
    exact .none

end Template

namespace Render

variable {t : Template} {id : NodeId} {e : Element} {raw : Bool} {w : World}

/-- Outside of its own loop an element is evaluated alike, whatever loop it has. So loops over
different collections may be compared as loops over one element. -/
theorem sim_withLoop (ht : t.Parsed) (hwithin : t.Within raw id) (he : t.element? id = some e)
    (hfree : t.OnceFree [id]) (depth : Nat) (source source' : String) :
    Sim w Outputs (nodeOnce (nodes depth) (t.withLoop id source) id (e.withLoop source))
      (nodeOnce (nodes depth) (t.withLoop id source') id (e.withLoop source')) := by
  have hapart := ht.not_below_children hwithin he
  have hsize : (t.withLoop id source).arena.size = (t.withLoop id source').arena.size := by
    rw [(Template.exists_withLoop he source).1, (Template.exists_withLoop he source').1]
  have halike : (t.withLoop id source).Alike w
      (fun i j => i = j ∧ (t.withLoop id source).Below e.children i) (t.withLoop id source') := by
    refine Template.alike_of_get? hsize (fun i hbelow => ?_)
      ((hfree.children he).withLoop he source)
    -- The node itself is the only one that differs, and it is not below its children.
    have hne : i ≠ id := by
      rintro rfl
      exact hapart (Template.below_of_withLoop he source hbelow)
    rw [Template.get?_withLoop_of_ne he source hne, Template.get?_withLoop_of_ne he source' hne]
  have hchildren : ∀ child ∈ e.children,
      child = child ∧ (t.withLoop id source).Below e.children child :=
    fun child hchild => ⟨rfl, .here hchild⟩
  -- Neither of the two elements renders once, so no key is looked at.
  have hkey : ∀ source, onceKey? id (e.withLoop source) = none := by
    intro source
    rw [Element.onceKey?_withLoop]
    exact hfree id e (.here List.mem_cons_self) he
  refine sim_nodeOnce (sim_nodes depth) halike (e.alike_withLoop source source' hchildren) ?_ ?_
  · rw [hkey, hkey]
    exact .none
  · -- The copies of the element are shown alike, because a loop is not shown.
    unfold Arena.tree? Arena.treeWithin
    rw [Template.get?_withLoop_self he source, Template.get?_withLoop_self he source', hsize]
    have htrees : e.children.mapM
          ((t.withLoop id source).arena.treeWithin (t.withLoop id source').arena.size) =
        e.children.mapM
          ((t.withLoop id source').arena.treeWithin (t.withLoop id source').arena.size) :=
      Arena.mapM_eq_of_forall₂ (Arena.Bisim.treeWithin halike.bisim _)
        (List.forall₂_same.2 hchildren)
    dsimp only [Element.withLoop]
    rw [htrees]
    cases e.children.mapM
      ((t.withLoop id source').arena.treeWithin (t.withLoop id source').arena.size) with
    | none => exact .none
    | some ts =>
        refine .some (Tree.shown_element ?_ (List.forall₂_same.2 fun _ _ => rfl))
        rw [List.filter_cons, List.filter_cons]
        rfl

end Render
end Stencil
