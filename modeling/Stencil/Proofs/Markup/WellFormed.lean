import Mathlib.Data.List.Infix
import Stencil.Proofs.Markup.Levels

/-!
# Well-formed arenas

## Main definitions

* `Arena.Owns` — an id is that of a node of the arena
* `Arena.WellFormed` — children belong to the arena and stand before their parents
* `Arena.Invariant` — what holds of an arena, and of some of its nodes, whatever is allocated above
  such nodes

## Main results

* `Arena.Extends.nodes_prefix` — an arena that grows has its old nodes in their old places
* `Arena.WellFormed.push`, `Arena.WellFormed.exists_tree` — allocation keeps an arena well formed,
  and in a well-formed arena there is a tree below every node
* `Arena.Invariant.plant` — an invariant is kept when a tree is added

## Design notes

That children stand before their parents is what makes every walk over an arena end: the index of a
node is the measure.  An invariant is given for single nodes, as trees are allocated node by node.
-/

namespace Stencil.Markup.Arena

variable {a a' : Arena} {id : NodeId} {node : Node}

/-! ### Nodes of an arena -/

/-- An id is that of a node of the arena. -/
def Owns (a : Arena) (id : NodeId) : Prop := id.region = a.region ∧ id.index < a.size

instance (a : Arena) (id : NodeId) : Decidable (a.Owns id) :=
  inferInstanceAs (Decidable (id.region = a.region ∧ id.index < a.size))

/-- The ids of an arena are those under which there is a node. -/
theorem owns_iff_exists_get? : a.Owns id ↔ ∃ node, a.get? id = some node := by
  constructor
  · rintro ⟨hregion, hlt⟩
    refine ⟨a.nodes[id.index], ?_⟩
    rw [get?, if_pos hregion]
    exact Array.getElem?_eq_getElem hlt
  · rintro ⟨node, hget⟩
    unfold get? at hget
    split at hget
    · rename_i hregion
      exact ⟨hregion, (Array.getElem?_eq_some_iff.1 hget).1⟩
    · cases hget

theorem owns_of_element? {e : Element} (h : a.element? id = some e) : a.Owns id := by
  obtain ⟨node, hget, -⟩ := Option.bind_eq_some_iff.1 h
  exact owns_iff_exists_get?.2 ⟨node, hget⟩

theorem Extends.owns (h : a.Extends a') (hid : a.Owns id) : a'.Owns id := by
  obtain ⟨node, hget⟩ := owns_iff_exists_get?.1 hid
  exact owns_iff_exists_get?.2 ⟨node, h.get? id node hget⟩

theorem owns_push (a : Arena) (node : Node) : (a.push node).2.Owns (a.push node).1 :=
  owns_iff_exists_get?.2 ⟨node, get?_push_self a node⟩

/-- In an arena with a new node there are the new node and those from before. An id of another arena
finds nothing in either. -/
theorem get?_push (a : Arena) (node : Node) (id : NodeId) :
    (a.push node).2.get? id = if id = a.nextId then some node else a.get? id := by
  split
  · rename_i hnext
    subst hnext
    exact get?_push_self a node
  · rename_i hnext
    by_cases hregion : id.region = a.region
    · have hindex : id.index ≠ a.nodes.size := by
        rintro hindex
        refine hnext ?_
        obtain ⟨region, index⟩ := id
        obtain rfl : region = a.region := hregion
        obtain rfl : index = a.nodes.size := hindex
        rfl
      simp only [push, get?, hregion, if_true]
      rw [Array.getElem?_push, if_neg hindex]
    · simp [push, get?, hregion]

/-- An arena that grows has its old nodes in their old places. Growth is said of look-ups; this is
the same said of the nodes as a list. -/
theorem Extends.nodes_prefix (h : a.Extends a') : a.nodes.toList <+: a'.nodes.toList := by
  rw [List.prefix_iff_getElem?]
  intro i hi
  have hget : a.get? ⟨a.region, i⟩ = some a.nodes.toList[i] := by
    rw [Arena.get?, if_pos rfl, ← Array.getElem?_toList]
    exact List.getElem?_eq_getElem hi
  have hgrown := h.get? _ _ hget
  rw [Arena.get?, h.region, if_pos rfl, ← Array.getElem?_toList] at hgrown
  exact hgrown

/-! ### Well-formed arenas -/

/-- Children belong to the arena and stand before their parents. A walk downwards thus ends, and no
node is below itself. -/
def WellFormed (a : Arena) : Prop :=
  ∀ id e, a.element? id = some e → ∀ child ∈ e.children, a.Owns child ∧ child.index < id.index

theorem wellFormed_empty (region : Nat) : (empty region).WellFormed := by
  intro id e he
  obtain ⟨-, hlt⟩ := owns_of_element? he
  exact absurd hlt (Nat.not_lt_zero id.index)

/-- Above nodes of the arena a new node stands well. It is the only way in which arenas come to have
nodes. -/
theorem WellFormed.push (h : a.WellFormed)
    (hnode : ∀ e, node.element? = some e → ∀ child ∈ e.children, a.Owns child) :
    (a.push node).2.WellFormed := by
  have hextends := extends_push a node
  intro id e he child hchild
  rw [element?, get?_push] at he
  split at he
  · rename_i hnext
    subst hnext
    have howns := hnode e he child hchild
    exact ⟨hextends.owns howns, howns.2⟩
  · obtain ⟨howns, hlt⟩ := h id e he child hchild
    exact ⟨hextends.owns howns, hlt⟩

/-- In a well-formed arena there is a tree below every node. The induction is on the index, as
children have smaller ones. -/
theorem WellFormed.exists_tree (h : a.WellFormed) (hid : a.Owns id) :
    ∃ t, a.tree? id = some t := by
  have hwithin : ∀ index id, id.index = index → a.Owns id →
      ∃ t, a.treeWithin (index + 1) id = some t := by
    intro index
    induction index using Nat.strong_induction_on with
    | h index ih =>
        rintro id rfl hid
        obtain ⟨node, hget⟩ := owns_iff_exists_get?.1 hid
        unfold treeWithin
        rw [hget]
        cases node with
        | text s => exact ⟨_, rfl⟩
        | raw s => exact ⟨_, rfl⟩
        | element e =>
            have he : a.element? id = some e := by
              rw [element?, hget]
              rfl
            have hchildren : ∀ child ∈ e.children, ∃ t, a.treeWithin id.index child = some t := by
              intro child hchild
              obtain ⟨howns, hlt⟩ := h id e he child hchild
              obtain ⟨t, ht⟩ := ih child.index hlt child rfl howns
              exact ⟨t, treeWithin_mono (.refl a) hlt ht⟩
            choose! tree htree using hchildren
            have hmap : e.children.mapM (a.treeWithin id.index) = some (e.children.map tree) :=
              mapM_of_forall₂ (List.forall₂_map_right_iff.2
                (List.forall₂_same.2 fun child hchild => htree child hchild))
            exact ⟨_, Option.map_eq_some_iff.2 ⟨_, hmap, rfl⟩⟩
  obtain ⟨t, ht⟩ := hwithin id.index id rfl hid
  exact ⟨t, treeWithin_mono (.refl a) (Nat.succ_le_succ (Nat.le_of_lt hid.2)) ht⟩

/-! ### Invariants -/

/-- What holds of an arena, and of some of its nodes: if it holds of the children of a new node,
then of the arena with the new node, and of this node. -/
structure Invariant where
  Sound : Arena → Prop
  Good : Arena → NodeId → Prop
  good_of_extends : ∀ {a a' id}, a.Extends a' → Good a id → Good a' id
  push : ∀ {a node}, Sound a →
    (∀ e, node.element? = some e → ∀ child ∈ e.children, Good a child) →
    Sound (a.push node).2 ∧ Good (a.push node).2 (a.push node).1

/-- The arena is well formed, and the nodes belong to it. -/
def wellFormed : Invariant where
  Sound := WellFormed
  Good := Owns
  good_of_extends := Extends.owns
  push {a node} h hnode := ⟨h.push hnode, owns_push a node⟩

namespace Invariant

variable (I : Invariant)

mutual

/-- A tree is added node by node, so that what each push keeps is kept, and what each node added is
like all of them are like. -/
theorem plant {a : Arena} (h : I.Sound a) :
    (t : Tree) → I.Sound (a.plant t).2 ∧ I.Good (a.plant t).2 (a.plant t).1
  | .text s => I.push h nofun
  | .raw s => I.push h nofun
  | .element _ _ _ children => by
      have hchildren := plantAll h children
      refine I.push hchildren.1 fun e he child hchild => ?_
      obtain rfl := Option.some.inj he
      exact hchildren.2 child hchild

theorem plantAll {a : Arena} (h : I.Sound a) : (ts : List Tree) →
    I.Sound (a.plantAll ts).2 ∧ ∀ id ∈ (a.plantAll ts).1, I.Good (a.plantAll ts).2 id
  | [] => ⟨h, nofun⟩
  | t :: rest => by
      have hfirst := plant h t
      have hrest := plantAll hfirst.1 rest
      refine ⟨hrest.1, List.forall_mem_cons.2 ⟨?_, hrest.2⟩⟩
      exact I.good_of_extends (extends_plantAll _ rest) hfirst.2

end

end Invariant

end Stencil.Markup.Arena
