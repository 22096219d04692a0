import Stencil.Proofs.Markup.Growth
import Stencil.Proofs.Markup.Stored

/-!
# How far below a node its tree is found

## Main results

* `Arena.treeWithin_mono` — a tree that is found is found with more levels, and in an arena that has
  grown
* `Arena.exists_tree_of_child` — below a node with a tree are nodes with trees, one level further
  down
* `Arena.treeWithin_plant` — a tree that was planted is found within as many levels as it has nodes
* `Arena.Extends.tree?`, `Arena.tree?_push`, `Arena.tree?_plant` — whole trees in an arena that
  grows

## Design notes

The number of levels is the measure of a node: it is less at its children, and other than a path
from the root it does not depend on how a render comes to the node.
-/

namespace Stencil.Markup.Arena

variable {a a' : Arena} {id : NodeId}

/-- A tree that is found is found with more levels, and in an arena that has grown. The number of
levels is therefore only a bound, and any that is enough may be used. -/
theorem treeWithin_mono (ha : a.Extends a') {levels : Nat} :
    ∀ {levels' id t}, levels ≤ levels' → a.treeWithin levels id = some t →
      a'.treeWithin levels' id = some t := by
  induction levels with
  | zero => exact fun _ h => nomatch h
  | succ levels ih =>
      intro levels' id t hle h
      obtain ⟨inner, rfl⟩ : ∃ inner, levels' = inner + 1 := ⟨levels' - 1, by omega⟩
      have hchildren : ∀ {ids : List NodeId} {ts}, ids.mapM (a.treeWithin levels) = some ts →
          ids.mapM (a'.treeWithin inner) = some ts := fun hmap =>
        mapM_of_forall₂ ((forall₂_of_mapM hmap).imp fun _ _ ht =>
          ih (Nat.le_of_succ_le_succ hle) ht)
      unfold treeWithin at h ⊢
      cases hget : a.get? id with
      | none =>
          rw [hget] at h
          cases h
      | some node =>
          rw [hget] at h
          rw [ha.get? id node hget]
          cases node with
          | text s => exact h
          | raw s => exact h
          | element e =>
              obtain ⟨ts, hmap, ht⟩ := Option.map_eq_some_iff.1 h
              exact Option.map_eq_some_iff.2 ⟨ts, hchildren hmap, ht⟩

/-- Below a node with a tree are nodes with trees, one level further down. The levels are what
recursion over an arena goes by, since ids alone do not say that there is an end. -/
theorem exists_tree_of_child {levels : Nat} {t : Tree} {e : Element}
    (h : a.treeWithin levels id = some t) (he : a.element? id = some e) :
    ∃ inner, levels = inner + 1 ∧
      ∀ child ∈ e.children, ∃ tree, a.treeWithin inner child = some tree := by
  obtain ⟨inner, rfl⟩ := exists_levels h
  refine ⟨inner, rfl, fun child hchild => ?_⟩
  obtain ⟨node, hget, hnode⟩ := Option.bind_eq_some_iff.1 he
  unfold treeWithin at h
  rw [hget] at h
  cases node with
  | text s => cases hnode
  | raw s => cases hnode
  | element e' =>
      obtain rfl : e' = e := Option.some.inj hnode
      obtain ⟨ts, hmap, -⟩ := Option.map_eq_some_iff.1 h
      obtain ⟨tree, -, htree⟩ := exists_of_forall₂ (forall₂_of_mapM hmap).flip hchild
      exact ⟨tree, htree⟩

/-! ### Allocation -/

/-- The trees below the children of a new element are those below the element. -/
theorem treeWithin_push {e : Element} {levels : Nat} {ts : List Tree}
    (h : List.Forall₂ (fun child t => a.treeWithin levels child = some t) e.children ts) :
    (a.push (.element e)).2.treeWithin (levels + 1) (a.push (.element e)).1 =
      some (.element e.tag e.attributes e.payload ts) := by
  rw [treeWithin, get?_push_self]
  refine Option.map_eq_some_iff.2 ⟨ts, mapM_of_forall₂ (h.imp fun child t ht => ?_), rfl⟩
  exact treeWithin_mono (extends_push a _) (Nat.le_refl levels) ht

mutual

/-- A tree that was planted is found within as many levels as it has nodes. That is more than it
needs, but it goes through the children with no look at the deepest one. -/
theorem treeWithin_plant (a : Arena) :
    (t : Tree) → (a.plant t).2.treeWithin t.size (a.plant t).1 = some t
  | .text s => by
      show (a.push (.text s)).2.treeWithin 1 (a.push (.text s)).1 = _
      rw [treeWithin, get?_push_self]
  | .raw s => by
      show (a.push (.raw s)).2.treeWithin 1 (a.push (.raw s)).1 = _
      rw [treeWithin, get?_push_self]
  | .element _ _ _ children => treeWithin_push (treeWithin_plantAll a children)

theorem treeWithin_plantAll (a : Arena) : (ts : List Tree) →
    List.Forall₂ (fun id t => (a.plantAll ts).2.treeWithin (Tree.forestSize ts) id = some t)
      (a.plantAll ts).1 ts
  | [] => .nil
  | t :: rest => by
      have hfirst := treeWithin_plant a t
      have hrest := treeWithin_plantAll (a.plant t).2 rest
      refine .cons ?_ (hrest.imp fun id t ht => ?_)
      · exact treeWithin_mono (extends_plantAll _ rest) (Nat.le_add_right _ _) hfirst
      · exact treeWithin_mono (.refl _) (Nat.le_add_left _ _) ht

end

mutual

theorem size_plant (a : Arena) : (t : Tree) → (a.plant t).2.size = a.size + t.size
  | .text s => size_push a (.text s)
  | .raw s => size_push a (.raw s)
  | .element _ _ _ children =>
      (size_push _ _).trans (congrArg (· + 1) (size_plantAll a children))

theorem size_plantAll (a : Arena) :
    (ts : List Tree) → (a.plantAll ts).2.size = a.size + Tree.forestSize ts
  | [] => rfl
  | t :: rest => by
      show ((a.plant t).2.plantAll rest).2.size = a.size + (t.size + Tree.forestSize rest)
      rw [size_plantAll, size_plant, Nat.add_assoc]

end

/-! ### Whole trees -/

theorem Extends.size_le (h : a.Extends a') : a.size ≤ a'.size := by
  by_contra hlt
  have hlast : a'.size < a.nodes.size := Nat.lt_of_not_le hlt
  -- A node at a position that the larger arena lacks would have to be there.
  have hget : a.get? ⟨a.region, a'.size⟩ = some a.nodes[a'.size] := by
    simp [Arena.get?, hlast]
  have hgone := h.get? _ _ hget
  have hbeyond : a'.nodes[a'.size]? = none := by simp [Arena.size]
  rw [Arena.get?, h.region, if_pos rfl, hbeyond] at hgone
  cases hgone

/-- The tree below a node stays as it is while the arena grows. Arenas only grow at their ends, and
children come before their parents. -/
theorem Extends.tree? (h : a.Extends a') {t : Tree} (ht : a.tree? id = some t) :
    a'.tree? id = some t :=
  treeWithin_mono h (Nat.succ_le_succ h.size_le) ht

/-- The tree below a new element is that of the trees below its children. The children are in the
arena already, so adding the element does not change what is below them. -/
theorem tree?_push {e : Element} {ts : List Tree}
    (h : List.Forall₂ (fun child t => a.tree? child = some t) e.children ts) :
    (a.push (.element e)).2.tree? (a.push (.element e)).1 =
      some (.element e.tag e.attributes e.payload ts) := by
  rw [Arena.tree?, size_push]
  exact treeWithin_push h

/-- A tree that was planted is found, from the id that planting gives. Arenas thus lose nothing of
the trees that a parser builds. -/
theorem tree?_plant (a : Arena) (t : Tree) : (a.plant t).2.tree? (a.plant t).1 = some t := by
  refine treeWithin_mono (.refl _) ?_ (treeWithin_plant a t)
  rw [size_plant]
  omega

/-- Trees that were planted are found. -/
theorem tree?_plantAll (a : Arena) (ts : List Tree) :
    List.Forall₂ (fun id t => (a.plantAll ts).2.tree? id = some t) (a.plantAll ts).1 ts := by
  refine (treeWithin_plantAll a ts).imp fun id t ht => treeWithin_mono (.refl _) ?_ ht
  rw [size_plantAll]
  omega

end Stencil.Markup.Arena
