import Stencil.Proofs.Markup.Levels
import Stencil.Proofs.Markup.Outline

/-!
# Walks over arenas

## Main definitions

* `Node.bare` — a node of an arena without its children
* `Node.label` — what a node of an arena is, without its children and its payload
* `Tree.preorder` — the nodes of a tree, each before those below it

## Main results

* `Arena.map_bare_walk` — a walk comes to the nodes of the trees, each before those below it
* `Arena.map_label_walk` — that is in the order of their outline
* `Arena.perm_walk_plantAll` — a walk over trees that were planted comes to each of their nodes once

## Design notes

The nodes of a tree that is planted get the next ids, as many as it has nodes.  They are allocated
children first and visited parents first, so that the ids of a walk are those of an interval in some
other order.
-/

namespace Stencil.Markup

/-- A node without its children. -/
def Node.bare : Node → Node
  | .text s => .text s
  | .raw s => .raw s
  | .element e => .element { e with children := [] }

/-- What a node is, without its children and its payload. -/
def Node.label : Node → Label
  | .text s => .text s
  | .raw s => .raw s
  | .element e => .element e.tag e.attributes

theorem Node.label_bare (node : Node) : node.bare.label = node.label := by
  cases node <;> rfl

namespace Tree

mutual

/-- The nodes of a tree without their children, each before those below it. -/
def preorder : Tree → List Node
  | .text s => [.text s]
  | .raw s => [.raw s]
  | .element tag attributes payload children =>
    .element ⟨tag, attributes, [], payload⟩ :: preorderAll children

/-- The nodes of trees one after the other. -/
def preorderAll : List Tree → List Node
  | [] => []
  | t :: rest => preorder t ++ preorderAll rest

end

mutual

theorem length_preorder : (t : Tree) → t.preorder.length = t.size
  | .text _ => rfl
  | .raw _ => rfl
  | .element _ _ _ children => congrArg (· + 1) (length_preorderAll children)

theorem length_preorderAll : (ts : List Tree) → (preorderAll ts).length = forestSize ts
  | [] => rfl
  | t :: rest => by
      rw [preorderAll, List.length_append, length_preorder, length_preorderAll]
      rfl

end

mutual

/-- The labels of the nodes are those of the outline, at whatever depth it begins. -/
theorem map_label_preorder (depth : Nat) :
    (t : Tree) → t.preorder.map Node.label = (t.outline depth).map Prod.snd
  | .text _ => rfl
  | .raw _ => rfl
  | .element tag attributes _ children =>
      congrArg (Label.element tag attributes :: ·) (map_label_preorderAll (depth + 1) children)

theorem map_label_preorderAll (depth : Nat) : (ts : List Tree) →
    (preorderAll ts).map Node.label = (outlineAll depth ts).map Prod.snd
  | [] => rfl
  | t :: rest => by
      rw [preorderAll, List.map_append, map_label_preorder depth t,
        map_label_preorderAll depth rest]
      exact List.map_append.symm

end

end Tree

namespace Arena

variable {a a' : Arena} {id : NodeId}

/-- A walk finds what is there. -/
theorem get?_of_mem_walkWithin (levels : Nat) :
    ∀ {id}, ∀ p ∈ a.walkWithin levels id, a.get? p.1 = some p.2 := by
  induction levels with
  | zero => exact fun _ hp => nomatch hp
  | succ levels ih =>
      intro id p hp
      unfold walkWithin at hp
      split at hp
      · exact nomatch hp
      · rename_i e hget
        rcases List.mem_cons.1 hp with rfl | hp
        · exact hget
        · obtain ⟨child, -, hp⟩ := List.mem_flatMap.1 hp
          exact ih p hp
      · rename_i node _ hget
        obtain rfl := List.mem_singleton.1 hp
        exact hget

/-- A walk that comes to all ids of an arena finds all its nodes. -/
theorem mem_walk_of_get? {roots : List NodeId} {region : Nat} (hregion : a.region = region)
    (hperm : ((a.walk roots).map Prod.fst).Perm ((List.range a.size).map (NodeId.mk region)))
    {node : Node} (h : a.get? id = some node) : (id, node) ∈ a.walk roots := by
  obtain ⟨hid, hlt⟩ : id.region = a.region ∧ id.index < a.size := by
    unfold get? at h
    split at h
    · rename_i hid
      exact ⟨hid, (Array.getElem?_eq_some_iff.1 h).1⟩
    · exact nomatch h
  have hmem : id ∈ (a.walk roots).map Prod.fst :=
    hperm.mem_iff.2 (List.mem_map.2 ⟨id.index, List.mem_range.2 hlt, by rw [← hregion, ← hid]⟩)
  obtain ⟨⟨id', node'⟩, hwalk, rfl⟩ := List.mem_map.1 hmem
  obtain ⟨root, -, hfound⟩ := List.mem_flatMap.1 hwalk
  obtain rfl : node' = node := Option.some.inj ((get?_of_mem_walkWithin _ _ hfound).symm.trans h)
  exact hwalk

/-! ### Nodes without their children -/

/-- Trees are visited one after the other. -/
theorem map_bare_flatMap {visit : NodeId → List (NodeId × Node)} {ids : List NodeId}
    {ts : List Tree}
    (h : List.Forall₂ (fun id t => (visit id).map (·.2.bare) = t.preorder) ids ts) :
    (ids.flatMap visit).map (·.2.bare) = Tree.preorderAll ts := by
  induction h with
  | nil => rfl
  | @cons id t ids ts ht _ ih =>
      rw [List.flatMap_cons, List.map_append, ih, ht]
      rfl

/-- The walk over a tree comes to its nodes, each before those below it. The levels are those of the
tree, so that both recursions go down together. -/
theorem map_bare_walkWithin (levels : Nat) :
    ∀ {id t}, a.treeWithin levels id = some t →
      (a.walkWithin levels id).map (·.2.bare) = t.preorder := by
  induction levels with
  | zero => exact fun h => nomatch h
  | succ levels ih =>
      intro id t h
      unfold treeWithin at h
      unfold walkWithin
      cases hget : a.get? id with
      | none =>
          rw [hget] at h
          exact nomatch h
      | some node =>
          rw [hget] at h
          cases node with
          | text s =>
              obtain rfl := Option.some.inj h
              rfl
          | raw s =>
              obtain rfl := Option.some.inj h
              rfl
          | element e =>
              obtain ⟨ts, hmap, rfl⟩ := Option.map_eq_some_iff.1 h
              have hchildren := map_bare_flatMap
                ((forall₂_of_mapM hmap).imp fun id t ht => ih ht)
              exact congrArg (Node.element { e with children := [] } :: ·) hchildren

/-- A walk comes to the nodes of the trees, each before those below it. Children are left out of
what is compared, as they are ids in the one and trees in the other. -/
theorem map_bare_walk {roots : List NodeId} {forest : List Tree}
    (h : List.Forall₂ (fun id t => a.tree? id = some t) roots forest) :
    (a.walk roots).map (·.2.bare) = Tree.preorderAll forest :=
  map_bare_flatMap (h.imp fun _ _ ht => map_bare_walkWithin _ ht)

/-- A walk comes to the nodes of the trees in the order of their outline. Outlines are made from the
source, so this ties the arena to the text. -/
theorem map_label_walk {roots : List NodeId} {forest : List Tree}
    (h : List.Forall₂ (fun id t => a.tree? id = some t) roots forest) (depth : Nat) :
    (a.walk roots).map (·.2.label) = (Tree.outlineAll depth forest).map Prod.snd := by
  rw [← Tree.map_label_preorderAll, ← map_bare_walk h, List.map_map]
  exact List.map_congr_left fun p _ => p.2.label_bare.symm

/-! ### Ids -/

/-- The next ids of an arena, so many of them. -/
def nextIds (a : Arena) (count : Nat) : List NodeId :=
  (List.range' a.size count).map (NodeId.mk a.region)

theorem nextIds_append (a : Arena) (t : Tree) (count : Nat) :
    a.nextIds (t.size + count) = a.nextIds t.size ++ (a.plant t).2.nextIds count := by
  rw [nextIds, nextIds, nextIds, size_plant, region_plant, ← List.map_append,
    List.range'_append_1]

/-- A leaf is all that a walk over it comes to. -/
theorem perm_walkWithin_leaf {node : Node} (hnode : node.element? = none) {levels : Nat}
    (hextends : (a.push node).2.Extends a') (hlevels : 1 ≤ levels) :
    ((a'.walkWithin levels (a.push node).1).map Prod.fst).Perm (a.nextIds 1) := by
  obtain ⟨levels, rfl⟩ : ∃ n, levels = n + 1 := ⟨levels - 1, by omega⟩
  have hget := hextends.get? _ _ (get?_push_self a node)
  unfold walkWithin
  rw [hget]
  cases node with
  | element e => exact nomatch hnode
  | text s => exact .refl _
  | raw s => exact .refl _

mutual

/-- A walk over a tree that was planted comes to each of its nodes once. In the arena children stand
before their parents, in the walk after them, so the order differs. -/
theorem perm_walkWithin_plant (a : Arena) : (t : Tree) → ∀ {a' levels},
    (a.plant t).2.Extends a' → t.size ≤ levels →
      ((a'.walkWithin levels (a.plant t).1).map Prod.fst).Perm (a.nextIds t.size)
  | .text _, _, _, hextends, hlevels => perm_walkWithin_leaf rfl hextends hlevels
  | .raw _, _, _, hextends, hlevels => perm_walkWithin_leaf rfl hextends hlevels
  | .element tag attributes payload children, a', levels, hextends, hlevels => by
      obtain ⟨levels, rfl⟩ : ∃ n, levels = n + 1 :=
        ⟨levels - 1, by have := Nat.le_trans (Nat.le_add_left _ _) hlevels; omega⟩
      have hget := hextends.get? _ _ (get?_push_self _ _)
      have hchildren := perm_walkWithin_plantAll a children ((extends_push _ _).trans hextends)
        (Nat.le_of_succ_le_succ hlevels)
      -- The element comes first in the walk, and gets its id after everything below it.
      have hids : a.nextIds (Tree.forestSize children + 1) =
          a.nextIds (Tree.forestSize children) ++ [(a.plantAll children).2.nextId] := by
        rw [nextIds, List.range'_1_concat, List.map_append, nextId, size_plantAll, region_plantAll]
        rfl
      show ((a'.walkWithin (levels + 1) _).map Prod.fst).Perm
        (a.nextIds (Tree.forestSize children + 1))
      rw [hids, walkWithin]
      dsimp only [plant]
      rw [hget]
      exact (hchildren.cons _).trans (List.perm_append_singleton _ _).symm

theorem perm_walkWithin_plantAll (a : Arena) : (ts : List Tree) → ∀ {a' levels},
    (a.plantAll ts).2.Extends a' → Tree.forestSize ts ≤ levels →
      (((a.plantAll ts).1.flatMap (a'.walkWithin levels)).map Prod.fst).Perm
        (a.nextIds (Tree.forestSize ts))
  | [], _, _, _, _ => .refl _
  | t :: rest, a', levels, hextends, hlevels => by
      have hfirst := perm_walkWithin_plant a t ((extends_plantAll _ rest).trans hextends)
        (Nat.le_trans (Nat.le_add_right _ _) hlevels)
      have hrest := perm_walkWithin_plantAll (a.plant t).2 rest hextends
        (Nat.le_trans (Nat.le_add_left _ _) hlevels)
      show ((((a.plant t).1 :: ((a.plant t).2.plantAll rest).1).flatMap
        (a'.walkWithin levels)).map Prod.fst).Perm (a.nextIds (t.size + Tree.forestSize rest))
      rw [List.flatMap_cons, List.map_append, nextIds_append]
      exact hfirst.append hrest

end

/-- A walk over trees that were planted in an empty arena comes to each node of the arena once.
Planting puts children first and the walk comes to parents first, so the orders differ. -/
theorem perm_walk_plantAll (region : Nat) (forest : List Tree) :
    let (roots, a) := (empty region).plantAll forest
    ((a.walk roots).map Prod.fst).Perm ((List.range a.size).map (NodeId.mk region)) := by
  have hsize : ((empty region).plantAll forest).2.size = Tree.forestSize forest :=
    (size_plantAll (empty region) forest).trans (Nat.zero_add _)
  have hlevels : Tree.forestSize forest ≤ ((empty region).plantAll forest).2.size + 1 := by omega
  have hperm := perm_walkWithin_plantAll (empty region) forest (.refl _) hlevels
  have hids : (empty region).nextIds (Tree.forestSize forest) =
      (List.range ((empty region).plantAll forest).2.size).map (NodeId.mk region) := by
    rw [hsize, List.range_eq_range']
    rfl
  rw [hids] at hperm
  exact hperm

end Arena
end Stencil.Markup
