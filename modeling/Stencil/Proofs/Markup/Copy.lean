import Stencil.Proofs.Markup.Walk
import Stencil.Proofs.Markup.WellFormed

/-!
# Trees copied from one arena to another

## Main definitions

* `Arena.next?` — one step of a walk with a stack
* `Arena.copyAll?` — copies of some trees, one after the other

## Main results

* `Arena.WellFormed.walk_eq` — a walk goes step by step, with a stack of roots
* `Arena.WellFormed.deepCopy?_eq` — a node is copied after its children
* `Arena.WellFormed.copies_tree` — a copy has the tree of its source and is of new nodes only

## Design notes

A node may be below another one more than once. Its copies are then nodes of their own, so that the
count of new nodes is that of a walk, and not of the nodes that the walk comes to.
-/

namespace Stencil.Markup

/-- The children of a node, none for text. -/
def Node.children : Node → List NodeId
  | .element e => e.children
  | _ => []

namespace Arena

variable {a b source : Arena} {id : NodeId} {node : Node}

theorem WellFormed.of_get? (h : a.WellFormed) (hget : a.get? id = some node) :
    ∀ child ∈ node.children, a.Owns child ∧ child.index < id.index := by
  cases node with
  | text s => exact nofun
  | raw s => exact nofun
  | element e =>
      refine h id e ?_
      rw [element?, hget]
      rfl

/-! ### Walks with a stack -/

theorem walkWithin_succ (a : Arena) (levels : Nat) (id : NodeId) :
    a.walkWithin (levels + 1) id =
      match a.get? id with
      | none => []
      | some node => (id, node) :: node.children.flatMap (a.walkWithin levels) := by
  rw [walkWithin]
  rcases a.get? id with _ | node
  · rfl
  · cases node <;> rfl

/-- A walk over a well-formed arena needs no more levels than there are nodes up to the root, for
every step downwards goes to a smaller index. -/
theorem WellFormed.walkWithin_eq (h : a.WellFormed) {levels : Nat} :
    ∀ {levels' id}, id.index < levels → id.index < levels' →
      a.walkWithin levels id = a.walkWithin levels' id := by
  induction levels with
  | zero => exact fun hlt => absurd hlt (Nat.not_lt_zero _)
  | succ levels ih =>
      intro levels' id hlt hlt'
      obtain ⟨levels', rfl⟩ : ∃ n, levels' = n + 1 :=
        Nat.exists_eq_add_one.2 (Nat.zero_lt_of_lt hlt')
      rw [walkWithin_succ, walkWithin_succ]
      rcases hget : a.get? id with _ | node
      · rfl
      · have hchildren : node.children.flatMap (a.walkWithin levels) =
            node.children.flatMap (a.walkWithin levels') := by
          refine List.flatMap_congr fun child hchild => ?_
          have := (h.of_get? hget child hchild).2
          exact ih (by omega) (by omega)
        exact congrArg ((id, node) :: ·) hchildren

/-- The next node of a walk, and the roots that are left: those below the node come first. -/
def next? (a : Arena) : List NodeId → Option ((NodeId × Node) × List NodeId)
  | [] => none
  | id :: stack =>
    match a.get? id with
    | none => a.next? stack
    | some node => some ((id, node), node.children ++ stack)

/-- A walk over a well-formed arena goes node by node, with a stack of roots. Children have smaller
indices than their parents, so the levels that a walk may go down are always enough, and the
equation needs none. -/
theorem WellFormed.walk_eq (h : a.WellFormed) (stack : List NodeId) :
    a.walk stack =
      match a.next? stack with
      | none => []
      | some (visited, stack) => visited :: a.walk stack := by
  induction stack with
  | nil => rfl
  | cons id stack ih =>
      have hcons : a.walk (id :: stack) = a.walkWithin (a.size + 1) id ++ a.walk stack := rfl
      rw [hcons, walkWithin_succ, next?]
      rcases hget : a.get? id with _ | node
      · exact ih
      · have hchildren : node.children.flatMap (a.walkWithin a.size) = a.walk node.children := by
          refine List.flatMap_congr fun child hchild => ?_
          have := (h.of_get? hget child hchild).1.2
          exact h.walkWithin_eq this (by omega)
        show (id, node) :: (node.children.flatMap (a.walkWithin a.size) ++ a.walk stack) = _
        rw [hchildren, walk, walk, ← List.flatMap_append]
        rfl

/-! ### Copies -/

/-- Copies the trees below some nodes, one after the other. -/
def copyAll? (a source : Arena) : List NodeId → Option (List NodeId × Arena)
  | [] => some ([], a)
  | id :: ids => do
    let (copied, a) ← a.deepCopy? source id
    let (rest, a) ← a.copyAll? source ids
    return (copied :: rest, a)

theorem copyAll?_of_forall₂ {ids : List NodeId} {ts : List Tree}
    (h : List.Forall₂ (fun id t => source.tree? id = some t) ids ts) (a : Arena) :
    a.copyAll? source ids = some (a.plantAll ts) := by
  induction h generalizing a with
  | nil => rfl
  | @cons id t ids ts ht _ ih =>
      rw [copyAll?, deepCopy?, ht]
      simp only [Option.map_some, Option.bind_eq_bind, Option.bind_some, ih]
      rfl

/-- An element of a well-formed arena is copied after its children, which gives the copy the same
order of children and parents. However deep the tree is, the levels that the look for it may go down
are enough. -/
theorem WellFormed.deepCopy?_eq (h : source.WellFormed) (a : Arena) (id : NodeId) :
    a.deepCopy? source id =
      match source.get? id with
      | none => none
      | some (.element e) =>
        (a.copyAll? source e.children).map fun (children, a) =>
          a.push (.element { e with children })
      | some node => some (a.push node) := by
  rcases hget : source.get? id with _ | node
  · rw [deepCopy?, tree?, treeWithin, hget]
    rfl
  · cases node with
    | text s =>
        rw [deepCopy?, tree?, treeWithin, hget]
        rfl
    | raw s =>
        rw [deepCopy?, tree?, treeWithin, hget]
        rfl
    | element e =>
        obtain ⟨t, ht⟩ := h.exists_tree (owns_iff_exists_get?.2 ⟨_, hget⟩)
        rw [deepCopy?, ht]
        rw [tree?, treeWithin, hget] at ht
        obtain ⟨ts, hmap, rfl⟩ := Option.map_eq_some_iff.1 ht
        have htrees : List.Forall₂ (fun id t => source.tree? id = some t) e.children ts :=
          (forall₂_of_mapM hmap).imp fun _ _ hchild =>
            treeWithin_mono (.refl source) (Nat.le_succ _) hchild
        simp only [copyAll?_of_forall₂ htrees]
        rfl

/-- The tree below a node of a well-formed arena is copied, node by node as a walk comes to them.
The copy is of new nodes, and those that were there stay as they are. What is no node of the arena
is not copied. -/
theorem WellFormed.copies_tree (h : source.WellFormed) (a : Arena) (id : NodeId) :
    (source.Owns id → ∃ copied b, a.deepCopy? source id = some (copied, b) ∧
      b.region = a.region ∧ a.nodes.toList <+: b.nodes.toList ∧
      b.size = a.size + (source.walk [id]).length ∧
      (∃ t, source.tree? id = some t ∧ b.tree? copied = some t) ∧
      ((b.walk [copied]).map Prod.fst).Perm (a.nextIds (source.walk [id]).length) ∧
      (b.walk [copied]).map (·.2.bare) = (source.walk [id]).map (·.2.bare) ∧
      (a.WellFormed → b.WellFormed)) ∧
    (¬source.Owns id → source.get? id = none ∧ a.deepCopy? source id = none) := by
  constructor
  · intro hid
    obtain ⟨t, ht⟩ := h.exists_tree hid
    -- The walk over the source comes to the nodes of its tree, which gives their number and their
    -- order.
    have hsource : (source.walk [id]).map (·.2.bare) = t.preorder := by
      rw [map_bare_walk (.cons ht .nil)]
      exact List.append_nil _
    have hcount : (source.walk [id]).length = t.size := by
      rw [← t.length_preorder, ← hsource, List.length_map]
    have hcopy := a.tree?_plant t
    have hsize := a.size_plant t
    refine ⟨(a.plant t).1, (a.plant t).2, ?_, region_plant a t,
      Extends.nodes_prefix (extends_plant a t), ?_, ⟨t, ht, hcopy⟩, ?_, ?_,
      fun ha => (wellFormed.plant ha t).1⟩
    · rw [deepCopy?, ht]
      rfl
    · rw [hsize, hcount]
    · rw [hcount]
      have hwalk : (a.plant t).2.walk [(a.plant t).1] =
        (a.plant t).2.walkWithin ((a.plant t).2.size + 1) (a.plant t).1 := List.append_nil _
      rw [hwalk]
      exact perm_walkWithin_plant a t (.refl _) (by omega)
    · rw [hsource, map_bare_walk (.cons hcopy .nil)]
      exact List.append_nil _
  -- An id that is none of the arena has no node.
  · intro hid
    have hnone : source.get? id = none := by
      rw [Option.eq_none_iff_forall_ne_some]
      exact fun node hget => hid (owns_iff_exists_get?.2 ⟨node, hget⟩)
    refine ⟨hnone, ?_⟩
    rw [h.deepCopy?_eq, hnone]

/-- An element with one text under it twice: both are copied, and an id of another arena is not. -/
theorem WellFormed.copies_tree_shared :
    let source :=
      (((empty 1).push (.text "x")).2.push (.element ⟨"b", [], [⟨1, 0⟩, ⟨1, 0⟩], none⟩)).2
    (∃ copied b, (empty 2).deepCopy? source ⟨1, 1⟩ = some (copied, b) ∧ b.size = 3) ∧
      (empty 2).deepCopy? source ⟨2, 0⟩ = none := by
  intro source
  have hsource : source.WellFormed := by
    refine WellFormed.push (WellFormed.push (wellFormed_empty 1) nofun) fun e he child hchild => ?_
    obtain rfl := Option.some.inj he
    revert child
    decide
  obtain ⟨copied, b, hcopy, -, -, hsize, -⟩ :=
    (hsource.copies_tree (empty 2) ⟨1, 1⟩).1 (by decide)
  exact ⟨⟨copied, b, hcopy, hsize⟩, ((hsource.copies_tree (empty 2) ⟨2, 0⟩).2 (by decide)).2⟩

end Arena
end Stencil.Markup
