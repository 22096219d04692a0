import Stencil.Markup.Arena

/-!
# Arenas that grow

## Main definitions

* `Arena.Extends` — an arena with all the nodes of another one under the same ids

## Main results

* `Arena.extends_push`, `Arena.extends_plant`, `Arena.extends_deepCopy?` — allocation only adds
  nodes
-/

namespace Stencil.Markup.Arena

/-- An arena has all the nodes of another one under the same ids. What was said of the trees below a
node stays true when nodes are added. -/
structure Extends (a a' : Arena) : Prop where
  region : a'.region = a.region
  get? : ∀ id n, a.get? id = some n → a'.get? id = some n

theorem Extends.refl (a : Arena) : a.Extends a := ⟨rfl, fun _ _ h => h⟩

theorem Extends.trans {a a' a'' : Arena} (h : a.Extends a') (h' : a'.Extends a'') :
    a.Extends a'' :=
  ⟨h'.region.trans h.region, fun id n hn => h'.get? id n (h.get? id n hn)⟩

/-- A new node is added behind those there are. Rendering changes its output by such additions
alone. -/
theorem extends_push (a : Arena) (node : Node) : a.Extends (a.push node).2 :=
  ⟨region_push a node, fun _ _ h => get?_push_of_get? h node⟩

mutual

/-- A tree is added to what there is, children first. The recursion is that of planting. -/
theorem extends_plant (a : Arena) : (t : Tree) → a.Extends (a.plant t).2
  | .text s => extends_push a (.text s)
  | .raw s => extends_push a (.raw s)
  | .element _ _ _ children => (extends_plantAll a children).trans (extends_push _ _)

theorem extends_plantAll (a : Arena) : (ts : List Tree) → a.Extends (a.plantAll ts).2
  | [] => .refl a
  | t :: rest => (extends_plant a t).trans (extends_plantAll (a.plant t).2 rest)

end

/-- A copy is added to what there is. So ids that were given out keep their nodes, whatever is
copied later. -/
theorem extends_deepCopy? {a source a' : Arena} {id copied : NodeId}
    (h : a.deepCopy? source id = some (copied, a')) : a.Extends a' := by
  obtain ⟨t, -, ht⟩ := Option.map_eq_some_iff.1 h
  have ha : (a.plant t).2 = a' := congrArg Prod.snd ht
  exact ha ▸ extends_plant a t

end Stencil.Markup.Arena
