import Stencil.Markup.Tree
import Stencil.Text.Scan

/-!
# Arenas

Nodes stored side by side and addressed by number.

## Main definitions

* `NodeId`, `Node`, `Element`, `Arena` — nodes name their children by id
* `Arena.get?`, `Arena.push` — look-up and allocation
* `Arena.tree?`, `Arena.plant` — the tree below a node, and a tree added to an arena
* `Arena.shallowCopy?`, `Arena.deepCopy?` — nodes copied from one arena to another
* `Arena.walk` — the nodes below some roots, depth first

## Design notes

Every arena has a region number, and an id holds the region it was handed out for, so that the id of
one arena finds nothing in another. Children are allocated before their parents, so the nodes below
a node are no more than the arena holds; this bounds the recursions here.

Regions and positions are natural numbers here.  The engine stores both in 32 bits, and its counter
of regions starts again after the last one; so what is said of ids holds as long as fewer than 2^32
arenas are made and none of them has 2^32 nodes or more.
-/

namespace Stencil.Markup

/-- The address of a node: its arena and its position there.  Both are below 2^32 where the engine
stores them. -/
structure NodeId where
  region : Nat
  index : Nat
  deriving DecidableEq, Repr

/-- An element whose children are named by id. It knows its children and not what it is a child of.
-/
structure Element where
  tag : String
  attributes : List (String × String)
  children : List NodeId
  payload : Option Payload

/-- A node of an arena. -/
inductive Node where
  | element (e : Element)
  | text (s : String)
  /-- Markup, written as it is. -/
  | raw (s : String)

/-- Nodes in the order of their allocation, and the number that tells the arena from others. An id
of another arena is refused, even if it has a position in this one. -/
structure Arena where
  region : Nat
  nodes : Array Node

namespace Element

/-- The value of the first attribute of a name. -/
def get? (e : Element) (name : String) : Option String := e.attributes.lookup name

/-- Whether there is an attribute of a name. -/
def has (e : Element) (name : String) : Bool := (e.get? name).isSome

/-- The values of all attributes of a name. -/
def getAll (e : Element) (name : String) : List String :=
  (e.attributes.filter (·.1 == name)).map (·.2)

/-- The rest of the name and the value of the first attribute whose name begins with a text. -/
def findPrefix? (e : Element) (start : String) : Option (String × String) :=
  e.attributes.findSome? fun (name, value) =>
    (Text.stripPrefix? start.toList name.toList).map fun rest => (String.ofList rest, value)

end Element

/-- The element of a node. -/
def Node.element? : Node → Option Element
  | .element e => some e
  | _ => none

namespace Arena

/-- An arena without nodes. -/
def empty (region : Nat) : Arena := ⟨region, #[]⟩

/-- The number of nodes. -/
def size (a : Arena) : Nat := a.nodes.size

/-- Whether there are no nodes. -/
def isEmpty (a : Arena) : Bool := a.nodes.isEmpty

/-- The node of an id, if the id belongs to the arena. -/
def get? (a : Arena) (id : NodeId) : Option Node :=
  if id.region = a.region then a.nodes[id.index]? else none

/-- The element of an id. -/
def element? (a : Arena) (id : NodeId) : Option Element := (a.get? id).bind Node.element?

/-- The id that the next node gets. -/
def nextId (a : Arena) : NodeId := ⟨a.region, a.size⟩

/-- Allocates a node, behind all others. -/
def push (a : Arena) (node : Node) : NodeId × Arena :=
  (a.nextId, { a with nodes := a.nodes.push node })

/-- Changes the element of an id. -/
def modifyElement? (a : Arena) (id : NodeId) (f : Element → Element) : Option Arena :=
  (a.element? id).map fun e =>
    { a with nodes := a.nodes.setIfInBounds id.index (.element (f e)) }

/-- The tree below a node, at most so many levels deep. -/
def treeWithin (a : Arena) : (levels : Nat) → NodeId → Option Tree
  | 0, _ => none
  | levels + 1, id =>
    match a.get? id with
    | none => none
    | some (.text s) => some (.text s)
    | some (.raw s) => some (.raw s)
    | some (.element e) =>
      (e.children.mapM (treeWithin a levels)).map (.element e.tag e.attributes e.payload)

/-- The tree below a node. -/
def tree? (a : Arena) (id : NodeId) : Option Tree := a.treeWithin (a.size + 1) id

mutual

/-- Allocates a tree, children before their parents. -/
def plant (a : Arena) : Tree → NodeId × Arena
  | .text s => a.push (.text s)
  | .raw s => a.push (.raw s)
  | .element tag attributes payload children =>
    let (ids, a) := plantAll a children
    a.push (.element ⟨tag, attributes, ids, payload⟩)

/-- Allocates trees one after the other. -/
def plantAll (a : Arena) : List Tree → List NodeId × Arena
  | [] => ([], a)
  | t :: rest =>
    let (id, a) := plant a t
    let (ids, a) := plantAll a rest
    (id :: ids, a)

end

/-- Copies a node of another arena; an element has no children yet. -/
def shallowCopy? (a source : Arena) (id : NodeId) : Option (NodeId × Arena) :=
  (source.get? id).map fun node =>
    match node with
    | .element e => a.push (.element { e with children := [] })
    | node => a.push node

/-- Copies the tree below a node of another arena. -/
def deepCopy? (a source : Arena) (id : NodeId) : Option (NodeId × Arena) :=
  (source.tree? id).map a.plant

/-- The nodes of the tree below a node, each before its children, at most so many levels deep. -/
def walkWithin (a : Arena) : (levels : Nat) → NodeId → List (NodeId × Node)
  | 0, _ => []
  | levels + 1, id =>
    match a.get? id with
    | none => []
    | some (.element e) => (id, .element e) :: e.children.flatMap (walkWithin a levels)
    | some node => [(id, node)]

/-- The nodes of the trees below some roots, depth first; ids of other arenas are skipped. -/
def walk (a : Arena) (roots : List NodeId) : List (NodeId × Node) :=
  roots.flatMap (a.walkWithin (a.size + 1))

@[simp] theorem region_push (a : Arena) (node : Node) : (a.push node).2.region = a.region := rfl

@[simp] theorem size_push (a : Arena) (node : Node) : (a.push node).2.size = a.size + 1 := by
  simp [push, size]

/-- A new node is found under its id. -/
@[simp] theorem get?_push_self (a : Arena) (node : Node) :
    (a.push node).2.get? (a.push node).1 = some node := by
  simp [push, get?, nextId, size]

/-- Allocation keeps the nodes there are. -/
theorem get?_push_of_get? {a : Arena} {id : NodeId} {n : Node} (h : a.get? id = some n)
    (node : Node) :
    (a.push node).2.get? id = some n := by
  unfold get? at h ⊢
  split at h
  · rename_i hr
    have hlt : id.index < a.nodes.size := (Array.getElem?_eq_some_iff.1 h).1
    simp [push, hr, Array.getElem?_push, Nat.ne_of_lt hlt, h]
  · simp at h

/-- A node that is found is one of the nodes of the arena. -/
theorem mem_of_get? {a : Arena} {id : NodeId} {node : Node} (h : a.get? id = some node) :
    node ∈ a.nodes.toList := by
  unfold get? at h
  split at h
  · exact Array.mem_def.1 (Array.mem_of_getElem? h)
  · exact nomatch h

/-- A changed element is found in its place, and all other nodes are as before. An element that is
there can always be changed. -/
theorem exists_modifyElement? {a : Arena} {id : NodeId} {e : Element} (h : a.element? id = some e)
    (f : Element → Element) :
    ∃ a', a.modifyElement? id f = some a' ∧ a'.size = a.size ∧
      ∀ i, a'.get? i = if i = id then some (.element (f e)) else a.get? i := by
  refine ⟨_, by rw [modifyElement?, h, Option.map_some], by simp [size], fun i => ?_⟩
  obtain ⟨node, hget, -⟩ := Option.bind_eq_some_iff.1 h
  unfold get? at hget ⊢
  split at hget
  · rename_i hr
    have hlt : id.index < a.nodes.size := (Array.getElem?_eq_some_iff.1 hget).1
    by_cases hi : i = id
    · subst hi
      simp [hr, hlt]
    · rw [if_neg hi]
      split
      · rename_i hri
        have hne : id.index ≠ i.index := by
          obtain ⟨region, index⟩ := id
          obtain ⟨region', index'⟩ := i
          rintro rfl
          exact hi (by simp_all)
        exact Array.getElem?_setIfInBounds_ne hne
      · rfl
  · exact nomatch hget

mutual

@[simp] theorem region_plant (a : Arena) : (t : Tree) → (a.plant t).2.region = a.region
  | .text _ => rfl
  | .raw _ => rfl
  | .element _ _ _ children => region_plantAll a children

@[simp] theorem region_plantAll (a : Arena) :
    (ts : List Tree) → (a.plantAll ts).2.region = a.region
  | [] => rfl
  | t :: rest => (region_plantAll (a.plant t).2 rest).trans (region_plant a t)

end

end Arena
end Stencil.Markup
