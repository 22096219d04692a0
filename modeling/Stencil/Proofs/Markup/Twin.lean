import Mathlib.Data.List.Forall2
import Stencil.Markup.Arena

/-!
# Nodes that stand for each other

Two arenas seen through a relation of their ids.

## Main definitions

* `Element.Twin`, `Node.Twin` — the same but for the children, which stand for each other
* `Arena.Bisim` — ids that stand for each other have such nodes
* `NodeId.Twin`, `Arena.Twin` — the same but for the region numbers

## Main results

* `Arena.Bisim.tree?` — ids that stand for each other have the same trees below them
* `Arena.Twin.bisim` — in arenas that differ in their regions alone, the ids of the same position
  stand for each other
* `Arena.twin_plantAll` — the same trees are planted as twins

## Design notes

Ids stand for each other by a relation and not by a renaming, since an id of another region stands
for nothing, and since it may be only some part of two arenas that is the same.
-/

namespace Stencil.Markup

/-- Elements that differ in their children alone. -/
structure Element.Twin (R : NodeId → NodeId → Prop) (e e' : Element) : Prop where
  tag : e.tag = e'.tag
  attributes : e.attributes = e'.attributes
  payload : e.payload = e'.payload
  children : List.Forall₂ R e.children e'.children

/-- Nodes that differ in their children alone. Which children stand for each other is a parameter:
ids of two regions, or nodes of two templates. -/
inductive Node.Twin (R : NodeId → NodeId → Prop) : Node → Node → Prop where
  | element {e e' : Element} : e.Twin R e' → Node.Twin R (.element e) (.element e')
  | text (s : String) : Node.Twin R (.text s) (.text s)
  | raw (s : String) : Node.Twin R (.raw s) (.raw s)

/-- Ids that stand for each other have nodes that differ in their children alone, and those stand
for each other again. -/
structure Arena.Bisim (R : NodeId → NodeId → Prop) (a a' : Arena) : Prop where
  size_eq : a.size = a'.size
  get? : ∀ {id id' : NodeId}, R id id' → Option.Rel (Node.Twin R) (a.get? id) (a'.get? id')

/-- Ids of two regions at the same position. -/
structure NodeId.Twin (r r' : Nat) (id id' : NodeId) : Prop where
  region : id.region = r
  region' : id'.region = r'
  index : id.index = id'.index

/-- Arenas that differ in their regions alone. Reading a source twice gives such arenas, since only
the region is new. -/
def Arena.Twin (a a' : Arena) : Prop :=
  List.Forall₂ (Node.Twin (NodeId.Twin a.region a'.region)) a.nodes.toList a'.nodes.toList

/-- Related options are both nothing or both something. -/
theorem rel_cases {α β : Type} {R : α → β → Prop} {x : Option α} {y : Option β}
    (h : Option.Rel R x y) :
    (x = none ∧ y = none) ∨ ∃ a b, x = some a ∧ y = some b ∧ R a b := by
  cases h with
  | some hab => exact .inr ⟨_, _, rfl, rfl, hab⟩
  | none => exact .inl ⟨rfl, rfl⟩

theorem forall₂_getElem? {α β : Type} {R : α → β → Prop} {xs : List α} {ys : List β}
    (h : List.Forall₂ R xs ys) : ∀ i : Nat, Option.Rel R xs[i]? ys[i]? := by
  induction h with
  | nil => exact fun i => .none
  | cons hr _ ih =>
      intro i
      cases i with
      | zero => exact .some hr
      | succ i => simpa using ih i

namespace Arena

variable {a a' : Arena}

section Bisim

variable {R : NodeId → NodeId → Prop} {id id' : NodeId}

theorem Bisim.element? (h : a.Bisim R a') (hid : R id id') :
    Option.Rel (Element.Twin R) (a.element? id) (a'.element? id') := by
  unfold Arena.element?
  rcases rel_cases (h.get? hid) with ⟨hn, hn'⟩ | ⟨node, node', hn, hn', htwin⟩
  · rw [hn, hn']
    exact .none
  · rw [hn, hn']
    cases htwin with
    | element he => exact .some he
    | text _ => exact .none
    | raw _ => exact .none

theorem mapM_eq_of_forall₂ {α β γ : Type} {r : α → β → Prop} {f : α → Option γ} {g : β → Option γ}
    (hfg : ∀ x y, r x y → f x = g y) {xs : List α} {ys : List β} (h : List.Forall₂ r xs ys) :
    xs.mapM f = ys.mapM g := by
  induction h with
  | nil => rfl
  | cons hfirst _ ih => rw [List.mapM_cons, List.mapM_cons, hfg _ _ hfirst, ih]

/-- Ids that stand for each other have the same trees below them. -/
theorem Bisim.treeWithin (h : a.Bisim R a') (levels : Nat) :
    ∀ id id', R id id' → a.treeWithin levels id = a'.treeWithin levels id' := by
  induction levels with
  | zero => exact fun _ _ _ => rfl
  | succ levels ih =>
      intro id id' hid
      unfold Arena.treeWithin
      rcases rel_cases (h.get? hid) with ⟨hn, hn'⟩ | ⟨node, node', hn, hn', htwin⟩
      · rw [hn, hn']
      · rw [hn, hn']
        cases htwin with
        | element he =>
            dsimp only
            rw [mapM_eq_of_forall₂ ih he.children, he.tag, he.attributes, he.payload]
        | text _ => rfl
        | raw _ => rfl

/-- Below nodes that stand for each other there are the same trees, or none in either arena. A
relation of ids is thus enough to compare all that can be printed. -/
theorem Bisim.tree? (h : a.Bisim R a') (hid : R id id') : a.tree? id = a'.tree? id' := by
  rw [Arena.tree?, Arena.tree?, h.size_eq]
  exact h.treeWithin _ id id' hid

end Bisim

/-! ### Arenas that differ in their regions alone -/

theorem twin_empty (r r' : Nat) : (empty r).Twin (empty r') := .nil

theorem Twin.size_eq (h : a.Twin a') : a.size = a'.size := by
  simpa [size] using List.Forall₂.length_eq h

/-- Ids of the same position stand for each other. Their children are at the same positions too, as
twins have the same nodes up to their regions. -/
theorem Twin.bisim (h : a.Twin a') : a.Bisim (NodeId.Twin a.region a'.region) a' where
  size_eq := h.size_eq
  get? := by
    intro id id' hid
    unfold Arena.get?
    rw [if_pos hid.region, if_pos hid.region', ← hid.index]
    simpa using forall₂_getElem? h id.index

/-! ### Planting -/

/-- Twin nodes are added under twin ids. -/
theorem Twin.push (h : a.Twin a') {node node' : Node}
    (hn : Node.Twin (NodeId.Twin a.region a'.region) node node') :
    NodeId.Twin a.region a'.region (a.push node).1 (a'.push node').1 ∧
      (a.push node).2.Twin (a'.push node').2 := by
  refine ⟨⟨rfl, rfl, h.size_eq⟩, ?_⟩
  unfold Arena.Twin
  simpa [Arena.push] using List.rel_append h (.cons hn .nil)

mutual

/-- The same tree is planted as twins. -/
theorem twin_plant : (t : Tree) → ∀ {a a' : Arena}, a.Twin a' →
    NodeId.Twin a.region a'.region (a.plant t).1 (a'.plant t).1 ∧
      (a.plant t).2.Twin (a'.plant t).2
  | .text s, _, _, h => h.push (.text s)
  | .raw s, _, _, h => h.push (.raw s)
  | .element tag attributes payload children, a, a', h => by
      obtain ⟨hids, harena⟩ := twin_plantAll children h
      have hr := region_plantAll a children
      have hr' := region_plantAll a' children
      have helement : Element.Twin (NodeId.Twin a.region a'.region)
          ⟨tag, attributes, (a.plantAll children).1, payload⟩
          ⟨tag, attributes, (a'.plantAll children).1, payload⟩ := ⟨rfl, rfl, rfl, hids⟩
      rw [← hr, ← hr'] at helement
      have hpush := harena.push (.element helement)
      rw [hr, hr'] at hpush
      exact hpush

/-- Trees planted in twins give twins, and roots at the same positions. The recursion is that of
planting, with the arenas growing on both sides at once. -/
theorem twin_plantAll : (ts : List Tree) → ∀ {a a' : Arena}, a.Twin a' →
    List.Forall₂ (NodeId.Twin a.region a'.region) (a.plantAll ts).1 (a'.plantAll ts).1 ∧
      (a.plantAll ts).2.Twin (a'.plantAll ts).2
  | [], _, _, h => ⟨.nil, h⟩
  | t :: rest, _, _, h => by
      obtain ⟨hid, harena⟩ := twin_plant t h
      obtain ⟨hids, hall⟩ := twin_plantAll rest harena
      rw [region_plant, region_plant] at hids
      exact ⟨.cons hid hids, hall⟩

end

end Arena
end Stencil.Markup
