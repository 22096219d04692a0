import Mathlib.Data.List.Forall2
import Stencil.Proofs.Markup.Growth
import Stencil.Proofs.Markup.Segment

/-!
# Trees in arenas

## Main definitions

* `Arena.Made` — nodes with the trees that `Tree.Made` speaks of below them

## Main results

* `Arena.Made.tree` — the tree below such a node
* `Arena.made_plant` — such a tree is planted as such a node
-/

namespace Stencil.Markup

variable {text text' : Bool → String → Prop} {start : String → List (String × String) → Prop}

/-- Nodes with given properties of the texts and the start tags at and below them, where raw text
holds nothing but one text. -/
inductive Arena.Made (a : Arena) (text : Bool → String → Prop)
    (start : String → List (String × String) → Prop) : Bool → NodeId → Prop where
  | text {raw : Bool} {id : NodeId} {s : String} : a.get? id = some (.text s) → text raw s →
      Made a text start raw id
  | raw {id : NodeId} {s : String} : a.get? id = some (.raw s) → Made a text start false id
  | element {id : NodeId} {e : Element} : a.get? id = some (.element e) →
      start e.tag e.attributes → (isRawText e.tag = true → e.children.length ≤ 1) →
      (∀ child ∈ e.children, Made a text start (isRawText e.tag) child) →
      Made a text start false id

namespace Arena

variable {a a' : Arena} {raw : Bool} {id : NodeId}

/-- What is made stays made. -/
theorem Made.extends (h : a.Made text start raw id) (ha : a.Extends a') :
    a'.Made text start raw id := by
  induction h with
  | text hget htext => exact .text (ha.get? _ _ hget) htext
  | raw hget => exact .raw (ha.get? _ _ hget)
  | element hget hstart hlength _ ih => exact .element (ha.get? _ _ hget) hstart hlength ih

theorem Made.mono (h : a.Made text start raw id) (hsub : ∀ raw s, text raw s → text' raw s) :
    a.Made text' start raw id := by
  induction h with
  | text hget htext => exact .text hget (hsub _ _ htext)
  | raw hget => exact .raw hget
  | element hget hstart hlength _ ih => exact .element hget hstart hlength ih

/-- In raw text there is text alone. -/
theorem Made.exists_text (h : a.Made text start true id) :
    ∃ s, a.get? id = some (.text s) ∧ text true s := by
  cases h with
  | text hget htext => exact ⟨_, hget, htext⟩

theorem Made.of_element (h : a.Made text start raw id) {e : Element}
    (hget : a.get? id = some (.element e)) :
    raw = false ∧ start e.tag e.attributes ∧ (isRawText e.tag = true → e.children.length ≤ 1) ∧
      ∀ child ∈ e.children, a.Made text start (isRawText e.tag) child := by
  cases h with
  | text h _ => exact nomatch h.symm.trans hget
  | raw h => exact nomatch h.symm.trans hget
  | element h hstart hlength hchildren =>
      obtain rfl := Node.element.inj (Option.some.inj (h.symm.trans hget))
      exact ⟨rfl, hstart, hlength, hchildren⟩

/-- The results of looking up all of some things, one after the other. -/
theorem forall₂_of_mapM {α β : Type} {f : α → Option β} {as : List α} {bs : List β}
    (h : as.mapM f = some bs) : List.Forall₂ (fun a b => f a = some b) as bs := by
  induction as generalizing bs with
  | nil => exact Option.some.inj h ▸ .nil
  | cons a as ih =>
      rw [List.mapM_cons] at h
      cases ha : f a with
      | none => simp [ha] at h
      | some b =>
          cases has : as.mapM f with
          | none => simp [ha, has] at h
          | some rest =>
              obtain rfl : b :: rest = bs := by simpa [ha, has] using h
              exact .cons ha (ih has)

theorem mapM_of_forall₂ {α β : Type} {f : α → Option β} {as : List α} {bs : List β}
    (h : List.Forall₂ (fun a b => f a = some b) as bs) : as.mapM f = some bs := by
  induction h with
  | nil => rfl
  | cons ha _ ih => simp [List.mapM_cons, ha, ih]

theorem exists_of_forall₂ {α β : Type} {r : α → β → Prop} {as : List α} {bs : List β}
    (h : List.Forall₂ r as bs) {b : β} (hb : b ∈ bs) : ∃ a ∈ as, r a b := by
  induction h with
  | nil => simp at hb
  | @cons a b' as bs hr _ ih =>
      rcases List.mem_cons.1 hb with rfl | hb
      · exact ⟨a, List.mem_cons_self, hr⟩
      · obtain ⟨a', ha', hr'⟩ := ih hb
        exact ⟨a', List.mem_cons_of_mem a ha', hr'⟩

theorem exists_levels {levels : Nat} {t : Tree} (h : a.treeWithin levels id = some t) :
    ∃ inner, levels = inner + 1 := by
  cases levels with
  | zero => exact nomatch h
  | succ inner => exact ⟨inner, rfl⟩

/-- The tree below a node is made as the node is. The induction is on how the node was made, with
the levels of the tree left free. -/
theorem Made.treeWithin (h : a.Made text start raw id) :
    ∀ {levels t}, a.treeWithin levels id = some t → t.Made text start raw := by
  induction h with
  | text hget htext =>
      intro levels t ht
      obtain ⟨inner, rfl⟩ := exists_levels ht
      rw [Arena.treeWithin, hget] at ht
      exact Option.some.inj ht ▸ .text htext
  | raw hget =>
      intro levels t ht
      obtain ⟨inner, rfl⟩ := exists_levels ht
      rw [Arena.treeWithin, hget] at ht
      exact Option.some.inj ht ▸ .raw _
  | element hget hstart hlength _ ih =>
      intro levels t ht
      obtain ⟨inner, rfl⟩ := exists_levels ht
      rw [Arena.treeWithin, hget] at ht
      obtain ⟨children, hmap, rfl⟩ := Option.map_eq_some_iff.1 ht
      -- The trees of the children stand in the order of the children.
      have hrelated := forall₂_of_mapM hmap
      refine .element hstart (fun hraw => ?_) fun t ht => ?_
      · rw [← hrelated.length_eq]
        exact hlength hraw
      · obtain ⟨child, hchild, htree⟩ := exists_of_forall₂ hrelated ht
        exact ih child hchild htree

/-- The tree below a node that is made well is made well. The one is said of ids in an arena and the
other of trees, which is what is printed. -/
theorem Made.tree {t : Tree} (h : a.Made text start raw id) (ht : a.tree? id = some t) :
    t.Made text start raw :=
  h.treeWithin ht

mutual

/-- A tree is planted as it is made, and the recursion is that of planting. Raw text is told by the
tag above, so the statement is for both modes. -/
theorem made_plant (a : Arena) :
    (t : Tree) → ∀ {raw}, t.Made text start raw →
      (a.plant t).2.Made text start raw (a.plant t).1
  | .text s, _, .text htext => .text (get?_push_self a (.text s)) htext
  | .raw s, _, .raw _ => .raw (get?_push_self a (.raw s))
  | .element tag attributes payload children, _, .element hstart hlength hchildren => by
      obtain ⟨hlen, hall⟩ := made_plantAll a children hchildren
      refine .element (get?_push_self _ _) hstart (fun hraw => ?_) fun child hchild => ?_
      · exact hlen ▸ hlength hraw
      · exact (hall child hchild).extends (extends_push _ _)

theorem made_plantAll (a : Arena) :
    (ts : List Tree) → ∀ {raw}, (∀ t ∈ ts, t.Made text start raw) →
      (a.plantAll ts).1.length = ts.length ∧
        ∀ id ∈ (a.plantAll ts).1, (a.plantAll ts).2.Made text start raw id
  | [], _, _ => ⟨rfl, by simp [plantAll]⟩
  | t :: rest, _, h => by
      obtain ⟨ht, hrest⟩ := List.forall_mem_cons.1 h
      obtain ⟨hlen, hall⟩ := made_plantAll (a.plant t).2 rest hrest
      have hfirst := (made_plant a t ht).extends (extends_plantAll (a.plant t).2 rest)
      exact ⟨congrArg (· + 1) hlen, List.forall_mem_cons.2 ⟨hfirst, hall⟩⟩

end

end Arena
end Stencil.Markup
