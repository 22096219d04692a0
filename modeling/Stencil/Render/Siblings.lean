import Stencil.Render.Context

/-!
# Siblings

How the nodes of a sibling list depend on each other.

## Main definitions

* `Siblings.Role` — what a node is among its siblings
* `Siblings.chainRest` — the alternatives after a condition
* `Siblings.elseAfter?` — the alternative to a loop without results
* `Render.siblings` — the output of a sibling list, from that of single nodes

## Design notes

Blank text between the members of a group belongs to the group. An alternative without a condition
or a loop before it gives nothing. Evaluation of single nodes is a parameter here.
-/

namespace Stencil

open Markup

namespace Siblings

/-- What a node is among its siblings. -/
inductive Role where
  /-- The first element of a conditional chain. -/
  | condition
  /-- An alternative without anything before it. -/
  | orphan
  /-- A loop, to which there may be an alternative. -/
  | loop
  | plain
  deriving DecidableEq, Repr

/-- The role of a node that no group before it includes. -/
def role (t : Template) (id : NodeId) : Role :=
  if t.has id "v-if" then .condition
  else if t.has id "v-else-if" || t.has id "v-else" then .orphan
  else if t.has id "v-for" then .loop
  else .plain

/-- The alternatives of the chain whose condition stands before some siblings, and the siblings
after the last of them. -/
def chainRest (t : Template) : List NodeId → List NodeId × List NodeId
  | [] => ([], [])
  | id :: ids =>
    if t.isBlankText id then
      match chainRest t ids with
      | ([], _) => ([], id :: ids)
      | found => found
    else if t.has id "v-else-if" then
      let (members, after) := chainRest t ids
      (id :: members, after)
    else if t.has id "v-else" then ([id], ids)
    else ([], id :: ids)

/-- The alternative to a loop that stands before some siblings, and the siblings after it. -/
def elseAfter? (t : Template) : List NodeId → Option (NodeId × List NodeId)
  | [] => none
  | id :: ids =>
    if t.isBlankText id then elseAfter? t ids
    else if t.has id "v-else" then some (id, ids)
    else none

/-- The members of a chain and the siblings after it are among the siblings. -/
theorem chainRest_subset (t : Template) (ids : List NodeId) :
    (chainRest t ids).1 ⊆ ids ∧ (chainRest t ids).2 ⊆ ids := by
  induction ids with
  | nil => simp [chainRest]
  | cons id ids ih =>
      have hcons : ids ⊆ id :: ids := List.subset_cons_self id ids
      unfold chainRest
      split
      · split
        · exact ⟨List.nil_subset _, List.Subset.refl _⟩
        · exact ⟨List.Subset.trans ih.1 hcons, List.Subset.trans ih.2 hcons⟩
      · split
        · exact ⟨List.cons_subset_cons id ih.1, List.Subset.trans ih.2 hcons⟩
        · split
          · exact ⟨by simp, hcons⟩
          · exact ⟨List.nil_subset _, List.Subset.refl _⟩

/-- The alternative to a loop and the siblings after it are among the siblings. -/
theorem elseAfter?_subset (t : Template) {ids after : List NodeId} {id : NodeId}
    (h : elseAfter? t ids = some (id, after)) : id ∈ ids ∧ after ⊆ ids := by
  induction ids with
  | nil => simp [elseAfter?] at h
  | cons first ids ih =>
      unfold elseAfter? at h
      split at h
      · have := ih h
        exact ⟨List.mem_cons_of_mem first this.1, List.subset_cons_of_subset first this.2⟩
      · split at h
        · simp only [Option.some.injEq, Prod.mk.injEq] at h
          obtain ⟨rfl, rfl⟩ := h
          exact ⟨List.mem_cons_self, List.subset_cons_self _ _⟩
        · simp at h

end Siblings

namespace Render

/-- Whether a member of a chain is to be evaluated; one without a condition is. -/
def holds (t : Template) (id : NodeId) : Render Bool :=
  match (t.element? id).bind fun e => (e.get? "v-if").or (e.get? "v-else-if") with
  | some condition => evaluate (·.evalCondition condition)
  | none => return true

/-- Evaluates the first member of a chain that is to be evaluated. -/
def chain (node : NodeId → Render (List NodeId)) (t : Template) :
    List NodeId → Render (List NodeId)
  | [] => return []
  | id :: members => do
    if ← holds t id then node id else chain node t members

/-- Evaluates siblings; `bound` bounds the number of groups. -/
def groups (node : NodeId → Render (List NodeId)) (t : Template) :
    (bound : Nat) → List NodeId → Render (List NodeId)
  | 0, _ | _, [] => return []
  | bound + 1, id :: ids => do
    match Siblings.role t id with
    | .condition => do
      let (members, after) := Siblings.chainRest t ids
      let here ← chain node t (id :: members)
      let others ← groups node t bound after
      return here ++ others
    | .orphan => groups node t bound ids
    | .loop => do
      let here ← node id
      match here, Siblings.elseAfter? t ids with
      | [], some (alternative, after) => do
        let here ← node alternative
        let others ← groups node t bound after
        return here ++ others
      | _, _ => do
        let others ← groups node t bound ids
        return here ++ others
    | .plain => do
      let here ← node id
      let others ← groups node t bound ids
      return here ++ others

/-- Evaluates siblings. -/
def siblings (node : NodeId → Render (List NodeId)) (t : Template) (ids : List NodeId) :
    Render (List NodeId) :=
  groups node t ids.length ids

end Render
end Stencil
