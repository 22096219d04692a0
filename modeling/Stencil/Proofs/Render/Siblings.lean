import Mathlib
import Stencil.Render.Nodes

/-!
# Groups of siblings

How a sibling list falls into groups, and that it is evaluated group by group.

## Main definitions

* `Siblings.Group` — siblings that are evaluated together
* `Siblings.Group.Fits` — what makes siblings a group, in front of others
* `Siblings.Partition` — a sibling list as consecutive groups
* `Siblings.Group.eval` — the output of a group

## Main results

* `Siblings.exists_partition` — every sibling list falls into groups
* `Render.groups_of_partition` — siblings are evaluated as their groups, one after the other
* `Render.nodes_of_partition` — the same of the nodes of a template, with what a failure does

## Design notes

Groups are found in the attributes of the siblings alone.  A loop and its alternative are a group
whatever the loop gives; only its output tells which of the two is kept.
-/

namespace Stencil

open Markup

namespace Siblings

/-! ### Groups -/

/-- A sibling with the blank text before it. -/
structure Member where
  blanks : List NodeId
  id : NodeId

/-- A member and the blank text before it. -/
def Member.siblings (m : Member) : List NodeId := m.blanks ++ [m.id]

/-- A member is an element with an attribute, and nothing but blank text stands before it. -/
structure Member.Is (t : Template) (name : String) (m : Member) : Prop where
  blank : ∀ b ∈ m.blanks, t.isBlankText b = true
  has : t.has m.id name = true

/-- Siblings that are evaluated together. A chain of conditions goes with the blank text between its
members, a loop with the alternative to it. -/
inductive Group where
  /-- A condition, its alternatives with a condition and the one without. -/
  | chain (condition : NodeId) (alternatives : List Member) (closing : Option Member)
  /-- A loop and its alternative. -/
  | loop (id : NodeId) (alternative : Member)
  /-- An alternative to nothing. -/
  | orphan (id : NodeId)
  | single (id : NodeId)

/-- The siblings of a group. -/
def Group.siblings : Group → List NodeId
  | .chain condition alternatives closing =>
    condition :: (alternatives.flatMap Member.siblings ++ closing.toList.flatMap Member.siblings)
  | .loop id alternative => id :: alternative.siblings
  | .orphan id => [id]
  | .single id => [id]

/-- A group has at least one sibling, so that the groups are no more than the siblings. -/
theorem Group.siblings_ne_nil (g : Group) : g.siblings ≠ [] := by
  cases g <;> exact List.cons_ne_nil _ _

/-- The first of some siblings that is no blank text. -/
def next? (t : Template) (ids : List NodeId) : Option NodeId := ids.find? (!t.isBlankText ·)

/-- An element continues the chain or the loop before it. -/
def IsAlternative (t : Template) (id : NodeId) : Prop :=
  t.has id "v-else-if" = true ∨ t.has id "v-else" = true

/-- Alternatives up to the first without a condition, in front of siblings that do not go on with
one. -/
structure Longest (t : Template) (alternatives : List Member) (closing : Option Member)
    (after : List NodeId) : Prop where
  conditional : ∀ m ∈ alternatives, m.Is t "v-else-if"
  unconditional : ∀ m ∈ closing, m.Is t "v-else"
  stops : closing = none → ∀ id ∈ next? t after, ¬ IsAlternative t id

/-- Siblings are a group in front of others: a chain is as long as it can be and ends with its first
member without a condition, and a loop stands alone only if no alternative without a condition comes
next. -/
def Group.Fits (t : Template) (after : List NodeId) : Group → Prop
  | .chain condition alternatives closing =>
    t.has condition "v-if" = true ∧ Longest t alternatives closing after
  | .loop id alternative =>
    t.has id "v-if" = false ∧ ¬ IsAlternative t id ∧ t.has id "v-for" = true ∧
      alternative.Is t "v-else"
  | .orphan id => t.has id "v-if" = false ∧ IsAlternative t id
  | .single id =>
    t.has id "v-if" = false ∧ ¬ IsAlternative t id ∧
      ¬ (t.has id "v-for" = true ∧ ∃ alternative ∈ next? t after, t.has alternative "v-else" = true)

/-- A sibling list as consecutive groups. It does not depend on values: attributes alone decide what
belongs together. -/
inductive Partition (t : Template) : List NodeId → List Group → Prop where
  | nil : Partition t [] []
  | cons {g : Group} {gs : List Group} {after : List NodeId} : g.Fits t after →
      Partition t after gs → Partition t (g.siblings ++ after) (g :: gs)

variable {t : Template} {id : NodeId} {ids after : List NodeId}

/-- Groups cover their siblings, each once and in order. -/
theorem Partition.flatMap_siblings {gs : List Group} (h : Partition t ids gs) :
    gs.flatMap Group.siblings = ids := by
  induction h with
  | nil => rfl
  | cons _ _ ih => rw [List.flatMap_cons, ih]

/-- No two attributes of a chain are on one element. -/
structure Exclusive (t : Template) (id : NodeId) : Prop where
  if_elseIf : ¬ (t.has id "v-if" = true ∧ t.has id "v-else-if" = true)
  if_else : ¬ (t.has id "v-if" = true ∧ t.has id "v-else" = true)
  elseIf_else : ¬ (t.has id "v-else-if" = true ∧ t.has id "v-else" = true)

/-! ### Every list falls into groups -/

/-- Blank text has no attributes. -/
theorem has_of_isBlankText (h : t.isBlankText id = true) (name : String) :
    t.has id name = false := by
  have helement : t.element? id = none := by
    unfold Template.isBlankText at h
    split at h
    · rename_i s hget
      rw [Template.element?, Arena.element?, hget]
      rfl
    · exact nomatch h
  rw [Template.has, helement]
  rfl

/-- Blank text is no alternative. -/
theorem not_isAlternative_of_isBlankText (h : t.isBlankText id = true) : ¬ IsAlternative t id := by
  rintro (hname | hname)
  · exact Bool.false_ne_true ((has_of_isBlankText h _).symm.trans hname)
  · exact Bool.false_ne_true ((has_of_isBlankText h _).symm.trans hname)

/-- Blank text is passed over in the look for the next sibling. -/
theorem next?_cons_blank (h : t.isBlankText id = true) (ids : List NodeId) :
    next? t (id :: ids) = next? t ids := by
  rw [next?, List.find?_cons_of_neg]
  · rfl
  · rw [h]
    decide

/-- The first sibling that is no blank text is the next one. -/
theorem next?_cons (h : t.isBlankText id = false) (ids : List NodeId) :
    next? t (id :: ids) = some id := by
  rw [next?, List.find?_cons_of_pos]
  rw [h]
  decide

/-- Blank text in front of a member belongs to it. -/
theorem Member.Is.cons {name : String} {m : Member} (h : m.Is t name)
    (hid : t.isBlankText id = true) : Member.Is t name ⟨id :: m.blanks, m.id⟩ where
  blank := by
    intro b hb
    rcases List.mem_cons.1 hb with rfl | hb
    · exact hid
    · exact h.blank b hb
  has := h.has

/-- Some siblings begin with as many alternatives as they can. The induction is on the siblings;
blank text in front of an alternative belongs to it. -/
theorem exists_longest (t : Template) (ids : List NodeId) :
    ∃ alternatives closing after, Longest t alternatives closing after ∧
      alternatives.flatMap Member.siblings ++ closing.toList.flatMap Member.siblings ++ after =
        ids := by
  induction ids with
  | nil =>
      refine ⟨[], none, [], ⟨nofun, nofun, nofun⟩, rfl⟩
  | cons id ids ih =>
      obtain ⟨alternatives, closing, after, hlongest, hids⟩ := ih
      cases hblank : t.isBlankText id with
      | true =>
          -- The blank text belongs to the first member, if there is one.
          rcases alternatives with _ | ⟨m, alternatives⟩
          · rcases closing with _ | m
            · refine ⟨[], none, id :: ids, ⟨nofun, nofun, ?_⟩, rfl⟩
              intro _
              rw [next?_cons_blank hblank, ← hids]
              exact hlongest.stops rfl
            · refine ⟨[], some ⟨id :: m.blanks, m.id⟩, after, ⟨nofun, ?_, nofun⟩, ?_⟩
              · rintro _ ⟨⟩
                exact (hlongest.unconditional m rfl).cons hblank
              · rw [← hids]
                rfl
          · refine ⟨⟨id :: m.blanks, m.id⟩ :: alternatives, closing, after,
              ⟨?_, hlongest.unconditional, hlongest.stops⟩, ?_⟩
            · intro m' hm'
              rcases List.mem_cons.1 hm' with rfl | hm'
              · exact (hlongest.conditional m List.mem_cons_self).cons hblank
              · exact hlongest.conditional m' (List.mem_cons_of_mem m hm')
            · rw [← hids]
              rfl
      | false =>
          by_cases helseIf : t.has id "v-else-if" = true
          · refine ⟨⟨[], id⟩ :: alternatives, closing, after, ⟨?_, hlongest.unconditional,
              hlongest.stops⟩, ?_⟩
            · intro m' hm'
              rcases List.mem_cons.1 hm' with rfl | hm'
              · exact ⟨nofun, helseIf⟩
              · exact hlongest.conditional m' hm'
            · rw [← hids]
              rfl
          by_cases helse : t.has id "v-else" = true
          · refine ⟨[], some ⟨[], id⟩, ids, ⟨nofun, ?_, nofun⟩, rfl⟩
            rintro _ ⟨⟩
            exact ⟨nofun, helse⟩
          · refine ⟨[], none, id :: ids, ⟨nofun, nofun, ?_⟩, rfl⟩
            intro _
            rw [next?_cons hblank]
            rintro _ ⟨⟩ (h | h)
            · exact helseIf h
            · exact helse h

/-- Blank text stands before the first sibling that is none. -/
theorem exists_of_next? (h : next? t ids = some id) :
    ∃ blanks after, ids = blanks ++ id :: after ∧ ∀ b ∈ blanks, t.isBlankText b = true := by
  obtain ⟨-, blanks, after, hids, hblanks⟩ := List.find?_eq_some_iff_append.1 h
  refine ⟨blanks, after, hids, fun b hb => ?_⟩
  simpa using hblanks b hb

/-- Every sibling list falls into groups. A group takes one sibling at least, so the induction is on
the length of the list; the cases are those of the part that the first sibling has. -/
theorem exists_partition (t : Template) (ids : List NodeId) : ∃ gs, Partition t ids gs := by
  induction hlength : ids.length using Nat.strongRecOn generalizing ids with
  | _ n ih =>
      rcases ids with _ | ⟨id, ids⟩
      · exact ⟨[], .nil⟩
      -- Whatever the first group is, the siblings after it are fewer.
      have hfirst : ∀ {g : Group} {after : List NodeId}, g.Fits t after →
          g.siblings ++ after = id :: ids → ∃ gs, Partition t (id :: ids) gs := by
        intro g after hfits hids
        have hpos := List.length_pos_iff.2 g.siblings_ne_nil
        have hsum := congrArg List.length hids
        rw [List.length_append] at hsum
        obtain ⟨gs, hgs⟩ := ih after.length (by omega) after rfl
        exact ⟨g :: gs, hids ▸ .cons hfits hgs⟩
      by_cases hif : t.has id "v-if" = true
      · obtain ⟨alternatives, closing, after, hlongest, hids⟩ := exists_longest t ids
        exact hfirst (g := .chain id alternatives closing) ⟨hif, hlongest⟩ (congrArg (id :: ·) hids)
      rw [Bool.not_eq_true] at hif
      by_cases halternative : IsAlternative t id
      · exact hfirst (g := .orphan id) ⟨hif, halternative⟩ rfl
      by_cases hloop : t.has id "v-for" = true ∧
          ∃ alternative ∈ next? t ids, t.has alternative "v-else" = true
      · obtain ⟨hfor, alternative, hnext, helse⟩ := hloop
        obtain ⟨blanks, after, rfl, hblanks⟩ := exists_of_next? hnext
        have hfits : (Group.loop id ⟨blanks, alternative⟩).Fits t after :=
          ⟨hif, halternative, hfor, hblanks, helse⟩
        exact hfirst hfits (by simp [Group.siblings, Member.siblings])
      · exact hfirst (g := .single id) ⟨hif, halternative, hloop⟩ rfl

/-! ### How groups are found -/

/-- Blank text before a member is passed over. -/
theorem chainRest_blanks {blanks rest : List NodeId} (h : ∀ b ∈ blanks, t.isBlankText b = true)
    (hne : (chainRest t rest).1 ≠ []) : chainRest t (blanks ++ rest) = chainRest t rest := by
  induction blanks with
  | nil => rfl
  | cons b blanks ih =>
      rw [List.cons_append, chainRest, if_pos (h b List.mem_cons_self),
        ih fun d hd => h d (List.mem_cons_of_mem b hd)]
      generalize chainRest t rest = found at hne
      obtain ⟨members, after⟩ := found
      rcases members with _ | ⟨m, members⟩
      · exact absurd rfl hne
      · rfl

/-- Siblings that do not go on with an alternative end a chain. -/
theorem chainRest_of_stops (h : ∀ id ∈ next? t after, ¬ IsAlternative t id) :
    chainRest t after = ([], after) := by
  induction after with
  | nil => rfl
  | cons id after ih =>
      cases hblank : t.isBlankText id with
      | true =>
          rw [next?_cons_blank hblank] at h
          rw [chainRest, if_pos hblank, ih h]
      | false =>
          rw [next?_cons hblank] at h
          have hid := h id rfl
          rw [IsAlternative, not_or, Bool.not_eq_true, Bool.not_eq_true] at hid
          rw [chainRest, hblank, hid.1, hid.2]
          rfl

/-- What has an attribute is no blank text. -/
theorem isBlankText_of_has {name : String} (h : t.has id name = true) :
    t.isBlankText id = false := by
  rw [Bool.eq_false_iff]
  intro hblank
  exact Bool.false_ne_true ((has_of_isBlankText hblank name).symm.trans h)

/-- An alternative with a condition is added to the chain, which goes on after it. -/
theorem chainRest_elseIf {m : Member} (hm : m.Is t "v-else-if") (rest : List NodeId) :
    chainRest t (m.siblings ++ rest) = (m.id :: (chainRest t rest).1, (chainRest t rest).2) := by
  have hhere : chainRest t (m.id :: rest) =
      (m.id :: (chainRest t rest).1, (chainRest t rest).2) := by
    rw [chainRest, isBlankText_of_has hm.has, hm.has]
    rfl
  rw [Member.siblings, List.append_assoc, List.singleton_append,
    chainRest_blanks hm.blank (by rw [hhere]; exact List.cons_ne_nil _ _), hhere]

/-- An alternative without a condition ends the chain; what comes after it is left to the next
group. -/
theorem chainRest_else {m : Member} (hm : m.Is t "v-else") (hexclusive : Exclusive t m.id)
    (rest : List NodeId) : chainRest t (m.siblings ++ rest) = ([m.id], rest) := by
  have helseIf : t.has m.id "v-else-if" = false := by
    rw [Bool.eq_false_iff]
    exact fun h => hexclusive.elseIf_else ⟨h, hm.has⟩
  have hhere : chainRest t (m.id :: rest) = ([m.id], rest) := by
    rw [chainRest, isBlankText_of_has hm.has, helseIf, hm.has]
    rfl
  rw [Member.siblings, List.append_assoc, List.singleton_append,
    chainRest_blanks hm.blank (by rw [hhere]; exact List.cons_ne_nil _ _), hhere]

/-- The longest chain is the one that is found. It ends at the alternative without a condition, or
where a sibling is none. -/
theorem chainRest_of_longest {alternatives : List Member} {closing : Option Member}
    (h : Longest t alternatives closing after)
    (hexclusive : ∀ m ∈ closing, Exclusive t m.id) :
    chainRest t (alternatives.flatMap Member.siblings ++
      (closing.toList.flatMap Member.siblings ++ after)) =
      (alternatives.map Member.id ++ closing.toList.map Member.id, after) := by
  obtain ⟨hconditional, hunconditional, hstops⟩ := h
  induction alternatives with
  | nil =>
      rcases closing with _ | m
      · exact chainRest_of_stops (hstops rfl)
      · have hclose := chainRest_else (hunconditional m rfl) (hexclusive m rfl) after
        simpa using hclose
  | cons m alternatives ih =>
      rw [List.flatMap_cons, List.append_assoc,
        chainRest_elseIf (hconditional m List.mem_cons_self),
        ih fun m' hm' => hconditional m' (List.mem_cons_of_mem m hm')]
      rfl

/-- The alternative to a loop is found behind blank text. -/
theorem elseAfter?_member {m : Member} (hm : m.Is t "v-else") (rest : List NodeId) :
    elseAfter? t (m.siblings ++ rest) = some (m.id, rest) := by
  obtain ⟨blanks, id⟩ := m
  obtain ⟨hblanks, hid⟩ := hm
  rw [Member.siblings, List.append_assoc, List.singleton_append]
  induction blanks with
  | nil =>
      show elseAfter? t (id :: rest) = _
      rw [elseAfter?, isBlankText_of_has hid, hid]
      rfl
  | cons b blanks ih =>
      have hb : t.isBlankText b = true := hblanks b List.mem_cons_self
      rw [List.cons_append, elseAfter?, if_pos hb]
      exact ih (fun d hd => hblanks d (List.mem_cons_of_mem b hd)) hid

/-- Where the next sibling is no alternative without a condition, a loop has none. -/
theorem elseAfter?_eq_none (h : ∀ id ∈ next? t after, t.has id "v-else" = false) :
    elseAfter? t after = none := by
  induction after with
  | nil => rfl
  | cons id after ih =>
      cases hblank : t.isBlankText id with
      | true =>
          rw [next?_cons_blank hblank] at h
          rw [elseAfter?, if_pos hblank, ih h]
      | false =>
          rw [next?_cons hblank] at h
          rw [elseAfter?, hblank, h id rfl]
          rfl

end Siblings

/-! ### Evaluation by groups -/

namespace Siblings

/-- The output of a group. The conditions of a chain are evaluated up to the first that holds, and
of a loop and its alternative the latter gives the output where the loop gives none. -/
def Group.eval (node : NodeId → Render (List NodeId)) (t : Template) :
    Group → Render (List NodeId)
  | .chain condition alternatives closing => do
    match ← (condition :: alternatives.map Member.id).findM? (Render.holds t) with
    | some id => node id
    | none => closing.elim (return []) fun m => node m.id
  | .loop id alternative => do
    match ← node id with
    | [] => node alternative.id
    | here => return here ++ (← alternative.blanks.mapM node).flatten
  | .orphan _ => return []
  | .single id => node id

end Siblings

namespace Render

open Siblings

section Groups

variable {t : Template} {node : NodeId → Render (List NodeId)}

/-- The first condition that holds decides, or what stands behind all of them. -/
theorem chain_append (ids rest : List NodeId) :
    chain node t (ids ++ rest) = (do
      match ← ids.findM? (holds t) with
      | some id => node id
      | none => chain node t rest) := by
  induction ids with
  | nil => simp [List.findM?]
  | cons id ids ih =>
      simp only [List.cons_append, chain, List.findM?, bind_assoc]
      congr
      funext hit
      cases hit with
      | true => simp
      | false => simpa using ih

/-- An alternative without a condition counts as true. It must not have a condition as well, which
would be evaluated. -/
theorem holds_of_else {id : NodeId} (hid : t.has id "v-else" = true)
    (hexclusive : Exclusive t id) : holds t id = return true := by
  have hif : t.has id "v-if" = false := by
    rw [Bool.eq_false_iff]
    exact fun h => hexclusive.if_else ⟨h, hid⟩
  have helseIf : t.has id "v-else-if" = false := by
    rw [Bool.eq_false_iff]
    exact fun h => hexclusive.elseIf_else ⟨h, hid⟩
  unfold Template.has at hif helseIf
  unfold holds
  generalize t.element? id = found at hif helseIf ⊢
  rcases found with _ | e
  · rfl
  · have hnone : ∀ name, e.has name = false → e.get? name = none := by
      intro name h
      rw [Element.has, Option.isSome_eq_false_iff, Option.isNone_iff_eq_none] at h
      exact h
    have hcondition : (some e).bind (fun e => (e.get? "v-if").or (e.get? "v-else-if")) = none := by
      show (e.get? "v-if").or (e.get? "v-else-if") = none
      rw [hnone _ hif, hnone _ helseIf]
      rfl
    rw [hcondition]

/-- The alternative without a condition is evaluated where no condition before it held, if there is
one. -/
theorem chain_closing {closing : Option Member} (h : ∀ m ∈ closing, m.Is t "v-else")
    (hexclusive : ∀ m ∈ closing, Exclusive t m.id) :
    chain node t (closing.toList.map Member.id) =
      closing.elim (return []) fun m => node m.id := by
  rcases closing with _ | m
  · rfl
  · show (do if ← holds t m.id then node m.id else chain node t []) = _
    rw [holds_of_else (h m rfl).has (hexclusive m rfl)]
    simp

/-! ### Steps over the siblings -/

/-- An element with none of the attributes is evaluated by itself. -/
theorem role_plain {id : NodeId} (hif : t.has id "v-if" = false)
    (halternative : ¬ IsAlternative t id) (hfor : t.has id "v-for" = false) :
    role t id = .plain := by
  rw [IsAlternative, not_or, Bool.not_eq_true, Bool.not_eq_true] at halternative
  rw [role, hif, halternative.1, halternative.2, hfor]
  rfl

/-- An element that only loops is evaluated with its alternative. -/
theorem role_loop {id : NodeId} (hif : t.has id "v-if" = false)
    (halternative : ¬ IsAlternative t id) (hfor : t.has id "v-for" = true) : role t id = .loop := by
  rw [IsAlternative, not_or, Bool.not_eq_true, Bool.not_eq_true] at halternative
  rw [role, hif, halternative.1, halternative.2, hfor]
  rfl

/-- An alternative that no group before it has taken is an orphan, with or without a loop. -/
theorem role_orphan {id : NodeId} (hif : t.has id "v-if" = false)
    (halternative : IsAlternative t id) :
    role t id = .orphan := by
  have hsome : (t.has id "v-else-if" || t.has id "v-else") = true := by
    rw [Bool.or_eq_true]
    exact halternative
  rw [role, hif, hsome]
  rfl

/-- Blank text is evaluated like any other text. -/
theorem groups_blanks {blanks : List NodeId} (h : ∀ b ∈ blanks, t.isBlankText b = true)
    (bound : Nat) (rest : List NodeId) :
    groups node t (blanks.length + bound) (blanks ++ rest) = (do
      let here ← blanks.mapM node
      let others ← groups node t bound rest
      return here.flatten ++ others) := by
  induction blanks with
  | nil => simp
  | cons b blanks ih =>
      have hb := h b List.mem_cons_self
      have hplain : role t b = .plain :=
        role_plain (has_of_isBlankText hb _) (not_isAlternative_of_isBlankText hb)
          (has_of_isBlankText hb _)
      have hrest := ih fun d hd => h d (List.mem_cons_of_mem b hd)
      rw [List.length_cons, Nat.add_right_comm, List.cons_append, groups, hplain]
      simp only [hrest, List.mapM_cons, bind_assoc, pure_bind, List.flatten_cons, List.append_assoc]

section Step

variable {after : List NodeId} {others : Render (List NodeId)}
  (hothers : ∀ bound, after.length ≤ bound → groups node t bound after = others)

include hothers

/-- A chain in front of other siblings is evaluated as a group, and the others after it. The bound
on the steps needs to be that of the others alone, since a group takes one step. -/
theorem groups_chain {condition : NodeId} {alternatives : List Member} {closing : Option Member}
    (hif : t.has condition "v-if" = true) (hlongest : Longest t alternatives closing after)
    (hexclusive : ∀ m ∈ closing, Exclusive t m.id) {bound : Nat}
    (hbound : after.length ≤ bound) :
    groups node t (bound + 1) ((Group.chain condition alternatives closing).siblings ++ after) = (do
      let here ← (Group.chain condition alternatives closing).eval node t
      return here ++ (← others)) := by
  have hrole : role t condition = .condition := if_pos hif
  rw [Group.siblings, List.cons_append, List.append_assoc, groups, hrole]
  simp only [chainRest_of_longest hlongest hexclusive, hothers bound hbound, Group.eval]
  rw [← List.cons_append, chain_append, chain_closing hlongest.unconditional hexclusive]

/-- An orphan is passed over as a group. -/
theorem groups_orphan {id : NodeId} (hif : t.has id "v-if" = false)
    (halternative : IsAlternative t id) {bound : Nat} (hbound : after.length ≤ bound) :
    groups node t (bound + 1) ((Group.orphan id).siblings ++ after) = (do
      let here ← (Group.orphan id).eval node t
      return here ++ (← others)) := by
  show groups node t (bound + 1) (id :: after) = _
  rw [groups, role_orphan hif halternative]
  simp [hothers bound hbound, Group.eval]

/-- A loop is evaluated as a group with its alternative. The alternative is evaluated only if the
loop gives nothing. -/
theorem groups_loop {id : NodeId} {alternative : Member} (hif : t.has id "v-if" = false)
    (halternative : ¬ IsAlternative t id) (hfor : t.has id "v-for" = true)
    (hmember : alternative.Is t "v-else") (hexclusive : Exclusive t alternative.id) {bound : Nat}
    (hbound : alternative.blanks.length + 1 + after.length ≤ bound) :
    groups node t (bound + 1) ((Group.loop id alternative).siblings ++ after) = (do
      let here ← (Group.loop id alternative).eval node t
      return here ++ (← others)) := by
  have helse : t.has alternative.id "v-if" = false := by
    rw [Bool.eq_false_iff]
    exact fun h => hexclusive.if_else ⟨h, hmember.has⟩
  -- Without the loop in front of it the alternative gives nothing.
  have hrest : groups node t bound (alternative.siblings ++ after) = (do
      let here ← alternative.blanks.mapM node
      return here.flatten ++ (← others)) := by
    obtain ⟨more, rfl⟩ : ∃ more, bound = alternative.blanks.length + (more + 1) :=
      ⟨bound - alternative.blanks.length - 1, by omega⟩
    have horphan : groups node t (more + 1) (alternative.id :: after) = others := by
      rw [groups, role_orphan helse (.inr hmember.has)]
      exact hothers more (by omega)
    rw [Member.siblings, List.append_assoc, List.singleton_append, groups_blanks hmember.blank,
      horphan]
  rw [Group.siblings, List.cons_append, groups, role_loop hif halternative hfor]
  simp only [elseAfter?_member hmember, hrest, Group.eval, bind_assoc]
  congr
  funext here
  cases here with
  | nil => simp only [hothers bound (by omega)]
  | cons first here => simp

/-- An element or a text by itself is evaluated as a group, be it a loop without an alternative or
none. -/
theorem groups_single {id : NodeId} (hfits : (Group.single id).Fits t after) {bound : Nat}
    (hbound : after.length ≤ bound) :
    groups node t (bound + 1) ((Group.single id).siblings ++ after) = (do
      let here ← (Group.single id).eval node t
      return here ++ (← others)) := by
  obtain ⟨hif, halternative, hloop⟩ := hfits
  show groups node t (bound + 1) (id :: after) = _
  cases hfor : t.has id "v-for" with
  | false =>
      rw [groups, role_plain hif halternative hfor]
      simp only [hothers bound hbound, Group.eval]
  | true =>
      have hnone : elseAfter? t after = none := elseAfter?_eq_none fun next hnext => by
        rw [Bool.eq_false_iff]
        exact fun helse => hloop ⟨hfor, next, hnext, helse⟩
      rw [groups, role_loop hif halternative hfor]
      simp only [hnone, hothers bound hbound, Group.eval]

/-- A group is evaluated in front of the siblings after it. There is one case for each kind of
group, as the siblings it takes off are told by its kind. -/
theorem groups_cons {g : Group} (hfits : g.Fits t after)
    (hexclusive : ∀ id ∈ g.siblings, Exclusive t id) {bound : Nat}
    (hbound : (g.siblings ++ after).length ≤ bound) :
    groups node t bound (g.siblings ++ after) = (do
      let here ← g.eval node t
      return here ++ (← others)) := by
  rw [List.length_append] at hbound
  obtain ⟨bound, rfl⟩ : ∃ n, bound = n + 1 := by
    refine ⟨bound - 1, ?_⟩
    have hpos := List.length_pos_iff.2 g.siblings_ne_nil
    omega
  cases g with
  | chain condition alternatives closing =>
      rw [Group.siblings, List.length_cons] at hbound
      refine groups_chain hothers hfits.1 hfits.2 (fun m hm => hexclusive m.id ?_) (by omega)
      obtain rfl : closing = some m := hm
      simp [Group.siblings, Member.siblings]
  | loop id alternative =>
      obtain ⟨hif, halternative, hfor, hmember⟩ := hfits
      rw [Group.siblings, Member.siblings, List.length_cons, List.length_append,
        List.length_singleton] at hbound
      refine groups_loop hothers hif halternative hfor hmember (hexclusive _ ?_) (by omega)
      simp [Group.siblings, Member.siblings]
  | orphan id =>
      rw [Group.siblings, List.length_singleton] at hbound
      exact groups_orphan hothers hfits.1 hfits.2 (by omega)
  | single id =>
      rw [Group.siblings, List.length_singleton] at hbound
      exact groups_single hothers hfits (by omega)

end Step

/-- Siblings are evaluated as their groups, one after the other. Each kind of group has its lemma,
which says that the evaluator takes exactly the siblings of the group off the list. -/
theorem groups_of_partition {ids : List NodeId} {gs : List Group} (h : Partition t ids gs)
    (hexclusive : ∀ id ∈ ids, Exclusive t id) {bound : Nat} (hbound : ids.length ≤ bound) :
    groups node t bound ids = (do
      let outputs ← gs.mapM (Group.eval node t)
      return outputs.flatten) := by
  induction h generalizing bound with
  | nil =>
      cases bound with
      | zero => simp [groups]
      | succ bound => simp [groups]
  | @cons g gs after hfits _ ih =>
      have hothers : ∀ bound, after.length ≤ bound → groups node t bound after = (do
          let outputs ← gs.mapM (Group.eval node t)
          return outputs.flatten) :=
        fun bound => ih fun id hid => hexclusive id (List.mem_append_right _ hid)
      rw [groups_cons hothers hfits (fun id hid => hexclusive id (List.mem_append_left _ hid))
        hbound]
      simp

end Groups

/-! ### Nodes of a template -/

/-- What acts one after the other do ends with the first that halts. -/
theorem run_mapM_of_error {α β : Type} {f : α → Render β} {before after : List α} {a : α}
    {c c₁ c₂ : Context} {outputs : List β} {halt : Halt}
    (hbefore : (before.mapM f).run c = (.ok outputs, c₁)) (ha : (f a).run c₁ = (.error halt, c₂)) :
    ((before ++ a :: after).mapM f).run c = (.error halt, c₂) := by
  rw [List.mapM_append, Act.run_bind_of_ok hbefore, List.mapM_cons]
  exact Act.run_bind_of_error (Act.run_bind_of_error ha _) _

/-- Where no element carries two of the attributes of a chain, a sibling list falls into consecutive
groups.  Its output is that of the groups in order, and the first failure of a group is its own. -/
theorem nodes_of_partition (depth : Nat) (t : Template) {ids : List NodeId}
    (hexclusive : ∀ id ∈ ids, Exclusive t id) :
    (∃ gs, Partition t ids gs) ∧
      ∀ gs, Partition t ids gs →
        gs.flatMap Group.siblings = ids ∧
        nodes (depth + 1) t ids = (do
          let outputs ← gs.mapM (Group.eval (Render.node (nodes depth) t) t)
          return outputs.flatten) ∧
        ∀ (before : List Group) (g : Group) (after : List Group), gs = before ++ g :: after →
          ∀ (c c₁ c₂ : Context) (outputs : List (List NodeId)) (halt : Halt),
            (before.mapM (Group.eval (Render.node (nodes depth) t) t)).run c = (.ok outputs, c₁) →
            (g.eval (Render.node (nodes depth) t) t).run c₁ = (.error halt, c₂) →
            (nodes (depth + 1) t ids).run c = (.error halt, c₂) := by
  refine ⟨exists_partition t ids, fun gs hgs => ?_⟩
  have hnodes : nodes (depth + 1) t ids = (do
      let outputs ← gs.mapM (Group.eval (Render.node (nodes depth) t) t)
      return outputs.flatten) := groups_of_partition hgs hexclusive (Nat.le_refl _)
  refine ⟨hgs.flatMap_siblings, hnodes, ?_⟩
  rintro before g after rfl c c₁ c₂ outputs halt hbefore hg
  rw [hnodes]
  exact Act.run_bind_of_error (run_mapM_of_error hbefore hg) _

/-- A chain of two, and an element after it. -/
def chainOfTwo : Template where
  file := "t"
  frontMatter := []
  arena := ⟨0, #[.element ⟨"br", [("v-if", "a")], [], none⟩, .text " ",
    .element ⟨"br", [("v-else", "")], [], none⟩, .element ⟨"br", [], [], none⟩]⟩
  roots := [⟨0, 0⟩, ⟨0, 1⟩, ⟨0, 2⟩, ⟨0, 3⟩]

/-- The siblings of `chainOfTwo` are two groups, and the blank text between the members of the chain
is in none but the first. -/
theorem nodes_chainOfTwo :
    (∀ id ∈ chainOfTwo.roots, Exclusive chainOfTwo id) ∧
      nodes 2 chainOfTwo chainOfTwo.roots = (do
        let outputs ← [Group.chain ⟨0, 0⟩ [] (some ⟨[⟨0, 1⟩], ⟨0, 2⟩⟩), .single ⟨0, 3⟩].mapM
          (Group.eval (Render.node (nodes 1) chainOfTwo) chainOfTwo)
        return outputs.flatten) := by
  have hexclusive : ∀ id ∈ chainOfTwo.roots, Exclusive chainOfTwo id := by
    intro id hid
    simp only [chainOfTwo, List.mem_cons, List.not_mem_nil, or_false] at hid
    rcases hid with rfl | rfl | rfl | rfl
    · exact ⟨by decide, by decide, by decide⟩
    · exact ⟨by decide, by decide, by decide⟩
    · exact ⟨by decide, by decide, by decide⟩
    · exact ⟨by decide, by decide, by decide⟩
  have hlongest : Longest chainOfTwo [] (some ⟨[⟨0, 1⟩], ⟨0, 2⟩⟩) [⟨0, 3⟩] := by
    refine ⟨nofun, ?_, nofun⟩
    rintro m ⟨⟩
    exact ⟨by decide, by decide⟩
  have hchain : (Group.chain ⟨0, 0⟩ [] (some ⟨[⟨0, 1⟩], ⟨0, 2⟩⟩)).Fits chainOfTwo [⟨0, 3⟩] :=
    ⟨by decide, hlongest⟩
  have hsingle : (Group.single ⟨0, 3⟩).Fits chainOfTwo [] := by
    refine ⟨by decide, ?_, ?_⟩
    · rintro (h | h)
      · exact absurd h (by decide)
      · exact absurd h (by decide)
    · exact fun h => absurd h.1 (by decide)
  have hpartition : Partition chainOfTwo chainOfTwo.roots
      [.chain ⟨0, 0⟩ [] (some ⟨[⟨0, 1⟩], ⟨0, 2⟩⟩), .single ⟨0, 3⟩] :=
    Partition.cons hchain (Partition.cons hsingle .nil)
  exact ⟨hexclusive, ((nodes_of_partition 1 chainOfTwo hexclusive).2 _ hpartition).2.1⟩

/-- A loop that is an alternative itself, with nothing before it, and an alternative after it. -/
def orphanLoop : Template where
  file := "t"
  frontMatter := []
  arena := ⟨0, #[.element ⟨"br", [("v-else", ""), ("v-for", "x in y")], [], none⟩,
    .element ⟨"br", [("v-else", "")], [], none⟩]⟩
  roots := [⟨0, 0⟩, ⟨0, 1⟩]

/-- A loop that is an alternative to nothing is dropped with the alternative after it, which would
give the output if it were a loop without results. -/
theorem not_nodes_eq_loop :
    ¬ ∀ (region : Nat) (file source : String) (t : Template),
      Template.parse region file source = .ok t → (∀ id ∈ t.roots, Exclusive t id) →
      ∀ (id : NodeId) (alternative : Member) (after : List NodeId),
        t.roots = id :: (alternative.siblings ++ after) → t.has id "v-if" = false →
        t.has id "v-for" = true → alternative.Is t "v-else" →
        ∀ depth, nodes (depth + 1) t t.roots = (do
          let here ← (Group.loop id alternative).eval (Render.node (nodes depth) t) t
          return here ++ (← nodes (depth + 1) t after)) := by
  intro hall
  have hparse : Template.parse 0 "t" "<br v-else v-for=\"x in y\"><br v-else>" =
      .ok orphanLoop := by
    cbv
  have hexclusive : ∀ id ∈ orphanLoop.roots, Exclusive orphanLoop id := by
    intro id hid
    simp only [orphanLoop, List.mem_cons, List.not_mem_nil, or_false] at hid
    rcases hid with rfl | rfl
    · exact ⟨by decide, by decide, by decide⟩
    · exact ⟨by decide, by decide, by decide⟩
  have hloop := hall 0 "t" _ orphanLoop hparse hexclusive ⟨0, 0⟩ ⟨[], ⟨0, 1⟩⟩ [] rfl rfl rfl
    ⟨List.forall_mem_nil _, rfl⟩ 1
  have houtput : (Except.ok [] : Except Halt (List NodeId)) = .ok [⟨0, 0⟩] :=
    congrArg (fun act => (act.run (.new (.new (.memory []) []) .empty)).1) hloop
  cases houtput

end Render

end Stencil
