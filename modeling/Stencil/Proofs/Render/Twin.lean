import Stencil.Proofs.Markup.Twin
import Stencil.Render.Nodes

/-!
# Templates that differ in their regions alone

One source parsed for two regions gives two templates that nothing but their ids tells apart.

## Main definitions

* `Outcome` — both a failure for the same reason, or related results
* `Template.Twin` — templates that differ in their regions alone
* `Template.Bisim` — templates of which some nodes stand for each other
* `Dict.Alike` — dictionaries with related values under the same keys

## Main results

* `Template.twin_parse` — a source gives twins in any two regions
* `Template.Bisim.chainRest`, `Template.Bisim.elseAfter?` — siblings that stand for each other are
  grouped in the same way
* `Template.Bisim.definition?_eq` — nodes that stand for each other define the same slots
-/

namespace Stencil

open Markup

/-- Both a failure for the same reason, or related results. Errors are compared as they are, results
by what they stand for. -/
inductive Outcome {ε α β : Type} (R : α → β → Prop) : Except ε α → Except ε β → Prop where
  | ok {a : α} {b : β} : R a b → Outcome R (.ok a) (.ok b)
  | error (e : ε) : Outcome R (.error e) (.error e)

namespace Outcome

variable {ε α β : Type} {R S : α → β → Prop} {x : Except ε α} {y : Except ε β}

/-- Outcomes that are related stay so under a weaker relation. -/
theorem mono (h : Outcome R x y) (hRS : ∀ a b, R a b → S a b) : Outcome S x y := by
  cases h with
  | ok hab => exact .ok (hRS _ _ hab)
  | error e => exact .error e

/-- Every outcome is related to itself if every result is. -/
theorem refl {R : α → α → Prop} (hR : ∀ a, R a a) (x : Except ε α) : Outcome R x x := by
  cases x with
  | ok a => exact .ok (hR a)
  | error e => exact .error e

/-- Outcomes with equal results are equal. -/
theorem eq {x y : Except ε α} (h : Outcome Eq x y) : x = y := by
  cases h with
  | ok hab => rw [hab]
  | error e => rfl

/-- Failures may be annotated on both sides. -/
theorem mapError {δ : Type} (h : Outcome R x y) (f : ε → δ) :
    Outcome R (x.mapError f) (y.mapError f) := by
  cases h with
  | ok hab => exact .ok hab
  | error e => exact .error (f e)

end Outcome

/-! ### Dictionaries -/

/-- Dictionaries with related values under the same keys. -/
def Dict.Alike {α β : Type} (R : α → β → Prop) (d : Dict α) (d' : Dict β) : Prop :=
  ∀ key, Option.Rel R (Dict.get? d key) (Dict.get? d' key)

namespace Dict.Alike

variable {α β : Type} {R S : α → β → Prop} {d : Dict α} {d' : Dict β}

/-- Dictionaries that are related stay so under a weaker relation. -/
theorem mono (h : Dict.Alike R d d') (hRS : ∀ a b, R a b → S a b) : Dict.Alike S d d' := by
  intro key
  rcases rel_cases (h key) with ⟨hn, hn'⟩ | ⟨a, b, hn, hn', hab⟩
  · rw [hn, hn']
    exact .none
  · rw [hn, hn']
    exact .some (hRS a b hab)

/-- Related dictionaries have the same keys. -/
theorem contains_eq (h : Dict.Alike R d d') (key : String) :
    Dict.contains d key = Dict.contains d' key := by
  unfold Dict.contains
  rcases rel_cases (h key) with ⟨hn, hn'⟩ | ⟨a, b, hn, hn', -⟩
  · rw [hn, hn']
    rfl
  · rw [hn, hn']
    rfl

/-- Related values are put in under one key. -/
theorem insert (h : Dict.Alike R d d') (key : String) {a : α} {b : β} (hab : R a b) :
    Dict.Alike R (Dict.insert key a d) (Dict.insert key b d') := by
  intro name
  rw [Dict.get?_insert, Dict.get?_insert]
  split
  · exact .some hab
  · exact h name

/-- Pairs with the same keys and related values give related dictionaries. -/
theorem ofPairs {pairs : List (String × α)} {pairs' : List (String × β)}
    (h : List.Forall₂ (fun entry entry' => entry.1 = entry'.1 ∧ R entry.2 entry'.2) pairs pairs') :
    Dict.Alike R (Dict.ofPairs pairs) (Dict.ofPairs pairs') := by
  have hoverlay : ∀ {outer : Dict α} {outer' : Dict β}, Dict.Alike R outer outer' →
      Dict.Alike R (Dict.overlay outer pairs) (Dict.overlay outer' pairs') := by
    induction h with
    | nil => exact fun ho => ho
    | @cons entry entry' _ _ hentry _ ih =>
        intro outer outer' ho
        have hinsert := ho.insert entry.1 hentry.2
        rw [show Dict.insert entry.1 entry'.2 outer' = Dict.insert entry'.1 entry'.2 outer' by
          rw [hentry.1]] at hinsert
        exact ih hinsert
  exact hoverlay fun _ => .none

end Dict.Alike

/-! ### Templates -/

/-- Templates that differ in their regions alone, which is all that tells two readings of a source
apart. -/
structure Template.Twin (t t' : Template) : Prop where
  file : t.file = t'.file
  frontMatter : t.frontMatter = t'.frontMatter
  roots : List.Forall₂ (NodeId.Twin t.region t'.region) t.roots t'.roots
  arena : t.arena.Twin t'.arena

namespace Template

variable {t t' : Template}

/-- A source gives twins in any two regions: the region is not looked at while a source is parsed.
-/
theorem twin_parse (r r' : Nat) (file source : String) :
    Outcome Template.Twin (parse r file source) (parse r' file source) := by
  unfold parse
  cases settingsOf file source with
  | error e => exact .error e
  | ok settings =>
      obtain ⟨frontMatter, body⟩ := settings
      simp only [bind, Except.bind]
      cases parseDocument body with
      | error e => exact .error (TemplateError.markup file e)
      | ok forest =>
          have hplant := Arena.twin_plantAll forest (Arena.twin_empty r r')
          refine .ok ⟨rfl, rfl, ?_, hplant.2⟩
          have hr := Arena.region_plantAll (Arena.empty r) forest
          have hr' := Arena.region_plantAll (Arena.empty r') forest
          rw [Template.region, Template.region]
          show List.Forall₂ (NodeId.Twin ((Arena.empty r).plantAll forest).2.region
            ((Arena.empty r').plantAll forest).2.region) _ _
          rw [hr, hr']
          exact hplant.1

/-- Nodes of two templates stand for each other. -/
def Bisim (R : NodeId → NodeId → Prop) (t t' : Template) : Prop := t.arena.Bisim R t'.arena

/-- In templates that are twins, nodes with the same index stand for each other. -/
theorem Twin.bisim (h : t.Twin t') : t.Bisim (NodeId.Twin t.region t'.region) t' := h.arena.bisim

namespace Bisim

variable {R : NodeId → NodeId → Prop} (h : t.Bisim R t') {id id' : NodeId} (hid : R id id')
variable {ids ids' : List NodeId} (hids : List.Forall₂ R ids ids')

include h hid

/-- Nodes that stand for each other differ in their children alone. -/
theorem get? : Option.Rel (Node.Twin R) (t.arena.get? id) (t'.arena.get? id') :=
  Arena.Bisim.get? h hid

/-- Elements that stand for each other differ in their children alone. -/
theorem element? : Option.Rel (Element.Twin R) (t.element? id) (t'.element? id') :=
  Arena.Bisim.element? h hid

/-- Below nodes that stand for each other there are the same trees. -/
theorem tree? : t.arena.tree? id = t'.arena.tree? id' := Arena.Bisim.tree? h hid

/-- Nodes that stand for each other have the same attributes. -/
theorem has_eq (name : String) : t.has id name = t'.has id' name := by
  unfold Template.has
  rcases rel_cases (h.element? hid) with ⟨hn, hn'⟩ | ⟨e, e', hn, hn', he⟩
  · rw [hn, hn']
  · rw [hn, hn', Option.map_some, Option.map_some, Element.has, Element.has, Element.get?,
      Element.get?, he.attributes]

/-- They are blank text together. -/
theorem isBlankText_eq : t.isBlankText id = t'.isBlankText id' := by
  unfold Template.isBlankText
  rcases rel_cases (h.get? hid) with ⟨hn, hn'⟩ | ⟨node, node', hn, hn', htwin⟩
  · rw [hn, hn']
  · rw [hn, hn']
    cases htwin <;> rfl

/-- They have the same part among their siblings. -/
theorem role_eq : Siblings.role t id = Siblings.role t' id' := by
  unfold Siblings.role
  rw [h.has_eq hid, h.has_eq hid, h.has_eq hid, h.has_eq hid]

/-- Nodes that stand for each other define the same slots, under the same names and with the same
bindings. -/
theorem definition?_eq : Render.definition? t id = Render.definition? t' id' := by
  unfold Render.definition?
  rcases rel_cases (h.element? hid) with ⟨hn, hn'⟩ | ⟨e, e', hn, hn', he⟩
  · rw [hn, hn']
  · rw [hn, hn', Option.bind_some, Option.bind_some, slotDefinition?, slotDefinition?, he.tag,
      he.attributes]

/-- Members of a chain that stand for each other have the same condition. -/
theorem holds_eq : Render.holds t id = Render.holds t' id' := by
  unfold Render.holds
  rcases rel_cases (h.element? hid) with ⟨hn, hn'⟩ | ⟨e, e', hn, hn', he⟩
  · rw [hn, hn']
  · rw [hn, hn', Option.bind_some, Option.bind_some, Element.get?, Element.get?, Element.get?,
      Element.get?, he.attributes]

omit hid
include hids

/-- The members of a chain, and the siblings after it, stand for each other. Which siblings belong
to a chain is told by attributes and blank text, which twins share. -/
theorem chainRest :
    List.Forall₂ R (Siblings.chainRest t ids).1 (Siblings.chainRest t' ids').1 ∧
      List.Forall₂ R (Siblings.chainRest t ids).2 (Siblings.chainRest t' ids').2 := by
  induction hids with
  | nil => exact ⟨.nil, .nil⟩
  | @cons id id' rest rest' hid hrest ih =>
      have hall : List.Forall₂ R (id :: rest) (id' :: rest') :=
        .cons hid hrest
      unfold Siblings.chainRest
      rw [← h.isBlankText_eq hid, ← h.has_eq hid, ← h.has_eq hid]
      generalize Siblings.chainRest t rest = found at ih ⊢
      generalize Siblings.chainRest t' rest' = found' at ih ⊢
      obtain ⟨members, after⟩ := found
      obtain ⟨members', after'⟩ := found'
      obtain ⟨hmembers, hafter⟩ := ih
      split
      · cases hmembers with
        | nil => exact ⟨.nil, hall⟩
        | cons hfirst hothers => exact ⟨.cons hfirst hothers, hafter⟩
      · split
        · exact ⟨.cons hid hmembers, hafter⟩
        · split
          · exact ⟨.cons hid .nil, hrest⟩
          · exact ⟨.nil, hall⟩

/-- The alternative of a loop, and the siblings after it, stand for each other. -/
theorem elseAfter? :
    Option.Rel (fun found found' => R found.1 found'.1 ∧ List.Forall₂ R found.2 found'.2)
      (Siblings.elseAfter? t ids) (Siblings.elseAfter? t' ids') := by
  induction hids with
  | nil => exact .none
  | cons hid hrest ih =>
      unfold Siblings.elseAfter?
      rw [← h.isBlankText_eq hid, ← h.has_eq hid]
      split
      · exact ih
      · split
        · exact .some ⟨hid, hrest⟩
        · exact .none

/-- Nodes that are not for slots of their own stand for such nodes. -/
theorem filter_definition? :
    List.Forall₂ R
      (ids.filter fun id => (Render.definition? t id).isNone)
      (ids'.filter fun id => (Render.definition? t' id).isNone) := by
  induction hids with
  | nil => exact .nil
  | cons hid _ ih =>
      rw [List.filter_cons, List.filter_cons, h.definition?_eq hid]
      split
      · exact .cons hid ih
      · exact ih

end Bisim
end Template
end Stencil
