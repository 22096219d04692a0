import Stencil.Proofs.Markup.Twin
import Stencil.Render.Nodes

/-!
# Elements without their loops

No construct reads the loop of the element that it evaluates.

## Main definitions

* `Attributes.bare` — attributes without the loop
* `Element.Alike` — elements that differ in their loops and their children alone

## Main results

* `Element.Alike.get?_eq`, `Element.Alike.payload?_eq`, `Element.Alike.attributesOf_eq`,
  `Element.Alike.arguments_eq`, … — what constructs read of an element

## Design notes

A loop evaluates its own element once for each member, and in loops over different collections the
elements differ in nothing but the loop.  Every reader of attributes takes them one by one and
passes over the loop (`Attributes.read_bare`); that elements are read alike follows from there.
-/

namespace Stencil

open Markup

/-- Evaluations that run alike in every evaluator are the same. -/
theorem Evaluation.ext {α : Type} {act act' : Evaluation α} (h : ∀ ev, act.run ev = act'.run ev) :
    act = act' := by
  obtain ⟨run, _, _⟩ := act
  obtain ⟨run', _, _⟩ := act'
  obtain rfl : run = run' := funext h
  rfl

/-- Attributes without the loop. The element of a loop is evaluated with these, once for each item.
-/
def Attributes.bare (attributes : Attributes) : Attributes :=
  attributes.filter fun a => a.1 != "v-for"

namespace Attributes

/-- What reads attributes one by one and passes over the loop reads the same without it. -/
theorem read_bare {β : Type} (read : Attributes → β)
    (hcons : ∀ name value {rest rest'}, read rest = read rest' →
      read ((name, value) :: rest) = read ((name, value) :: rest'))
    (hloop : ∀ value rest, read (("v-for", value) :: rest) = read rest) (attributes : Attributes) :
    read attributes.bare = read attributes := by
  induction attributes with
  | nil => rfl
  | cons entry rest ih =>
      obtain ⟨name, value⟩ := entry
      unfold bare at ih ⊢
      by_cases hname : name = "v-for"
      · subst hname
        rw [List.filter_cons_of_neg (by simp), ih, hloop]
      · rw [List.filter_cons_of_pos (by simpa using hname)]
        exact hcons name value ih

/-- A choice of attributes that never takes a loop is the same without the loop. -/
theorem filter_bare {keep : String × String → Bool} (hloop : ∀ value, keep ("v-for", value) = false)
    (attributes : Attributes) : attributes.bare.filter keep = attributes.filter keep := by
  refine read_bare (List.filter keep) (fun name value rest rest' h => ?_) (fun value rest => ?_)
    attributes
  · rw [List.filter_cons, List.filter_cons, h]
  · rw [List.filter_cons_of_neg (by simp [hloop])]

/-- Any other attribute is found without the loop. -/
theorem lookup_bare {name : String} (hname : name ≠ "v-for") (attributes : Attributes) :
    attributes.bare.lookup name = attributes.lookup name := by
  refine read_bare (List.lookup name) (fun key value rest rest' h => ?_) (fun value rest => ?_)
    attributes
  · rw [List.lookup_cons, List.lookup_cons, h]
  · rw [List.lookup_cons, beq_eq_false_iff_ne.2 hname]

/-- The arguments of an include do not depend on the loop. -/
theorem arguments_bare (before : Frame) (attributes : Attributes) :
    Render.arguments before attributes.bare = Render.arguments before attributes := by
  refine congrFun (read_bare (fun attributes before => Render.arguments before attributes)
    (fun name value rest rest' h => funext fun before => ?_) (fun _ _ => rfl) attributes) before
  have hrest : ∀ before, Render.arguments before rest = Render.arguments before rest' := congrFun h
  simp only [Render.arguments, hrest]

/-- The properties of a slot do not depend on the loop. -/
theorem properties_bare (before : Frame) (attributes : Attributes) :
    Render.properties before attributes.bare = Render.properties before attributes := by
  refine congrFun (read_bare (fun attributes before => Render.properties before attributes)
    (fun name value rest rest' h => funext fun before => ?_) (fun _ _ => rfl) attributes) before
  have hrest : ∀ before, Render.properties before rest = Render.properties before rest' :=
    congrFun h
  simp only [Render.properties, hrest]

/-- The variables of a wrapper do not depend on the loop. -/
theorem setBindings_bare (attributes : Attributes) :
    Render.setBindings attributes.bare = Render.setBindings attributes := by
  refine read_bare Render.setBindings (fun name value rest rest' h => ?_) (fun _ _ => rfl)
    attributes
  simp only [Render.setBindings, h]

/-- The bound attributes do not depend on the loop. -/
theorem evalBindings_bare (scope : Scope) (out attributes : Attributes) :
    Attribute.evalBindings scope out attributes.bare =
      Attribute.evalBindings scope out attributes := by
  refine congrFun (read_bare (fun attributes out => Attribute.evalBindings scope out attributes)
    (fun name value rest rest' h => funext fun out => ?_) (fun _ _ => rfl) attributes) out
  have hrest : ∀ out,
      Attribute.evalBindings scope out rest = Attribute.evalBindings scope out rest' :=
    congrFun h
  simp only [Attribute.evalBindings, hrest]

/-- The static attributes do not depend on the loop. -/
theorem evalStatics_bare (scope : Scope) (attributes : Attributes) :
    Attribute.evalStatics scope attributes.bare = Attribute.evalStatics scope attributes := by
  refine read_bare (Attribute.evalStatics scope) (fun name value rest rest' h => ?_)
    (fun value rest => ?_) attributes
  · simp only [Attribute.evalStatics, h]
  -- A loop adds no attribute to those after it.
  refine Evaluation.ext fun ev => ?_
  show Evaluation.runBind (Attribute.evalStatics scope rest)
      (fun others => pure ([] ++ others)) ev =
    (Attribute.evalStatics scope rest).run ev
  unfold Evaluation.runBind
  rcases (Attribute.evalStatics scope rest).run ev with ⟨fault | others, ev'⟩ <;> rfl

/-- The output attributes do not depend on the loop. -/
theorem evalAttributes_bare (scope : Scope) (attributes : Attributes) :
    evalAttributes scope attributes.bare = evalAttributes scope attributes := by
  unfold evalAttributes
  rw [evalStatics_bare]
  simp only [evalBindings_bare]

end Attributes

/-! ### Elements -/

/-- Elements that differ in their loops and their children alone. -/
structure Markup.Element.Alike (R : NodeId → NodeId → Prop) (e e' : Element) : Prop where
  tag : e.tag = e'.tag
  attributes : Attributes.bare e.attributes = Attributes.bare e'.attributes
  children : List.Forall₂ R e.children e'.children

/-- Twins are alike in all but their loops, since they have the same loops too. -/
theorem Markup.Element.Twin.alike {R : NodeId → NodeId → Prop} {e e' : Element} (h : e.Twin R e') :
    e.Alike R e' :=
  ⟨h.tag, congrArg Attributes.bare h.attributes, h.children⟩

namespace Markup.Element.Alike

variable {R : NodeId → NodeId → Prop} {e e' : Element} (h : e.Alike R e')

include h

/-- Alike elements have the same value of every other attribute than the loop, which is all that
evaluation reads once the loop is taken apart. -/
theorem get?_eq {name : String} (hname : name ≠ "v-for") : e.get? name = e'.get? name := by
  rw [Element.get?, ← Attributes.lookup_bare hname, h.attributes, Attributes.lookup_bare hname,
    Element.get?]

/-- They have the same other attributes. -/
theorem has_eq {name : String} (hname : name ≠ "v-for") : e.has name = e'.has name := by
  rw [Element.has, h.get?_eq hname, Element.has]

/-- They require the same names. -/
theorem requiredNames_eq : requiredNames e = requiredNames e' := by
  unfold requiredNames
  rw [← Attributes.filter_bare (fun _ => rfl), h.attributes, Attributes.filter_bare fun _ => rfl]

/-- They set the same variables. -/
theorem setBindings_eq : Render.setBindings e.attributes = Render.setBindings e'.attributes := by
  rw [← Attributes.setBindings_bare, h.attributes, Attributes.setBindings_bare]

/-- They pass the same arguments. -/
theorem arguments_eq (before : Frame) :
    Render.arguments before e.attributes = Render.arguments before e'.attributes := by
  rw [← Attributes.arguments_bare, h.attributes, Attributes.arguments_bare]

/-- They pass the same properties. -/
theorem properties_eq (before : Frame) :
    Render.properties before e.attributes = Render.properties before e'.attributes := by
  rw [← Attributes.properties_bare, h.attributes, Attributes.properties_bare]

/-- Their other directives are evaluated alike. -/
theorem directive?_eq {name : String} (hname : name ≠ "v-for") :
    Render.directive? e name = Render.directive? e' name := by
  rw [Render.directive?, h.get?_eq hname, Render.directive?]

/-- They have the same payload. -/
theorem payload?_eq : Render.payload? e = Render.payload? e' := by
  rw [Render.payload?, h.directive?_eq (by decide), h.directive?_eq (by decide), Render.payload?]

/-- They have the same output attributes. -/
theorem attributesOf_eq : Render.attributesOf e = Render.attributesOf e' := by
  have heval : ∀ scope, evalAttributes scope e.attributes = evalAttributes scope e'.attributes :=
    fun scope => by
      rw [← Attributes.evalAttributes_bare, h.attributes, Attributes.evalAttributes_bare]
  rw [Render.attributesOf, h.get?_eq (by decide), Render.attributesOf]
  simp only [heval]

/-- What is shown of the attributes that a kept include has. -/
theorem shown_keptAttributes_eq :
    (keptAttributes e).filter (fun a => !isDirectiveAttribute a.1) =
      (keptAttributes e').filter fun a => !isDirectiveAttribute a.1 := by
  unfold keptAttributes
  rw [List.filter_filter, List.filter_filter, ← Attributes.filter_bare (fun _ => rfl), h.attributes,
    Attributes.filter_bare fun _ => rfl]

end Markup.Element.Alike
end Stencil
