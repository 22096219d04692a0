import Stencil.Proofs.Render.Moments
import Stencil.Proofs.Render.Step
import Stencil.Proofs.Template

/-!
# Slots in passed content are lexical

## Main definitions

* `Render.Stays` — the pieces that belong to one evaluation of a file
* `Render.Opens` — where the evaluations of files begin in a render

## Main results

* `Render.Stays.slots_eq` — one evaluation of a file sees the same slots throughout
* `Render.exists_opens` — every piece of a render belongs to an evaluation of a file
* `Render.slots_of_content` — content that an include collected is evaluated with the slots that
  were in force there, and belongs to the same evaluation of a file as the include

## Design notes

Includes push slots and the content that is passed to them pops slots again, so evaluations of files
lie in each other like calls.  Content belongs to the file that it is written in: the rule
`Stays.content` goes from an include to its component, in there to a slot, and by the content back
to the file of the include.  Nothing in it mentions the slots of a context.
-/

namespace Stencil

open Markup

namespace Render

/-- The pieces that belong to the same evaluation of a file as a first one. Content that is passed
to a component belongs to the file it is written in, which is not where it is shown. -/
inductive Stays : Task → Context → Task → Context → Prop where
  | start {task : Task} {c : Context} : Stays task c task c
  | step {task task₁ task₂ : Task} {c c₁ c₂ : Context} : Stays task c task₁ c₁ →
      task₁.switches = false → Leads task₁ c₁ task₂ c₂ → Stays task c task₂ c₂
  | passing {task : Task} {depth : Nat} {t : Template} {e : Element} {file : String} {args : Frame}
      {c c₁ c₂ c₃ : Context} :
      Stays task c (.include depth t e) c₁ →
      (interpolated ((e.get? "include").getD "")).run c₁ = (.ok file, c₂) →
      (arguments [] e.attributes).run c₂ = (.ok args, c₃) → unnamedChildren t e ≠ [] →
      Stays task c (.siblings depth t (unnamedChildren t e)) c₃
  | fallback {task : Task} {depth : Nat} {t : Template} {e : Element} {c c₁ c₂ : Context} :
      Stays task c (.slot depth t e) c₁ →
      (passed? ((e.get? "name").getD defaultSlot)).run c₁ = (.ok none, c₂) →
      Stays task c (.siblings depth t e.children) c₂
  | content {task : Task} {depth depth' : Nat} {t t' component definer : Template}
      {e e' content : Element} {slots own : SlotScope} {id : NodeId} {binding : SlotBinding}
      {c c₁ collecting inner c₂ c₃ : Context} :
      Stays task c (.include depth t e) c₁ →
      Includes depth t e c₁ collecting slots component inner →
      Stays (.siblings depth component component.roots) inner (.slot depth' t' e') c₂ →
      Passes e' c₂ own definer id binding content c₃ →
      Stays task c (.siblings depth' definer content.children) c₃

/-- Where the evaluations of files begin in a render. There is one for each include that comes to a
file, and one for the page itself. -/
inductive Opens (start : Task) (c₀ : Context) : Task → Context → Prop where
  | page : Opens start c₀ start c₀
  | component {root : Task} {depth : Nat} {t component : Template} {e : Element}
      {slots : SlotScope} {c c₁ collecting inner : Context} :
      Opens start c₀ root c → Stays root c (.include depth t e) c₁ →
      Includes depth t e c₁ collecting slots component inner →
      Opens start c₀ (.siblings depth component component.roots) inner

variable {task task' start root : Task} {c c' c₀ : Context}

theorem Stays.reaches (h : Stays task c task' c') : Reaches task c task' c' := by
  induction h with
  | start => exact .start
  | step _ _ hleads ih => exact ih.step hleads
  | passing _ hfile hargs hne ih => exact ih.step (.passing hfile hargs hne)
  | fallback _ hpassed ih => exact ih.step (.fallback hpassed)
  | content _ hincludes _ hpasses ih ih' =>
      exact ((ih.step hincludes.leads).trans ih').step hpasses.leads

theorem Opens.reaches (h : Opens start c₀ root c) : Reaches start c₀ root c := by
  induction h with
  | page => exact .start
  | component _ hstays hincludes ih => exact (ih.trans hstays.reaches).step hincludes.leads

/-- One evaluation of a file sees the same slots throughout. Only an include and the content of a
slot change the file, and they end the stay. -/
theorem Stays.slots_eq (h : Stays task c task' c') : c'.slots = c.slots := by
  induction h with
  | start => rfl
  | step _ hswitch hleads ih =>
      obtain ⟨c₁, hbalanced, hinside⟩ := hleads.exists_inside hswitch
      exact (hinside.slots.trans hbalanced.slots).trans ih
  | passing _ hfile hargs _ ih => exact (balanced_of_arguments hfile hargs).slots.trans ih
  | fallback _ hpassed ih =>
      rw [run_passed?, Prod.mk.injEq] at hpassed
      exact hpassed.2 ▸ ih
  | content _ hincludes _ hpasses ih ih' =>
      -- The include adds one level, the slot of its component is at that level, and its content
      -- leaves it.
      have hlevel := (hpasses.slots_eq.symm.trans ih').trans hincludes.slots_eq.2
      exact (List.cons.inj hlevel).2.trans ih

/-- Every piece of a render belongs to an evaluation of a file: that of the page, of a component, or
of content in the file that defines it. -/
theorem exists_opens (h : Reaches start c₀ task c) (hslots : c₀.slots = []) :
    ∃ root c', Opens start c₀ root c' ∧ Stays root c' task c := by
  induction h with
  | start => exact ⟨start, c₀, .page, .start⟩
  | @step task₁ task₂ c₁ c₂ _ hleads ih =>
      obtain ⟨root, c', hopens, hstays⟩ := ih
      cases hswitch : task₁.switches with
      | false => exact ⟨root, c', hopens, hstays.step hswitch hleads⟩
      | true =>
          cases hleads with
          | passing hfile hargs hne => exact ⟨root, c', hopens, hstays.passing hfile hargs hne⟩
          | included hfile hargs hslots hload =>
              exact ⟨_, _, hopens.component hstays (.intro hfile hargs hslots hload), .start⟩
          | fallback hpassed => exact ⟨root, c', hopens, hstays.fallback hpassed⟩
          | content hpassed hprops hcontent =>
              have hpasses := Passes.intro hpassed hprops hcontent
              cases hopens with
              | page =>
                  -- A page is passed nothing.
                  have hcons := (hpasses.slots_eq.symm.trans hstays.slots_eq).trans hslots
                  exact nomatch hcons
              | component houter hinclude hincludes =>
                  exact ⟨_, _, houter, hinclude.content hincludes hstays hpasses⟩
          | _ => exact nomatch hswitch

/-! ### The content that an include collects -/

section Content

variable {depth : Nat} {t definer : Template} {e : Element} {slots : SlotScope} {name : String}

/-- What an include collects is defined by its children, but for output nodes. -/
theorem get?_of_includedSlots {content : SlotContent}
    (h : (includedSlots (nodes depth) t e).run c = (.ok slots, c'))
    (hget : Dict.get? slots name = some content) :
    Dict.get? (definedSlots t e.children) name = some content ∨ ∃ ids, content = .nodes ids := by
  unfold includedSlots at h
  dsimp only at h
  split at h
  · exact .inl ((Act.of_run_pure h).1 ▸ hget)
  · obtain ⟨ids, c₁, -, h⟩ := Act.exists_of_run_bind h
    split at h
    · exact .inl ((Act.of_run_pure h).1 ▸ hget)
    · obtain ⟨rfl, -⟩ := Act.of_run_pure h
      rw [Dict.get?_insert] at hget
      split at hget
      · exact .inr ⟨ids, (Option.some.inj hget).symm⟩
      · exact .inl hget

/-- Scoped content that an include collects is a child of the include that defines the slot. -/
theorem of_includedSlots {id : NodeId} {binding : SlotBinding}
    (h : (includedSlots (nodes depth) t e).run c = (.ok slots, c'))
    (hget : Dict.get? slots name = some (.scoped definer id binding)) :
    definer = t ∧ id ∈ e.children ∧ definition? t id = some (name, binding) := by
  rcases get?_of_includedSlots h hget with hdefined | ⟨ids, hids⟩
  · have hmem := Dict.mem_of_get?_ofPairs hdefined
    obtain ⟨child, hchild, hpair⟩ := List.mem_filterMap.1 hmem
    obtain ⟨⟨name', binding'⟩, hdefinition, hpair⟩ := Option.map_eq_some_iff.1 hpair
    simp only [Prod.mk.injEq, SlotContent.scoped.injEq] at hpair
    obtain ⟨rfl, rfl, rfl, rfl⟩ := hpair
    exact ⟨rfl, hchild, hdefinition⟩
  · exact nomatch hids

/-- What is passed to a slot is under its name in what its include passes. -/
theorem Passes.get?_eq {own : SlotScope} {id : NodeId} {binding : SlotBinding} {content : Element}
    {inner : Context} (h : Passes e c own definer id binding content inner) :
    Dict.get? own ((e.get? "name").getD defaultSlot) = some (.scoped definer id binding) := by
  have hslots := h.slots_eq
  cases h with
  | intro hpassed _ _ =>
      rw [run_passed?, hslots, Prod.mk.injEq, Except.ok.injEq] at hpassed
      obtain ⟨found, hfound, hpair⟩ := Option.map_eq_some_iff.1 hpassed.1
      rw [hfound, (Prod.mk.inj hpair).2]

theorem Includes.exists_run {component : Template} {collecting inner : Context}
    (h : Includes depth t e c collecting slots component inner) :
    ∃ c₁, (includedSlots (nodes depth) t e).run collecting = (.ok slots, c₁) := by
  cases h with
  | intro _ _ hslots _ => exact ⟨_, hslots⟩

/-- The nodes of a slot that was passed content are those of the content. -/
theorem Passes.run_slot {id : NodeId} {binding : SlotBinding} {own : SlotScope} {content : Element}
    {inner : Context} (h : Passes e c own definer id binding content inner) (depth : Nat)
    (t : Template) :
    ((slot (nodes depth) t e).run c).1 = ((nodes depth definer content.children).run inner).1 := by
  cases h with
  | intro hpassed hprops hcontent =>
      rw [slot, Act.run_bind_of_ok hpassed]
      dsimp only
      rw [Act.run_bind_of_ok hprops, hcontent]
      rfl

/-- Whenever a render evaluates scoped content of a slot, an include has collected it from its
children, and the slot is in the evaluation of the component of this include.  The slot gives what
the content gives where it sees the slots that were seen where it was collected, and that is one
level below those of the component; so a slot anywhere in the content, but for the files that the
content includes, is passed what a slot beside the include is passed. -/
theorem slots_of_content {limit : Nat} {page t : Template} {library : Library} {scope : Scope}
    {own : SlotScope} {id : NodeId} {binding : SlotBinding} {content : Element} {inner : Context}
    (hreach : Reaches (.template limit page) (.new library scope) (.slot depth t e) c)
    (hpasses : Passes e c own definer id binding content inner) :
    ∃ depth' includer c₁ collecting component body,
      Reaches (.template limit page) (.new library scope) (.include depth' definer includer) c₁ ∧
      Includes depth' definer includer c₁ collecting own component body ∧
      id ∈ includer.children ∧
      definition? definer id = some ((e.get? "name").getD defaultSlot, binding) ∧
      Stays (.siblings depth' component component.roots) body (.slot depth t e) c ∧
      c.slots = own :: collecting.slots ∧
      ((slot (nodes depth) t e).run c).1 = ((nodes depth definer content.children).run inner).1 ∧
      ∀ task' c', Stays (.siblings depth definer content.children) inner task' c' →
        c'.slots = collecting.slots ∧
          ∀ name, ((passed? name).run c').1 = ((passed? name).run collecting).1 := by
  obtain ⟨root, c₂, hopens, hstays⟩ := exists_opens hreach rfl
  cases hopens with
  | page =>
      have hcons := hpasses.slots_eq.symm.trans hstays.slots_eq
      exact nomatch hcons
  | @component root depth' definer' component includer slots c₃ c₁ collecting _ houter hinclude
      hincludes =>
      -- The slots that the content is passed with are those of the innermost include.
      have hlevel := (hpasses.slots_eq.symm.trans hstays.slots_eq).trans hincludes.slots_eq.2
      obtain ⟨rfl, hinner⟩ := List.cons.inj hlevel
      have hcollecting : inner.slots = collecting.slots := hinner.trans hincludes.slots_eq.1.symm
      obtain ⟨c₄, hrun⟩ := hincludes.exists_run
      obtain ⟨rfl, hchild, hdefinition⟩ := of_includedSlots hrun hpasses.get?_eq
      refine ⟨depth', includer, c₁, collecting, component, c₂,
        houter.reaches.trans hinclude.reaches, hincludes, hchild, hdefinition, hstays, ?_,
        hpasses.run_slot depth t, ?_⟩
      · rw [hpasses.slots_eq, hcollecting]
      · intro task' c' hcontent
        have hslots := hcontent.slots_eq.trans hcollecting
        refine ⟨hslots, fun name => ?_⟩
        rw [run_passed?, run_passed?, hslots]

end Content

/-! A page that passes content to components which forward it. -/

/-- Components which pass on what is passed to them, each to the next one. -/
def forwardingFiles : Dict String :=
  [("outer", "<vuego include=middle><template #default><slot></slot></template></vuego>"),
    ("middle", "<vuego include=inner><template #default><slot></slot></template></vuego>"),
    ("inner", "<b><slot></slot></b>")]

/-- A page that passes text to the first of the components. -/
def forwardingPage : String :=
  "<vuego include=outer><template #default>text</template></vuego>"

def forwardingLibrary : Library := (Library.new (.memory forwardingFiles) []).handOut

/-- Whether a moment is at a slot in some file to which content of another file is passed, with so
many includes around it. -/
def Moment.isForwarding (m : Moment) (file definerFile : String) (level : Nat) : Bool :=
  match m.task with
  | .slot _ t e =>
    match (passed? ((e.get? "name").getD defaultSlot)).run m.context with
    | (.ok (some (_, .scoped definer id _)), c₁) =>
      ((properties [] e.attributes).run c₁).1.toOption.isSome && (definer.element? id).isSome &&
        decide (t.file = file ∧ definer.file = definerFile ∧ m.context.slots.length = level)
    | _ => false
  | _ => false

theorem Moment.exists_passes {m : Moment} {file definerFile : String} {level : Nat}
    (h : m.isForwarding file definerFile level = true) :
    ∃ depth t e own definer id binding content inner, m.task = .slot depth t e ∧
      Passes e m.context own definer id binding content inner ∧
      t.file = file ∧ definer.file = definerFile ∧ m.context.slots.length = level := by
  obtain ⟨task, c⟩ := m
  unfold isForwarding at h
  split at h
  · rename_i depth t e htask
    split at h
    · rename_i own definer id binding c₁ hpassed
      simp only [Bool.and_eq_true, decide_eq_true_eq] at h
      obtain ⟨⟨hprops, hcontent⟩, hfiles⟩ := h
      obtain ⟨content, hcontent⟩ := Option.isSome_iff_exists.1 hcontent
      rcases hrun : (properties [] e.attributes).run c₁ with ⟨halt | frame, c₂⟩
      · rw [hrun] at hprops
        exact nomatch hprops
      · exact ⟨depth, t, e, own, definer, id, binding, content, _, htask,
          .intro hpassed hrun hcontent, hfiles⟩
    · exact nomatch h
  · exact nomatch h

/-- In a file that the page comes to there is a slot to which content of another file is passed,
with so many includes around it; what the slot gives is what the content gives one level further
out. -/
def Forwards (file definerFile : String) (level : Nat) : Prop :=
  ∃ (page t definer : Template) (depth : Nat) (e content : Element) (own : SlotScope) (id : NodeId)
      (binding : SlotBinding) (c inner collecting : Context),
    Template.parse 1 "page" forwardingPage = .ok page ∧
    Reaches (.template 9 page) (.new forwardingLibrary .empty) (.slot depth t e) c ∧
    Passes e c own definer id binding content inner ∧
    t.file = file ∧ definer.file = definerFile ∧ c.slots.length = level ∧
    c.slots = own :: collecting.slots ∧ inner.slots = collecting.slots ∧
    ((slot (nodes depth) t e).run c).1 = ((nodes depth definer content.children).run inner).1

/-- Whether there is such a slot at the first moment of the page that is so many steps further. -/
def forwardsAfter (steps : Nat) (file definerFile : String) (level : Nat) : Bool :=
  (Template.parse 1 "page" forwardingPage).toOption.any fun page =>
    (Moment.descend? steps ⟨.template 9 page, .new forwardingLibrary .empty⟩).any
      (·.isForwarding file definerFile level)

/-- The text of the page is passed to the slot of `outer`, what stands around that slot to the slot
of `middle`, and what stands around this one to the slot of `inner`. -/
theorem slots_of_content_forwarding :
    Forwards "inner" "middle" 3 ∧ Forwards "middle" "outer" 2 ∧ Forwards "outer" "page" 1 := by
  have hall : ∀ steps file definerFile level, forwardsAfter steps file definerFile level = true →
      Forwards file definerFile level := by
    intro steps file definerFile level hcheck
    obtain ⟨page, hpage, hfound⟩ := (Option.any_eq_true _ _).1 hcheck
    obtain ⟨⟨task, c⟩, hdescend, hforwarding⟩ := (Option.any_eq_true _ _).1 hfound
    obtain ⟨depth, t, e, own, definer, id, binding, content, inner, rfl, hpasses, hfile, hdefiner,
      hlevel⟩ := Moment.exists_passes hforwarding
    have hreaches := Moment.reaches_of_descend? hdescend
    obtain ⟨_, _, _, collecting, _, _, -, -, -, -, -, hslots, hrun, hcontent⟩ :=
      slots_of_content hreaches hpasses
    exact ⟨page, t, definer, depth, e, content, own, id, binding, c, inner, collecting,
      eq_ok_of_toOption hpage, hreaches, hpasses, hfile, hdefiner, hlevel, hslots,
      (hcontent _ _ .start).1, hrun⟩
  exact ⟨hall 25 _ _ _ (by decide +kernel), hall 30 _ _ _ (by decide +kernel),
    hall 35 _ _ _ (by decide +kernel)⟩

end Render
end Stencil
