import Stencil.Proofs.Render.Moments
import Stencil.Proofs.Render.Once

/-!
# What is rendered once along the moments of a render

## Main definitions

* `Context.Onward` — a context after work in which nothing was rendered once
* `Render.Threaded` — moments one after the other, with such work between them
* `Render.Moment.finished`, `Render.Moment.checked` — the context after the whole piece of a moment,
  and that after its own check alone

## Main results

* `Render.threaded_parts` — an evaluation renders once what its own check and its parts do
* `Render.threaded_moments` — an evaluation renders once what the checks at its moments do

## Design notes

Acts that come to no piece are quiet: for those that only read, and for the primitives, this is that
they keep the balance and do not look at what was rendered once.  An act is made up of its pieces by
the rules `consists_…`, one for each way of building acts.
-/

namespace Stencil

open Markup

/-- A context that the render comes to after another one, with nothing rendered once between
them. -/
structure Context.Onward (c c' : Context) : Prop where
  later : c.Later c'
  seen : c'.seen = c.seen

namespace Context

variable {c c' c'' : Context}

theorem Onward.refl (c : Context) : c.Onward c := ⟨.refl c, rfl⟩

theorem Onward.trans (h : c.Onward c') (h' : c'.Onward c'') : c.Onward c'' :=
  ⟨h.later.trans h'.later, h'.seen.trans h.seen⟩

/-- A context with the same output, library and things rendered once. -/
theorem onward_of_eq (hseen : c'.seen = c.seen) (hout : c'.out = c.out)
    (hlibrary : c'.library = c.library) : c.Onward c' :=
  ⟨⟨hseen ▸ List.suffix_refl _, hout ▸ .refl _, hlibrary ▸ .refl _⟩, hseen⟩

end Context

namespace Render

/-- The context after the whole piece of a moment, whether it succeeds or fails. -/
def Moment.finished (m : Moment) : Context := (m.task.act.run m.context).2

/-- The context of a moment after its own check of what renders once. The pieces of the moment come
after that check. -/
def Moment.checked (m : Moment) : Context :=
  match m.task with
  | .once _ _ id e => ((isDue id e).run m.context).2
  | _ => m.context

/-- Moments one after the other between two contexts, with nothing rendered once but in what leads
from each of them to the context after it. -/
inductive Threaded (after : Moment → Context) : Context → List Moment → Context → Prop where
  | done {c c' : Context} : c.Onward c' → Threaded after c [] c'
  | moment {c c' : Context} {m : Moment} {ms : List Moment} : c.Onward m.context →
      Threaded after (after m) ms c' → Threaded after c (m :: ms) c'

namespace Threaded

variable {after : Moment → Context} {c c₁ c' : Context} {m : Moment} {ms ms' : List Moment}

/-- More quiet work may come before the first moment. -/
theorem of_onward (h : c.Onward c₁) (hms : Threaded after c₁ ms c') : Threaded after c ms c' := by
  cases hms with
  | done honward => exact .done (h.trans honward)
  | moment honward hrest => exact .moment (h.trans honward) hrest

/-- More quiet work may come after the last moment. -/
theorem to_onward (hms : Threaded after c ms c₁) (h : c₁.Onward c') : Threaded after c ms c' := by
  induction hms with
  | done honward => exact .done (honward.trans h)
  | moment honward _ ih => exact .moment honward (ih h)

/-- Moments that lead from one context to a second one, and from there to a third one, are joined.
-/
theorem append (hms : Threaded after c ms c₁) (hms' : Threaded after c₁ ms' c') :
    Threaded after c (ms ++ ms') c' := by
  induction hms with
  | done honward => exact of_onward honward hms'
  | moment honward _ ih => exact .moment honward (ih hms')

/-- A moment stands after those before it and before those after it. -/
theorem split (h : Threaded after c (ms ++ m :: ms') c') :
    ∃ c₁, Threaded after c ms c₁ ∧ c₁.Onward m.context ∧ Threaded after (after m) ms' c' := by
  induction ms generalizing c with
  | nil =>
      cases h with
      | moment honward hrest => exact ⟨c, .done (.refl c), honward, hrest⟩
  | cons first ms ih =>
      cases h with
      | moment honward hrest =>
          obtain ⟨c₁, hbefore, hm, hafter⟩ := ih hrest
          exact ⟨c₁, .moment honward hbefore, hm, hafter⟩

/-- Each of some moments is threaded by others. -/
theorem flatMap {after' : Moment → Context} {inner : Moment → List Moment}
    (h : Threaded after c ms c')
    (hinner : ∀ m ∈ ms, Threaded after' m.context (inner m) (after m)) :
    Threaded after' c (ms.flatMap inner) c' := by
  induction h with
  | done honward => exact .done honward
  | moment honward _ ih =>
      rw [List.flatMap_cons]
      obtain ⟨hfirst, hothers⟩ := List.forall_mem_cons.1 hinner
      exact (of_onward honward hfirst).append (ih hothers)

end Threaded

/-! ### Quiet acts -/

/-- An act in which nothing is rendered once. -/
def Quiet {α : Type} (act : Render α) : Prop := ∀ c : Context, c.Onward (act.run c).2

variable {α β : Type} {c : Context}

/-- What keeps the balance and does not look at what was rendered once is quiet. -/
theorem Keeps.quiet {act : Render α} (h : Keeps (fun _ => True) act)
    (hblind : ∀ c, Law.blind.Holds act act c) : Quiet act := by
  refine fun c => ⟨(h c).later, ?_⟩
  have hsame := hblind c c.seen
  exact congrArg (fun done => done.2.seen) hsame

/-- What only reads the scope meets no check and looks at none. -/
theorem Readonly.quiet {act : Render α} (h : Readonly act) : Quiet act :=
  h.keeps.quiet fun _ => Law.blind.reads h

theorem quiet_pure (a : α) : Quiet (pure a) := (readonly_pure a).quiet

theorem quiet_fail {fault : Fault} (h : fault.Acyclic) : Quiet (fail fault : Render α) :=
  (readonly_fail h).quiet

theorem quiet_missingNode : Quiet (fail .missingNode : Render α) := quiet_fail fun h => nomatch h

theorem quiet_loopClause (source : String) :
    Quiet (fail (.expression source .loopClause) : Render α) :=
  quiet_fail fun h => nomatch h

theorem quiet_throw (halt : Halt) : Quiet (throw halt : Render α) := fun c => .refl c

/-- Two quiet acts are quiet together. -/
theorem quiet_bind {act : Render α} {next : α → Render β} (h : Quiet act)
    (hn : ∀ a, Quiet (next a)) : Quiet (act >>= next) := by
  intro c
  have hact := h c
  rcases hrun : act.run c with ⟨halt | a, c₁⟩
  · rw [hrun] at hact
    rw [Act.run_bind_of_error hrun]
    exact hact
  · rw [hrun] at hact
    rw [Act.run_bind_of_ok hrun]
    exact hact.trans (hn a c₁)

theorem quiet_allocated (node : Node) : Quiet (do return [← allocate node]) :=
  (keeps_bind (keeps_allocate node) fun _ => keeps_pure _).quiet fun _ => Law.holds_allocated node

/-- Copied nodes are not evaluated, so no check is made for them. -/
theorem quiet_copy (t : Template) (id : NodeId) : Quiet (copy t id) :=
  (keeps_copy t id).quiet fun _ => Law.holds_copy t id

/-- Loading a file adds to the library, and meets no check. -/
theorem quiet_load (file : String) : Quiet (load file) :=
  (keeps_load file).quiet fun c => Law.holds_load (Law.blind_lookUp file c)

theorem quiet_text (s : String) : Quiet (text s) :=
  (keeps_text s).quiet fun _ => Law.holds_text s

/-- Bindings of a template element change the scope alone. -/
theorem quiet_setBindings (attributes : Attributes) : Quiet (setBindings attributes) :=
  (keeps_setBindings fun _ _ => trivial).quiet (Law.holds_setBindings attributes)

theorem quiet_passed? (name : String) : Quiet (passed? name) := by
  intro c
  rw [run_passed?]
  exact .refl c

/-! ### Acts and their pieces -/

/-- An act renders once what some moments do one after the other. -/
def Consists (act : Render α) (c : Context) (parts : List Moment) : Prop :=
  Threaded Moment.finished c parts (act.run c).2

section Consists

variable {act : Render α} {next : α → Render β} {parts : List Moment}
variable {later : α → Context → List Moment}

/-- A quiet act consists of no parts at all. -/
theorem Quiet.consists (h : Quiet act) (c : Context) : Consists act c [] := .done (h c)

/-- A piece by itself. -/
theorem consists_act (task : Task) (c : Context) : Consists task.act c [⟨task, c⟩] :=
  .moment (.refl c) (.done (.refl _))

/-- The parts of two acts are those of the first one, and those of the second one if the first ends
well. -/
theorem consists_bind (h : Consists act c parts)
    (hn : ∀ a c₁, act.run c = (.ok a, c₁) → Consists (next a) c₁ (later a c₁)) :
    Consists (act >>= next) c (parts ++ following act c later) := by
  rw [Consists] at h ⊢
  rcases hrun : act.run c with ⟨halt | a, c₁⟩
  · rw [hrun] at h
    rw [Act.run_bind_of_error hrun, following_of_error hrun, List.append_nil]
    exact h
  · rw [hrun] at h
    rw [Act.run_bind_of_ok hrun, following_of_ok hrun]
    exact h.append (hn a c₁ hrun)

/-- A quiet act before others. -/
theorem Quiet.consists_bind (h : Quiet act)
    (hn : ∀ a c₁, act.run c = (.ok a, c₁) → Consists (next a) c₁ (later a c₁)) :
    Consists (act >>= next) c (following act c later) :=
  Render.consists_bind (h.consists c) hn

/-- Quiet acts after another one. -/
theorem Consists.bind_quiet (h : Consists act c parts) (hn : ∀ a, Quiet (next a)) :
    Consists (act >>= next) c parts := by
  have hbind : Consists (act >>= next) c (parts ++ following act c fun _ _ => []) :=
    consists_bind h fun a c₁ _ => (hn a).consists c₁
  have hnil : following act c (fun _ _ => []) = [] := by
    unfold following
    split <;> rfl
  rwa [hnil, List.append_nil] at hbind

/-- Parts are not changed by what is entered around them and left again, as long as that is quiet.
-/
theorem Consists.within {enter leave : Context → Context} (henter : c.Onward (enter c))
    (hleave : ∀ c : Context, c.Onward (leave c)) (h : Consists act (enter c) parts) :
    Consists (within enter leave act) c parts := by
  rw [Consists, run_within]
  exact (Threaded.of_onward henter h).to_onward (hleave _)

/-- Annotations change how an act fails, but not what it comes to. -/
theorem Consists.annotated (h : Consists act c parts) : Consists (annotated act) c parts := by
  rw [Consists, run_annotated]
  exact h

theorem Consists.withFrame (frame : Frame) (h : Consists act (c.inFrame frame) parts) :
    Consists (withFrame frame act) c parts :=
  h.within (Context.onward_of_eq rfl rfl rfl) fun _ => Context.onward_of_eq rfl rfl rfl

theorem Consists.withTag {tag : String} (h : Consists act (c.inTag tag) parts) :
    Consists (withTag tag act) c parts :=
  h.within (Context.onward_of_eq rfl rfl rfl) fun _ => Context.onward_of_eq rfl rfl rfl

theorem Consists.withSlots {slots : SlotScope} (h : Consists act (c.inSlots slots) parts) :
    Consists (withSlots slots act) c parts :=
  h.within (Context.onward_of_eq rfl rfl rfl) fun _ => Context.onward_of_eq rfl rfl rfl

theorem Consists.outsideSlots {own : SlotScope} (h : Consists act c.outside parts) :
    Consists (outsideSlots own act) c parts :=
  h.within (Context.onward_of_eq rfl rfl rfl) fun _ => Context.onward_of_eq rfl rfl rfl

theorem Consists.withFile {file : String} (h : Consists act (c.inFile file) parts) :
    Consists (withFile file act) c parts :=
  h.annotated.within (Context.onward_of_eq rfl rfl rfl) fun _ => Context.onward_of_eq rfl rfl rfl

end Consists

/-! ### Constructs -/

section Constructs

variable {depth bound : Nat} {t : Template} {id : NodeId} {ids : List NodeId} {e : Element}

/-- The nodes of two pieces, one after the other. -/
theorem Consists.append_nodes {here : List NodeId} {rest : Render (List NodeId)}
    {parts : List Moment} (h : Consists rest c parts) :
    Consists (do return here ++ (← rest)) c parts :=
  h.bind_quiet fun _ => quiet_pure _

/-- Each group of siblings is a part, and then the groups after it; where a loop gives nothing, an
alternative may come between. -/
theorem consists_groups (c : Context) :
    Consists (Task.groups depth t bound ids).act c ((Task.groups depth t bound ids).parts c) := by
  show Consists (groups (node (nodes depth) t) t bound ids) c _
  cases bound with
  | zero =>
      unfold groups
      exact (quiet_pure []).consists c
  | succ bound =>
      cases ids with
      | nil =>
          unfold groups
          exact (quiet_pure []).consists c
      | cons id ids =>
          unfold groups
          show Consists _ c (groupParts depth t bound id ids c)
          unfold groupParts
          cases hrole : Siblings.role t id with
          | condition =>
              refine consists_bind (consists_act (.chain depth t _) c) fun here c₁ _ => ?_
              exact (consists_act (.groups depth t bound _) c₁).append_nodes
          | orphan => exact consists_act (.groups depth t bound ids) c
          | loop =>
              refine consists_bind (consists_act (.node depth t id) c) fun here c₁ _ => ?_
              cases helse : Siblings.elseAfter? t ids with
              | none =>
                  cases here <;> exact (consists_act (.groups depth t bound ids) c₁).append_nodes
              | some found =>
                  cases here with
                  | nil =>
                      refine consists_bind (consists_act (.node depth t found.1) c₁)
                        fun here c₂ _ => ?_
                      exact (consists_act (.groups depth t bound found.2) c₂).append_nodes
                  | cons first others =>
                      exact (consists_act (.groups depth t bound ids) c₁).append_nodes
          | plain =>
              refine consists_bind (consists_act (.node depth t id) c) fun here c₁ _ => ?_
              exact (consists_act (.groups depth t bound ids) c₁).append_nodes

/-- A chain comes to the first of its nodes whose condition holds, the conditions before it being
quiet. -/
theorem consists_chain (c : Context) :
    Consists (Task.chain depth t ids).act c ((Task.chain depth t ids).parts c) := by
  cases ids with
  | nil => exact (quiet_pure []).consists c
  | cons id ids =>
      refine (readonly_holds t id).quiet.consists_bind fun found c₁ _ => ?_
      cases found with
      | true => exact consists_act (.node depth t id) c₁
      | false => exact consists_act (.chain depth t ids) c₁

/-- A node comes to its element, or to the iterations of its loop. The collection is evaluated
before them, which changes nothing that is threaded. -/
theorem consists_node (c : Context) :
    Consists (Task.node depth t id).act c ((Task.node depth t id).parts c) := by
  show Consists (node (nodes depth) t id) c (nodeParts depth t id c)
  unfold node nodeParts
  cases hget : t.arena.get? id with
  | none => exact quiet_missingNode.consists c
  | some found =>
      cases found with
      | text s => exact (quiet_text s).consists c
      | raw s => exact (quiet_allocated (.raw s)).consists c
      | element e =>
          cases hfor : e.get? "v-for" with
          | none =>
              simp only [hfor]
              exact consists_act (.once depth t id e) c
          | some source =>
              cases hclause : LoopClause.parse? source with
              | none =>
                  simp only [hfor, loop, hclause]
                  exact (quiet_loopClause source).consists c
              | some clause =>
                  simp only [hfor, loop, hclause]
                  refine (readonly_collection? _).quiet.consists_bind fun value? c₁ _ => ?_
                  exact consists_act (.entries depth t id e clause _) c₁

/-- Iterations come one after the other, each in a frame of its own. -/
theorem consists_entries {clause : LoopClause} {members : List (Value × Value)} (c : Context) :
    Consists (Task.entries depth t id e clause members).act c
      ((Task.entries depth t id e clause members).parts c) := by
  cases members with
  | nil => exact (quiet_pure []).consists c
  | cons member members =>
      let frame := clause.frame member.1 member.2
      have hfirst := (consists_act (.once depth t id e) (c.inFrame frame)).withFrame frame
      refine consists_bind hfirst fun here c₁ _ => ?_
      exact (consists_act (.entries depth t id e clause members) c₁).append_nodes

/-- Content for slots is only collected where nodes are there that no slot is named for. -/
theorem consists_includedSlots (c : Context) :
    Consists (includedSlots (nodes depth) t e) c (collectedParts depth t e c) := by
  unfold includedSlots collectedParts
  dsimp only
  by_cases hempty : (unnamedChildren t e).isEmpty = true
  · rw [if_pos hempty]
    rw [unnamedChildren] at hempty
    rw [if_pos hempty]
    exact (quiet_pure _).consists c
  · rw [if_neg hempty]
    rw [unnamedChildren] at hempty
    rw [if_neg hempty]
    refine (consists_act (.siblings depth t (unnamedChildren t e)) c).bind_quiet fun ids => ?_
    split
    · exact quiet_pure _
    · exact quiet_pure _

/-- An include comes to what it collects first and to its component then. -/
theorem consists_include (c : Context) :
    Consists (Task.include depth t e).act c ((Task.include depth t e).parts c) := by
  refine (readonly_interpolated _).quiet.consists_bind fun file c₁ _ => ?_
  refine (readonly_arguments e.attributes []).quiet.consists_bind fun args c₂ _ => ?_
  refine consists_bind (consists_includedSlots c₂) fun slots c₃ _ => ?_
  refine (quiet_load file).consists_bind fun component c₄ _ => ?_
  let outer := (c₄.inFile component.file).inSlots slots
  let frame := Dict.overlay args component.frontMatter
  have hroots := consists_act (.siblings depth component component.roots) (outer.inFrame frame)
  refine (hroots.withFrame frame).withSlots.withFile.bind_quiet fun body => ?_
  split
  · exact quiet_allocated _
  · exact quiet_pure body

/-- A template element comes to its children after its bindings are set. -/
theorem consists_wrapper (c : Context) :
    Consists (Task.wrapper depth t e).act c ((Task.wrapper depth t e).parts c) := by
  refine (readonly_require _).quiet.consists_bind fun _ c₁ _ => ?_
  refine (quiet_setBindings e.attributes).consists_bind fun _ c₂ _ => ?_
  refine (readonly_directive? e "v-html").quiet.consists_bind fun html? c₃ _ => ?_
  cases html? with
  | some html => exact (quiet_allocated _).consists c₃
  | none => exact consists_act (.siblings depth t e.children) c₃

/-- A slot comes to content that was passed, or to its own children. -/
theorem consists_slot (c : Context) :
    Consists (Task.slot depth t e).act c ((Task.slot depth t e).parts c) := by
  refine (quiet_passed? _).consists_bind fun found c₁ _ => ?_
  rcases found with _ | ⟨own, ids | ⟨definer, id, binding⟩⟩
  · exact consists_act (.siblings depth t e.children) c₁
  · exact (quiet_pure ids).consists c₁
  · refine (readonly_properties e.attributes []).quiet.consists_bind fun frame c₂ _ => ?_
    cases hcontent : definer.element? id with
    | none => exact (quiet_pure []).consists c₂
    | some content =>
        let frame := binding.frame frame
        have hbody := consists_act (.siblings depth definer content.children)
          (c₂.outside.inFrame frame)
        exact (hbody.withFrame frame).outsideSlots

/-- An output element comes to its children unless a payload is written in their place. -/
theorem consists_element (c : Context) :
    Consists (Task.element depth t e).act c ((Task.element depth t e).parts c) := by
  refine (readonly_payload? e).quiet.consists_bind fun payload c₁ _ => ?_
  refine (readonly_attributesOf e).quiet.consists_bind fun attributes c₂ _ => ?_
  cases payload with
  | some payload =>
      exact (quiet_bind (quiet_pure []) fun _ => quiet_allocated _).consists c₂
  | none =>
      have hchildren := (consists_act (.siblings depth t e.children) (c₂.inTag e.tag)).withTag
      exact hchildren.bind_quiet fun _ => quiet_allocated _

/-- After its own check an element is what it is evaluated as. -/
theorem threaded_once (c : Context) :
    Threaded Moment.finished (Moment.mk (.once depth t id e) c).checked
      ((Task.once depth t id e).parts c) (((Task.once depth t id e).act.run c).2) := by
  obtain ⟨due, c₁, hrun⟩ := exists_run_isDue id e c
  have hchecked : (Moment.mk (.once depth t id e) c).checked = c₁ := congrArg Prod.snd hrun
  rw [hchecked, act_once, Act.run_bind_of_ok hrun, Task.parts, following_of_ok hrun]
  cases due with
  | false => exact .done (.refl c₁)
  | true =>
      cases hconstruct : construct? depth t e with
      | none => exact (quiet_copy t id).consists c₁
      | some task => exact consists_act task c₁

end Constructs

/-! ### Whole evaluations -/

/-- An evaluation renders once what its own check and its parts do. The contexts are handed on from
part to part, so that a part begins with what the ones before it have met. -/
theorem threaded_parts (m : Moment) :
    Threaded Moment.finished m.checked (m.task.parts m.context) m.finished := by
  obtain ⟨task, c⟩ := m
  cases task with
  | template depth t =>
      have hroots := consists_act (.siblings depth t t.roots)
        ((c.inFile t.file).inFrame t.frontMatter)
      exact (hroots.withFrame t.frontMatter).withFile
  | siblings depth t ids =>
      cases depth with
      | zero => exact (quiet_throw .depth).consists c
      | succ depth => exact consists_act (.groups depth t ids.length ids) c
  | groups depth t bound ids => exact consists_groups c
  | chain depth t ids => exact consists_chain c
  | node depth t id => exact consists_node c
  | entries depth t id e clause members => exact consists_entries c
  | once depth t id e => exact threaded_once c
  | «include» depth t e => exact consists_include c
  | wrapper depth t e => exact consists_wrapper c
  | slot depth t e => exact consists_slot c
  | element depth t e => exact consists_element c

/-- An evaluation renders once what the checks at its moments do. It follows from the parts by
induction over what a piece leads to. -/
theorem threaded_moments (m : Moment) :
    Threaded Moment.checked m.context (moments m) m.finished := by
  obtain ⟨task, c⟩ := m
  induction task, c using Leads.induct with
  | h task c ih =>
      rw [moments_eq]
      refine .moment (.refl c) ((threaded_parts ⟨task, c⟩).flatMap fun part hpart => ?_)
      exact ih part.task part.context (leads_of_mem_parts hpart)

end Render
end Stencil
