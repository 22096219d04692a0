import Stencil.Proofs.Render.Threading

/-!
# Which elements are due

## Main definitions

* `Render.Moment.key?` — what the element of a moment is known by
* `Render.Moment.passes` — the element of a moment gets past its check
* `Render.passing` — the moments at which elements known by a key get past their checks

## Main results

* `Render.Threaded.mem_seen` — what was rendered once is what the elements met are known by
* `Render.Threaded.passing_eq` — of the elements known by a key only the first one gets past
* `Render.run_once_of_mem`, `Render.run_once_of_not_mem` — what an element comes to in either case
-/

namespace Stencil

open Markup

namespace Render

/-- What the element of a moment is known by, if it renders once. -/
def Moment.key? (m : Moment) : Option OnceKey :=
  match m.task with
  | .once _ _ id e => onceKey? id e
  | _ => none

/-- Whether a moment is that of an element that gets past its check, be it that the element has no
key or that its key was not seen before. -/
def Moment.passes (m : Moment) : Bool :=
  match m.task with
  | .once _ _ id e =>
    match ((isDue id e).run m.context).1 with
    | .ok due => due
    | .error _ => false
  | _ => false

/-- The moments at which elements known by a key get past their checks. That there is one of them at
most is what rendering once means. -/
def passing (key : OnceKey) (ms : List Moment) : List Moment :=
  ms.filter fun m => decide (m.key? = some key) && m.passes

/-- The evaluation of an element that is due. -/
def evaluation (depth : Nat) (t : Template) (id : NodeId) (e : Element) : Render (List NodeId) :=
  ((construct? depth t e).map Task.act).getD (copy t id)

variable {key : OnceKey} {m : Moment} {c c' : Context} {before after ms : List Moment}

/-! ### One check -/

section Check

variable {depth : Nat} {t : Template} {id : NodeId} {e : Element}

theorem run_isDue_of_mem (h : onceKey? id e = some key) (hseen : key ∈ c.seen) :
    (isDue id e).run c = (.ok false, c) := by
  unfold isDue
  rw [h, run_firstTime, if_pos (List.contains_iff_mem.2 hseen)]

theorem run_isDue_of_not_mem (h : onceKey? id e = some key) (hseen : key ∉ c.seen) :
    (isDue id e).run c = (.ok true, c.withSeen (key :: c.seen)) := by
  unfold isDue
  rw [h, run_firstTime, if_neg fun hmem => hseen (List.contains_iff_mem.1 hmem)]
  rfl

theorem run_isDue_of_none (h : onceKey? id e = none) : (isDue id e).run c = (.ok true, c) := by
  unfold isDue
  rw [h]
  rfl

/-- An element known by a key that was met before gives no nodes and changes nothing. It is not
evaluated at all, so no file is loaded for it and no fault of it shows. -/
theorem run_once_of_mem (h : onceKey? id e = some key) (hseen : key ∈ c.seen) :
    (nodeOnce (nodes depth) t id e).run c = (.ok [], c) := by
  show (Task.once depth t id e).act.run c = _
  rw [act_once, Act.run_bind_of_ok (run_isDue_of_mem h hseen)]
  rfl

/-- An element known by a key that was not met before is evaluated, with the key met. The key counts
from here on, so that the element itself cannot be rendered again within its own content. -/
theorem run_once_of_not_mem (h : onceKey? id e = some key) (hseen : key ∉ c.seen) :
    (nodeOnce (nodes depth) t id e).run c =
      (evaluation depth t id e).run (c.withSeen (key :: c.seen)) := by
  show (Task.once depth t id e).act.run c = _
  rw [act_once, Act.run_bind_of_ok (run_isDue_of_not_mem h hseen)]
  rfl

end Check

theorem Moment.exists_once (h : m.key? = some key) :
    ∃ depth t id e, m.task = .once depth t id e ∧ onceKey? id e = some key := by
  obtain ⟨task, c⟩ := m
  cases task with
  | once depth t id e => exact ⟨depth, t, id, e, rfl, h⟩
  | _ => exact nomatch h

/-- An element gets past its check if what it is known by was not met before. -/
theorem Moment.passes_eq (h : m.key? = some key) : m.passes = decide (key ∉ m.context.seen) := by
  obtain ⟨depth, t, id, e, htask, hkey⟩ := Moment.exists_once h
  unfold Moment.passes
  rw [htask]
  by_cases hseen : key ∈ m.context.seen
  · simp [run_isDue_of_mem hkey hseen, hseen]
  · simp [run_isDue_of_not_mem hkey hseen, hseen]

/-- After a check what its element is known by was met, and nothing else that was not met before. -/
theorem Moment.mem_seen_checked :
    key ∈ m.checked.seen ↔ key ∈ m.context.seen ∨ m.key? = some key := by
  obtain ⟨task, c⟩ := m
  cases task with
  | once depth t id e =>
      show key ∈ ((isDue id e).run c).2.seen ↔ key ∈ c.seen ∨ onceKey? id e = some key
      cases hkey : onceKey? id e with
      | none => simp [run_isDue_of_none hkey]
      | some own =>
          by_cases hseen : own ∈ c.seen
          · rw [run_isDue_of_mem hkey hseen]
            refine ⟨.inl, ?_⟩
            rintro (hmem | heq)
            · exact hmem
            · exact Option.some.inj heq ▸ hseen
          · rw [run_isDue_of_not_mem hkey hseen]
            show key ∈ own :: c.seen ↔ _
            rw [List.mem_cons, or_comm, Option.some.injEq, eq_comm]
  | _ => exact ⟨.inl, fun h => h.elim id nofun⟩

theorem Moment.later_checked (m : Moment) : m.context.Later m.checked := by
  obtain ⟨task, c⟩ := m
  cases task with
  | once depth t id e =>
      have hkeeps : Keeps (fun _ => True) (isDue id e) := keeps_isDue
      exact (hkeeps c).later
  | _ => exact .refl c

/-! ### Checks one after the other -/

namespace Threaded

/-- What was rendered once is what the elements met are known by. The statement is for the moments
of a render in their order, one context handed on to the next. -/
theorem mem_seen (h : Threaded Moment.checked c ms c') :
    key ∈ c'.seen ↔ key ∈ c.seen ∨ ∃ m ∈ ms, m.key? = some key := by
  induction h with
  | done honward => simp [honward.seen]
  | moment honward _ ih =>
      rw [ih, Moment.mem_seen_checked, honward.seen, or_assoc]
      simp only [List.exists_mem_cons_iff]

/-- At a moment those keys were met by which the elements at the moments before it are known. -/
theorem mem_seen_context (h : Threaded Moment.checked c (before ++ m :: after) c') :
    key ∈ m.context.seen ↔ key ∈ c.seen ∨ ∃ m' ∈ before, m'.key? = some key := by
  obtain ⟨c₁, hbefore, honward, -⟩ := h.split
  rw [honward.seen, hbefore.mem_seen]

/-- The context of a moment comes before the end. -/
theorem later (h : Threaded Moment.checked c ms c') : c.Later c' := by
  induction h with
  | done honward => exact honward.later
  | moment honward _ ih => exact (honward.later.trans (Moment.later_checked _)).trans ih

theorem later_of_mem (h : Threaded Moment.checked c ms c') (hm : m ∈ ms) : m.context.Later c' := by
  obtain ⟨before, after, rfl⟩ := List.append_of_mem hm
  obtain ⟨c₁, -, -, hafter⟩ := h.split
  exact (Moment.later_checked m).trans hafter.later

theorem passing_eq_nil (h : Threaded Moment.checked c ms c') (hkey : key ∈ c.seen) :
    passing key ms = [] := by
  induction h with
  | done _ => rfl
  | @moment c c' m ms honward _ ih =>
      have hmet : key ∈ m.context.seen := honward.seen ▸ hkey
      rw [passing, List.filter_cons_of_neg]
      · exact ih (Moment.mem_seen_checked.2 (.inl hmet))
      · intro hpasses
        obtain ⟨hown, hpasses⟩ := (Bool.and_eq_true _ _).mp hpasses
        rw [Moment.passes_eq (of_decide_eq_true hown)] at hpasses
        exact of_decide_eq_true hpasses hmet

/-- Of the elements known by a key that was not met before, the first one gets past its check and no
other one does. -/
theorem passing_eq (h : Threaded Moment.checked c ms c') (hkey : key ∉ c.seen) :
    passing key ms = (ms.find? fun m => decide (m.key? = some key)).toList := by
  induction h with
  | done _ => rfl
  | @moment c c' m ms honward hrest ih =>
      have hmet : key ∉ m.context.seen := honward.seen ▸ hkey
      by_cases hown : m.key? = some key
      · have hpasses : m.passes = true := (Moment.passes_eq hown).trans (decide_eq_true hmet)
        rw [passing, List.filter_cons_of_pos (by simp [hown, hpasses]),
          List.find?_cons_of_pos (by simp [hown])]
        exact congrArg (m :: ·) (hrest.passing_eq_nil (Moment.mem_seen_checked.2 (.inr hown)))
      · rw [passing, List.filter_cons_of_neg (by simp [hown]),
          List.find?_cons_of_neg (by simp [hown])]
        exact ih fun hmem => (Moment.mem_seen_checked.1 hmem).elim hmet hown

end Threaded
end Render
end Stencil
