import Stencil.Proofs.Render.Home

/-!
# What a render loads

## Main definitions

* `Render.Task.Fetches` — a piece comes to the loading of a file, and the file is found
* `Render.Law.loading` — whatever is kept afterwards was kept before, or is among given files

## Main results

* `Render.Task.get?_run_iff` — a library keeps after a piece what it kept before, and the files that
  were found on the way

## Design notes

That nothing else is kept is a law of evaluation whose only primitive is the look for a file.  That
nothing found is lost again is the order of moments: an include comes to its component as soon as
the file is found, and the rest of the evaluation only adds to the library.
-/

namespace Stencil

open Markup

namespace Render

/-- A piece comes to the loading of a file, and the file is found. It is told by what the piece
comes to, not by what is kept afterwards. -/
def Task.Fetches (task : Task) (c : Context) (file : String) (t : Template) : Prop :=
  ∃ task' c' c₁, Reaches task c task' c' ∧ Loads task' c' file c₁ ∧
    (c₁.library.load file).1 = .ok t

variable {task : Task} {c c' c₁ : Context} {file : String} {t : Template}

/-- Whatever is kept afterwards was kept before, or is among given files. As a law it is shown for
single acts alone, and holds of whole renders. -/
def Law.loading (found : String → Template → Prop) : Law where
  Holds act _ c := ∀ file t, (act.run c).2.library.templates.get? file = some t →
    c.library.templates.get? file = some t ∨ found file t
  reads := by
    rintro α act c ⟨f, -, rfl⟩ file t h
    rw [run_evaluate] at h
    exact .inl h
  seq := by
    intro α β act act' next next' c h hn file t hkept
    rcases hrun : act.run c with ⟨halt | a, c₁⟩
    · rw [Act.run_bind_of_error hrun] at hkept
      rw [hrun] at h
      exact h file t hkept
    · rw [Act.run_bind_of_ok hrun] at hkept
      rw [hrun] at h
      exact (hn a c₁ hrun file t hkept).elim (h file t) .inr
  change := by
    intro α view change c _ hchange file t h
    rw [Act.run_modifyGet, hchange.library] at h
    exact .inl h
  inside := by
    intro α enter leave act act' c henter hleave h file t hkept
    rw [run_within, hleave.library] at hkept
    have hinner := h file t hkept
    rwa [henter.library] at hinner
  annotation := by
    intro α act act' c h file t hkept
    rw [run_annotated] at hkept
    exact h file t hkept

/-- The check of what renders once leaves the library as it is. -/
theorem library_isDue (id : NodeId) (e : Element) (c : Context) :
    ((isDue id e).run c).2.library = c.library := by
  cases hkey : onceKey? id e with
  | none => rw [run_isDue_of_none hkey]
  | some key =>
      by_cases hseen : key ∈ c.seen
      · rw [run_isDue_of_mem hkey hseen]
      · rw [run_isDue_of_not_mem hkey hseen]
        rfl

/-- A library keeps nothing after a piece but what it kept before, and the files found on the way.
-/
theorem Task.fetches_of_get?_run (h : (task.act.run c).2.library.templates.get? file = some t) :
    c.library.templates.get? file = some t ∨ task.Fetches c file t := by
  have halong : (Law.loading (task.Fetches c)).Along 0 task c := by
    refine Law.along_of_reaches ?_ ?_ fun t ids c' _ file u hkept => .inl hkept
    · intro depth t id e c' _ file u hkept
      rw [library_isDue] at hkept
      exact .inl hkept
    · intro task' c' name c₁ hreaches hloads file u hkept
      rcases Library.get?_load_cases hkept with hold | ⟨rfl, hfound⟩
      · exact .inl hold
      · exact .inr ⟨task', c', c₁, hreaches, hloads, hfound⟩
  exact halong file t h

/-- Where a file is found, the render comes to its nodes, with the file kept. -/
theorem Loads.exists_leads (h : Loads task c file c₁) (hfound : (c₁.library.load file).1 = .ok t) :
    ∃ task' c', Leads task c task' c' ∧ c'.library.templates.get? file = some t := by
  cases h with
  | mk hfile hargs hslots =>
      have hload : (load file).run c₁ = (.ok t, c₁.withLibrary (c₁.library.load file).2) := by
        rw [run_load, hfound]
        rfl
      exact ⟨_, _, .included hfile hargs hslots hload, Library.get?_of_load hfound⟩

/-- A library keeps after a piece what it kept before, and the files that were found on the way.
Nothing is dropped or replaced, and nothing is there that the piece did not look for. -/
theorem Task.get?_run_iff : (task.act.run c).2.library.templates.get? file = some t ↔
    c.library.templates.get? file = some t ∨ task.Fetches c file t := by
  refine ⟨Task.fetches_of_get?_run, ?_⟩
  have hthreaded := threaded_moments ⟨task, c⟩
  rintro (hkept | ⟨task', c', c₁, hreaches, hloads, hfound⟩)
  · have hlater := hthreaded.later_of_mem (mem_moments_iff.2 .start)
    exact hlater.library.kept file t hkept
  · obtain ⟨task₂, c₂, hleads, hkept⟩ := hloads.exists_leads hfound
    have hmem : Moment.mk task₂ c₂ ∈ moments ⟨task, c⟩ := mem_moments_iff.2 (hreaches.step hleads)
    exact (hthreaded.later_of_mem hmem).library.kept file t hkept

end Render
end Stencil
