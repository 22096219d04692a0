import Stencil.Proofs.Render.Loading
import Stencil.Proofs.Rendering

/-!
# Sessions do not depend on what was kept

What an engine keeps is told by what its calls have loaded, and no answer depends on it but for the
sources that files had when they were loaded.

## Main definitions

* `Run.Adds` — an act keeps what was kept before it, and something more under a condition
* `Run.Wraps` — a layout of some content finds a file, its own or one that it includes
* `Session.Fetches` — a call comes to the loading of a file, and the file is found
* `Session.FirstFetches` — what the loader had for a file when a call found it for the first time

## Main results

* `Session.Step.get?_run_iff` — a step adds the files that it comes to and that are found, no others
* `Session.Sound.source?_after_iff` — the sources of a session are those of the first loads
* `Session.answer_eq_renewed` — every answer is that of a new engine

## Design notes

A load is told by the places where files are loaded: a call loads its page, `Run.layouts` loads each
layout, and includes load their components on the course of a rendering, which is
`Render.Task.get?_run_iff`.  Calls that fail count with all that they loaded before the failure.
-/

namespace Stencil

open Render

/-! ### Work that loads files -/

namespace Run

variable {α β : Type} {o : Options} {lib : Library} {w : Wrapping} {file : String} {u : Template}

/-- After an act a template is kept for a file if it was before, or under some condition. It is an
equivalence: nothing else is kept, and nothing is dropped. -/
def Adds (act : Run α) (lib : Library) (file : String) (u : Template) (condition : Prop) : Prop :=
  (act.run lib).2.templates.get? file = some u ↔ lib.templates.get? file = some u ∨ condition

theorem Adds.congr {act : Run α} {A B : Prop} (h : Adds act lib file u A) (hiff : A ↔ B) :
    Adds act lib file u B :=
  Iff.trans h (or_congr_right hiff)

theorem adds_of_eq {act : Run α} {result : Except Halt α} (h : act.run lib = (result, lib)) :
    Adds act lib file u False := by
  rw [Adds, h, or_false]

/-- Two acts add what the first one does, and if it ends well what the second one does. The
condition of the second may depend on what the first one gives and on the library it leaves. -/
theorem adds_bind {act : Run α} {next : α → Run β} {A : Prop} {B : α → Library → Prop}
    (hact : Adds act lib file u A)
    (hnext : ∀ a lib₁, act.run lib = (.ok a, lib₁) → Adds (next a) lib₁ file u (B a lib₁)) :
    Adds (act >>= next) lib file u (A ∨ ∃ a lib₁, act.run lib = (.ok a, lib₁) ∧ B a lib₁) := by
  unfold Adds at hact ⊢
  rcases hrun : act.run lib with ⟨halt | a, lib₁⟩
  · rw [hrun] at hact
    rw [Act.run_bind_of_error hrun, hact, or_iff_left (a := A)]
    rintro ⟨a, lib', heq, -⟩
    cases heq
  · rw [hrun] at hact
    have hboth := hnext a lib₁ hrun
    rw [Adds, hact, or_assoc] at hboth
    rw [Act.run_bind_of_ok hrun, hboth]
    refine or_congr_right (or_congr_right ⟨fun h => ⟨a, lib₁, rfl, h⟩, ?_⟩)
    rintro ⟨a', lib', heq, h⟩
    cases heq
    exact h

/-- The loading of a file adds its template, if it is found. -/
theorem adds_load (name : String) (lib : Library) (file : String) (u : Template) :
    Adds (load name) lib file u (name = file ∧ ∃ lib₁, (load name).run lib = (.ok u, lib₁)) := by
  rw [Adds, run_load]
  constructor
  · intro h
    rcases Library.get?_load_cases h with hold | ⟨rfl, hfound⟩
    · exact .inl hold
    · exact .inr ⟨rfl, _, by rw [hfound]; rfl⟩
  · rintro (h | ⟨rfl, lib₁, hrun⟩)
    · exact (lib.grows_load name).kept file u h
    · exact Library.get?_of_load (of_lifted_eq_ok (congrArg Prod.fst hrun))

/-- The rendering of a template adds the files that are found on its course. -/
theorem adds_page (t : Template) (scope : Scope) (lib : Library) (file : String) (u : Template) :
    Adds (page t scope) lib file u
      ((Task.template depthLimit t).Fetches (.new lib scope) file u) := by
  have hcontext : ((Render.page t).run (.new lib scope)).2 =
      ((template (nodes depthLimit) t).run (.new lib scope)).2 := context_pageWithin depthLimit t _
  rw [Adds, run_page, hcontext]
  show ((Task.template depthLimit t).act.run _).2.library.templates.get? file = some u ↔ _
  exact Task.get?_run_iff

/-- A layout is found for some content, and with it a file: its own or one that it includes. -/
inductive Wraps (o : Options) (w : Wrapping) : String → Template → Prop where
  | layout {name : String} {t : Template} {lib : Library} : w.next? = some name →
      (load (o.layoutFile name)).run w.library = (.ok t, lib) → Wraps o w (o.layoutFile name) t
  | included {name file : String} {t u : Template} {lib : Library} : w.next? = some name →
      (load (o.layoutFile name)).run w.library = (.ok t, lib) →
      (Task.template depthLimit t).Fetches (.new lib w.given) file u → Wraps o w file u

/-- The next layout finds the file that it is loaded from, and what is included in it. -/
theorem wraps_iff {name : String} (hnext : w.next? = some name) :
    Wraps o w file u ↔
      (o.layoutFile name = file ∧
        ∃ loaded, (load (o.layoutFile name)).run w.library = (.ok u, loaded)) ∨
        ∃ layout loaded, (load (o.layoutFile name)).run w.library = (.ok layout, loaded) ∧
          (Task.template depthLimit layout).Fetches (.new loaded w.given) file u := by
  constructor
  · rintro (⟨hnext', hload⟩ | ⟨hnext', hload, hfetches⟩)
    · obtain rfl := Option.some.inj (hnext.symm.trans hnext')
      exact .inl ⟨rfl, _, hload⟩
    · obtain rfl := Option.some.inj (hnext.symm.trans hnext')
      exact .inr ⟨_, _, hload, hfetches⟩
  · rintro (⟨rfl, loaded, hload⟩ | ⟨layout, loaded, hload, hfetches⟩)
    · exact .layout hnext hload
    · exact .included hnext hload hfetches

/-- One of the layouts around some content finds a file, if at most so many are rendered. -/
def WrapsWithin (o : Options) (limit : Nat) (w : Wrapping) (file : String) (u : Template) : Prop :=
  ∃ stages w', Stages o w stages w' ∧ stages.length < limit ∧ Wraps o w' file u

theorem not_wrapsWithin_of_none {limit : Nat} (hnext : w.next? = none) :
    ¬ WrapsWithin o limit w file u := by
  rintro ⟨stages, w', hstages, -, hwraps⟩
  have hnone : w'.next? = none := by
    cases hstages with
    | done => exact hnext
    | stage hsome => exact nomatch hnext.symm.trans hsome
  cases hwraps with
  | layout hsome => exact nomatch hnone.symm.trans hsome
  | included hsome => exact nomatch hnone.symm.trans hsome

/-- It is the next layout that finds the file, or one after it. The layouts after it are told of the
wrapping that the next one leaves. -/
theorem wrapsWithin_succ_iff {limit : Nat} {name : String} (hnext : w.next? = some name) :
    WrapsWithin o (limit + 1) w file u ↔
      Wraps o w file u ∨ ∃ layout loaded, (load (o.layoutFile name)).run w.library =
        (.ok layout, loaded) ∧ ∃ found rendered,
          (page layout w.given).run loaded = (.ok found, rendered) ∧ WrapsWithin o limit
            ⟨rendered, w.scope.push layout.frontMatter, found.1, layout.layout?⟩ file u := by
  constructor
  · rintro ⟨stages, w', hstages, hlength, hwraps⟩
    cases hstages with
    | done => exact .inl hwraps
    | stage hnext' hload hpage hstages =>
        obtain rfl := Option.some.inj (hnext.symm.trans hnext')
        have hless := Nat.lt_of_succ_lt_succ hlength
        exact .inr ⟨_, _, hload, _, _, hpage, _, w', hstages, hless, hwraps⟩
  · rintro (hwraps | ⟨layout, loaded, hload, found, rendered, hpage, stages, w', hstages, hlength,
      hwraps⟩)
    · exact ⟨[], w, .done, Nat.succ_pos limit, hwraps⟩
    · exact ⟨_, w', .stage hnext hload hpage hstages, Nat.succ_lt_succ hlength, hwraps⟩

/-- Putting content into layouts adds the files that these find. The induction is on the number of
layouts that remain, as the work itself goes by it. -/
theorem adds_wrapFrom (remaining : Nat) : ∀ files w,
    Adds (wrapFrom o remaining files w) w.library file u (WrapsWithin o remaining w file u) := by
  induction remaining with
  -- Without a layout remaining none is loaded.
  | zero =>
      intro files w
      have hnone : ¬ WrapsWithin o 0 w file u := fun ⟨_, _, _, hlength, _⟩ =>
        Nat.not_lt_zero _ hlength
      cases hnext : w.next? with
      | none => exact (adds_of_eq (run_wrapFrom_none hnext)).congr (iff_of_false id hnone)
      | some name => exact (adds_of_eq (run_wrapFrom_limit hnext)).congr (iff_of_false id hnone)
  | succ remaining ih =>
      intro files w
      cases hnext : w.next? with
      | none =>
          have hnone : ¬ WrapsWithin o (remaining + 1) w file u := not_wrapsWithin_of_none hnext
          exact (adds_of_eq (run_wrapFrom_none hnext)).congr (iff_of_false id hnone)
      | some name =>
          -- The layouts after the next one, in the library and with the content that it leaves.
          have hrest : ∀ layout loaded found rendered,
              (page layout w.given).run loaded = (.ok found, rendered) →
              Adds (layouts o remaining (files ++ [o.layoutFile name])
                  (found.2.pop.push layout.frontMatter) found.1 layout.layout?) rendered file u
                (WrapsWithin o remaining
                  ⟨rendered, w.scope.push layout.frontMatter, found.1, layout.layout?⟩ file u) := by
            intro layout loaded found rendered hpage
            rw [scope_of_run_page hpage]
            exact ih _ ⟨rendered, w.scope.push layout.frontMatter, found.1, layout.layout?⟩
          rw [wrapFrom, hnext]
          refine (adds_bind (adds_load (o.layoutFile name) w.library file u) fun layout loaded _ =>
            adds_bind (adds_page layout w.given loaded file u) (hrest layout loaded)).congr ?_
          rw [wrapsWithin_succ_iff hnext, wraps_iff hnext]
          -- A file is fetched as the next layout, within it, or by the layouts after it.
          simp only [and_or_left, exists_or, or_assoc]

end Run

/-! ### Calls that load files -/

namespace Session

variable {α : Type} {engine : Engine} {step : Step} {file : String} {u : Template}

/-- A call comes to the loading of a file, and the file is found: that of its page or of a layout,
or one that is included on the course of a rendering. Of the source text that a fragment is rendered
from no file is loaded. -/
inductive Fetches (engine : Engine) (step : Step) : String → Template → Prop where
  | rendered {r : Rendering} : step.page?.isSome = true → Renders engine step r →
      Fetches engine step r.template.file r.template
  | included {r : Rendering} {file : String} {t : Template} : Renders engine step r →
      r.start.task.Fetches r.start.context file t → Fetches engine step file t

theorem file_of_run_load {lib lib' : Library} {t : Template}
    (h : (Run.load file).run lib = (.ok t, lib')) : t.file = file := by
  rw [Run.run_load, Prod.mk.injEq] at h
  exact Library.file_of_get? (Library.get?_of_load (of_lifted_eq_ok h.1))

/-- A call that renders a page comes to the loading of its file, of what is included in the page,
and of what the layouts around it find. -/
theorem fetches_iff_of_page {page : String} {data : Value}
    (hstep : step.page? = some (page, data)) :
    Fetches engine step file u ↔
      (page = file ∧ ∃ lib, (Run.load page).run engine.library = (.ok u, lib)) ∨
        ∃ t lib, (Run.load page).run engine.library = (.ok t, lib) ∧
          ((Task.template depthLimit t).Fetches (.new lib (.ofData data)) file u ∨
            ∃ found lib₁, (Run.page t (.ofData data)).run lib = (.ok found, lib₁) ∧
              (step.hasLayouts = true ∧ Run.WrapsWithin engine.options engine.options.maxLayoutDepth
                (.ofPage t data found.1 lib₁) file u)) := by
  constructor
  -- From a fetch: either a file that is rendered was loaded, or one that a rendering includes.
  · rintro (⟨hpage, hrenders⟩ | ⟨hrenders, hfetches⟩)
    · cases hrenders with
      | page hstep' hload =>
          cases hstep.symm.trans hstep'
          exact .inl ⟨(file_of_run_load hload).symm, _, hload⟩
      | fragment hfragment _ =>
          subst hfragment
          exact nomatch hpage
      | layout hstep' hlayouts hload hrun hstages hlength hnext hlayout =>
          cases hstep.symm.trans hstep'
          rw [file_of_run_load hlayout]
          exact .inr ⟨_, _, hload, .inr ⟨_, _, hrun, hlayouts, _, _, hstages, hlength,
            .layout hnext hlayout⟩⟩
    · cases hrenders with
      | page hstep' hload =>
          cases hstep.symm.trans hstep'
          exact .inr ⟨_, _, hload, .inl hfetches⟩
      | fragment hfragment _ =>
          subst hfragment
          exact nomatch hstep
      | layout hstep' hlayouts hload hrun hstages hlength hnext hlayout =>
          cases hstep.symm.trans hstep'
          exact .inr ⟨_, _, hload, .inr ⟨_, _, hrun, hlayouts, _, _, hstages, hlength,
            .included hnext hlayout hfetches⟩⟩
  -- And back, case by case.
  · have hpage : step.page?.isSome = true := hstep ▸ rfl
    rintro (⟨rfl, lib, hload⟩ | ⟨t, lib, hload, hfetches | ⟨⟨content, after⟩, lib₁, hrun, hlayouts,
      stages, w, hstages, hlength, hwraps⟩⟩)
    · have hfetches := Fetches.rendered hpage (.page hstep hload)
      rwa [file_of_run_load hload] at hfetches
    · exact .included (.page hstep hload) hfetches
    · cases hwraps with
      | layout hnext hlayout =>
          have hfetches := Fetches.rendered hpage
            (.layout hstep hlayouts hload hrun hstages hlength hnext hlayout)
          rwa [file_of_run_load hlayout] at hfetches
      | included hnext hlayout hfetches =>
          exact .included (.layout hstep hlayouts hload hrun hstages hlength hnext hlayout) hfetches

/-- A call that renders a page adds the files that it comes to, if what it does last adds those of
the layouts. -/
theorem adds_of_page (step : Step) {page : String} {data : Value}
    (last : Template → String × Scope → Run String) (hstep : step.page? = some (page, data))
    (hlast : ∀ t found lib, Run.Adds (last t found) lib file u
      (step.hasLayouts = true ∧ Run.WrapsWithin engine.options engine.options.maxLayoutDepth
        (.ofPage t data found.1 lib) file u)) :
    Run.Adds (do
        let t ← Run.load page
        let found ← Run.page t (Scope.ofData data)
        last t found) engine.library file u
      (Fetches engine step file u) := by
  refine (Run.adds_bind (Run.adds_load page engine.library file u) fun t lib _ =>
    Run.adds_bind (Run.adds_page t _ lib file u) fun found lib₁ _ => hlast t found lib₁).congr ?_
  exact (fetches_iff_of_page hstep).symm

/-- A call that renders a source text adds what is included in it. The source itself is no file, so
nothing is kept for it. -/
theorem adds_renderFragment (source : String) (data : Value) :
    Run.Adds (do
        let t ← Engine.parseFragment source
        let found ← Run.page t (Scope.ofData data)
        return found.1) engine.library file u
      (Fetches engine (.renderFragment source data) file u) := by
  have hparse : Run.Adds (Engine.parseFragment source) engine.library file u False := by
    unfold Run.Adds Engine.parseFragment
    simp only [ExceptT.run_mk]
    split
    · exact (or_false _).symm ▸ Iff.rfl
    · exact (or_false _).symm ▸ Iff.rfl
  refine (Run.adds_bind hparse fun t lib _ =>
    Run.adds_bind (Run.adds_page t _ lib file u) fun found lib₁ _ => Run.adds_of_eq rfl).congr ?_
  constructor
  · rintro (hfalse | ⟨t, lib, hrun, hfetches | ⟨_, _, -, hfalse⟩⟩)
    · exact hfalse.elim
    · exact .included (.fragment rfl hrun) hfetches
    · exact hfalse.elim
  · rintro (⟨hpage, -⟩ | ⟨hrenders, hfetches⟩)
    · exact nomatch hpage
    · cases hrenders with
      | page hstep _ => exact nomatch hstep
      | fragment hstep hrun =>
          cases hstep
          exact .inr ⟨_, _, hrun, .inl hfetches⟩
      | layout hstep => exact nomatch hstep

/-- An engine keeps after a step what it kept before, and the files that the step came to and that
were found. -/
theorem Step.get?_run_iff (step : Step) (engine : Engine) (file : String) (u : Template) :
    (step.run engine).2.library.templates.get? file = some u ↔
      engine.library.templates.get? file = some u ∨ Fetches engine step file u := by
  have hwrap : ∀ {step : Step} {data : Value}, step.hasLayouts = true → ∀ t found lib,
      Run.Adds (Run.wrap engine.options t data found) lib file u
        (step.hasLayouts = true ∧ Run.WrapsWithin engine.options engine.options.maxLayoutDepth
          (.ofPage t data found lib) file u) := by
    intro step data hlayouts t found lib
    rw [and_iff_right hlayouts]
    exact Run.adds_wrapFrom _ [t.file] (.ofPage t data found lib)
  -- The calls that render in layouts, those that do not, and the one that renders nothing.
  cases step with
  | render page data =>
      exact adds_of_page (.render page data) _ rfl fun t found lib => hwrap rfl t found.1 lib
  | renderTo out page data =>
      rw [run_renderTo]
      exact adds_of_page (.renderTo out page data) _ rfl fun t found lib => hwrap rfl t found.1 lib
  | renderFile page data =>
      refine adds_of_page (.renderFile page data) (fun _ found => pure found.1) rfl
        fun t found lib => (Run.adds_of_eq rfl).congr ?_
      simp [Step.hasLayouts]
  | renderFragment source data => exact adds_renderFragment source data
  | insert name source =>
      have hnone : ¬ Fetches engine (.insert name source) file u := by
        rintro (⟨hpage, -⟩ | ⟨hrenders, -⟩)
        · exact nomatch hpage
        · cases hrenders with
          | page hstep => exact nomatch hstep
          | fragment hstep => exact nomatch hstep
          | layout hstep => exact nomatch hstep
      rw [or_iff_left hnone]
      rfl

/-! ### First loads -/

variable {s : Session} {functions : FunctionTable} {options : Options} {source : String}

/-- The first call that finds a file does so where the loader has a source for it. From then on the
file is kept, whatever the loader has for it. -/
inductive FirstFetches : Session → List Step → String → String → Prop where
  | now {s : Session} {step : Step} {steps : List Step} {file source : String} {t : Template} :
      Fetches s.engine step file t → s.engine.library.loader.find file = .ok source →
      FirstFetches s (step :: steps) file source
  | later {s : Session} {step : Step} {steps : List Step} {file source : String} :
      (∀ t, ¬ Fetches s.engine step file t) → FirstFetches (s.next step) steps file source →
      FirstFetches s (step :: steps) file source

/-- A file has a source if its template is kept. -/
theorem Sound.isSome_source? (h : s.Sound functions options) (file : String) :
    (s.source? file).isSome = (s.engine.library.templates.get? file).isSome := by
  cases hk : s.engine.library.templates.get? file with
  | some t =>
      obtain ⟨source, hs, -⟩ := h.kept file t hk
      rw [hs]
      rfl
  | none =>
      rw [h.unkept file hk]
      rfl

/-- A file that has a source keeps it. -/
theorem source?_next_of_some (h : s.source? file = some source) (step : Step) :
    (s.next step).source? file = some source := by
  unfold next
  dsimp only
  rw [h, Option.some_or]

/-- A file that has no source gets the one that the loader has, if the step finds the file. -/
theorem Sound.source?_next_of_none (h : s.Sound functions options) (hnone : s.source? file = none)
    (step : Step) :
    (s.next step).source? file = some source ↔
      (∃ t, Fetches s.engine step file t) ∧ s.engine.library.loader.find file = .ok source := by
  have hold : s.engine.library.templates.get? file = none := by
    have hsome := h.isSome_source? file
    rw [hnone] at hsome
    exact Option.isNone_iff_eq_none.1 (by simpa using hsome.symm)
  have hkept : ((step.run s.engine).2.library.templates.get? file).isSome = true ↔
      ∃ t, Fetches s.engine step file t := by
    simp [Option.isSome_iff_exists, step.get?_run_iff, hold]
  unfold Session.next
  dsimp only
  rw [hnone, Option.none_or, ← hkept]
  cases s.engine.library.loader.find file <;> simp [Except.toOption]

/-- A file that has no source gets it by the first call or by one of those after it. Which of them
it is, is decided by whether the first call finds the file. -/
theorem Sound.firstFetches_cons_iff (h : s.Sound functions options) (hnone : s.source? file = none)
    (step : Step) (steps : List Step) :
    FirstFetches s (step :: steps) file source ↔
      (s.next step).source? file = some source ∨
        (s.next step).source? file = none ∧ FirstFetches (s.next step) steps file source := by
  by_cases hfetches : ∃ t, Fetches s.engine step file t
  · -- The file is found by this call, and has a source from now on.
    obtain ⟨t, ht⟩ := hfetches
    have hkept := (step.get?_run_iff s.engine file t).2 (.inr ht)
    have hsome : ((s.next step).source? file).isSome = true := by
      rw [(h.next step).isSome_source?]
      exact hkept ▸ rfl
    obtain ⟨source', hsource'⟩ := Option.isSome_iff_exists.1 hsome
    obtain ⟨-, hfind⟩ := (h.source?_next_of_none hnone step).1 hsource'
    rw [hsource']
    constructor
    · rintro (⟨-, hfind'⟩ | ⟨hnot, -⟩)
      · exact .inl (congrArg some (Except.ok.inj (hfind.symm.trans hfind')))
      · exact absurd ht (hnot t)
    · rintro (heq | ⟨hnone', -⟩)
      · exact .now ht (Option.some.inj heq ▸ hfind)
      · exact nomatch hnone'
  -- The file is not found by this call, and still has no source after it.
  · have hnext : (s.next step).source? file = none :=
      Option.eq_none_iff_forall_ne_some.2 fun source' hsource' =>
        hfetches ((h.source?_next_of_none hnone step).1 hsource').1
    rw [hnext]
    constructor
    · rintro (⟨ht, -⟩ | ⟨-, hfirst⟩)
      · exact absurd ⟨_, ht⟩ hfetches
      · exact .inr ⟨rfl, hfirst⟩
    · rintro (heq | ⟨-, hfirst⟩)
      · exact nomatch heq
      · exact .later (fun t ht => hfetches ⟨t, ht⟩) hfirst

/-- The sources after some steps are those before them, and those of the first loads. The induction
is on the steps: a file that has a source keeps it, and one that has none gets one in the first step
that loads it. -/
theorem Sound.source?_after_iff (h : s.Sound functions options) (steps : List Step) :
    (s.after steps).source? file = some source ↔
      s.source? file = some source ∨ s.source? file = none ∧ FirstFetches s steps file source := by
  induction steps generalizing s with
  | nil =>
      have hnot : ¬ FirstFetches s [] file source := fun hfirst => by cases hfirst
      rw [or_iff_left fun hfirst => hnot hfirst.2]
      rfl
  | cons step steps ih =>
      show ((s.next step).after steps).source? file = some source ↔ _
      rw [ih (h.next step)]
      cases hs : s.source? file with
      | some source' => simp [source?_next_of_some hs]
      | none => simp [h.firstFetches_cons_iff hs step steps]

/-- Whatever an engine was used for before, with whatever failures and new sources between, every
answer is that of an engine which has not been used, and has the sources that the files loaded so
far had when they were loaded first and the current ones of all other files.  Only files that were
loaded leave anything behind, and it is never replaced. -/
theorem answer_eq_renewed (loader : Loader) (functions : FunctionTable) (options : Options)
    (steps : List Step) (step : Step) :
    let s := (start loader functions options).after steps
    (step.run s.engine).1 = (step.run (s.renewed functions options)).1 ∧
      (∀ file, (s.source? file).isSome = (s.engine.library.templates.get? file).isSome) ∧
      (∀ file source, s.source? file = some source ↔
        FirstFetches (start loader functions options) steps file source) ∧
      ∀ file t, (s.next step).engine.library.templates.get? file = some t ↔
        s.engine.library.templates.get? file = some t ∨ Fetches s.engine step file t := by
  intro s
  have hstart := sound_start loader functions options
  have hsound : s.Sound functions options := hstart.after steps
  refine ⟨step.run_eq hsound.options hsound.alike, hsound.isSome_source?, fun file source => ?_,
    step.get?_run_iff s.engine⟩
  have hnone : (start loader functions options).source? file = none := rfl
  rw [hstart.source?_after_iff steps, hnone, or_iff_right (fun h => nomatch h), and_iff_right rfl]

end Session
end Stencil
