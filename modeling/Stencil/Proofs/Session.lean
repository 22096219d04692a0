import Stencil.Proofs.Render.Balance
import Stencil.Proofs.Render.Simulation
import Stencil.Session

/-!
# Sessions keep what their sources say

## Main definitions

* `Run.Sim` — work that does the same with libraries that are alike
* `Session` — an engine in use, with the sources of the files that were loaded
* `Session.Sound` — what the engine keeps is what those sources say

## Main results

* `Run.sim_wrap`, `Session.Step.run_eq` — work with libraries that are alike gives the same
* `Run.growing_wrap`, `Session.Step.gains_run` — work only adds templates to a library
* `Session.Sound.after` — soundness holds throughout a session
* `Session.Sound.alike` — the library of a sound session is like that of a new engine

## Design notes

A file counts as loaded once its template is kept: `Library.get?_of_load` says that a template which
was found is kept, `Library.load_of_error` that a failure leaves no trace.  That this is the loading
of files by calls, be it for pages, for layouts or for includes, is `Session.Step.get?_run_iff`.
-/

namespace Stencil

/-! ### Work with a library -/

namespace Run

variable {α β : Type} {w w' : World}

/-- Loading a file hands on the template or the fault, and the library that the loading leaves. -/
theorem run_load (file : String) (lib : Library) :
    (load file).run lib = (Render.lifted (lib.load file).1, (lib.load file).2) := by
  rw [load, Act.run_bind, Act.run_modifyGet]
  generalize lib.load file = found
  rcases found with ⟨_ | _, _⟩ <;> rfl

/-- The same at the depth that pages are rendered at. -/
theorem run_page (t : Template) (scope : Scope) (lib : Library) :
    (page t scope).run lib =
      ((((Render.page t).run (Context.new lib scope)).1.map
          (·, ((Render.page t).run (Context.new lib scope)).2.scope)),
        ((Render.page t).run (Context.new lib scope)).2.library) := rfl

/-! Related libraries -/

/-- Work that does the same with libraries that are alike. Results are related in a world after the
given one, since loading gives out regions. -/
abbrev Sim {α α' : Type} (w : World) (R : World → α → α' → Prop) (work : Run α) (work' : Run α') :
    Prop :=
  Act.Sim (fun w lib fresh => lib.Alike w.regions fresh) w R work work'

/-- Alike libraries load alike templates. -/
theorem sim_load (file : String) :
    Sim w (fun w => Template.TwinIn w.regions) (load file) (load file) := by
  intro w₁ _ lib fresh h
  obtain ⟨regions, hregions, hlib, hout⟩ := h.load file
  rw [run_load, run_load]
  exact ⟨w₁.withRegions regions, World.le_withRegions hregions, hlib, hout.mapError _⟩

/-- New contexts with alike libraries are alike: nothing has been rendered in either. -/
theorem alike_new {regions : Regions} {lib fresh : Library} (h : lib.Alike regions fresh)
    (scope : Scope) :
    (Context.new lib scope).Alike (.ofRegions regions) (.new fresh scope) where
  library := h
  scope := rfl
  chain := rfl
  tags := rfl
  seen := .nil
  slots := .nil
  out _ _ hnone := hnone.elim

/-- Twin templates are rendered alike, up to the regions of the nodes that were rendered once. -/
theorem sim_page {t t' : Template} (ht : Template.TwinIn w.regions t t') (scope : Scope) :
    Sim w Same (page t scope) (page t' scope) := by
  intro w₁ hw₁ lib fresh h
  -- Before a page there is no output.
  have hpage : Render.Sim (.ofRegions w₁.regions) Same (Render.page t) (Render.page t') :=
    Render.sim_page (ht.mono hw₁.1)
  obtain ⟨w₂, hw₂, hc, hout⟩ := hpage _ (le_refl _) _ _ (alike_new h scope)
  rw [run_page, run_page, hc.scope]
  refine ⟨w₁.withRegions w₂.regions, World.le_withRegions hw₂.1, hc.library, ?_⟩
  rw [hout.eq]
  exact .refl (fun _ => rfl) _

/-- Chains of layouts are rendered alike, with any number of layouts remaining. The world only grows
with the files that are loaded, and what was alike before stays so. -/
theorem sim_layouts (o : Options) (remaining : Nat) :
    ∀ w chain scope content name?, Sim w Same
      (layouts o remaining chain scope content name?)
      (layouts o remaining chain scope content name?) := by
  induction remaining with
  | zero =>
      intro w chain scope content name?
      cases name? with
      | none => exact Act.sim_pure fun _ _ => rfl
      | some name => exact Act.sim_throw _
  | succ remaining ih =>
      intro w chain scope content name?
      cases name? with
      | none => exact Act.sim_pure fun _ _ => rfl
      | some name =>
          refine Act.sim_bind (sim_load _) fun w₁ _ layout layout' ht => ?_
          refine Act.sim_bind_same (sim_page ht _) fun w₂ _ found => ?_
          have hname : layout.layout? = layout'.layout? := by
            rw [Template.layout?, ht.twin.frontMatter, Template.layout?]
          rw [ht.twin.frontMatter, hname]
          exact ih w₂ _ _ _ _

/-- Wrapping a page in its layouts does the same with alike libraries. The layouts are loaded on
both sides, so the libraries grow in step. -/
theorem sim_wrap (o : Options) {t t' : Template} (ht : t.Twin t') (data : Value)
    (content : String) :
    Sim w Same (wrap o t data content) (wrap o t' data content) := by
  have hname : t.layout? = t'.layout? := by
    rw [Template.layout?, ht.frontMatter, Template.layout?]
  unfold wrap
  rw [ht.file, ht.frontMatter, hname]
  exact sim_layouts o _ w _ _ _ _

/-! Libraries that grow -/

/-- Work only adds templates to a library. -/
def Growing (act : Run α) : Prop := ∀ lib : Library, lib.Grows (act.run lib).2

/-- Work that does nothing loses no template. -/
theorem growing_pure (a : α) : Growing (pure a : Run α) := fun lib => .refl lib

/-- Work in sequence loses none if neither part does. -/
theorem growing_bind {act : Run α} {next : α → Run β} (h : Growing act)
    (hn : ∀ a, Growing (next a)) : Growing (act >>= next) := by
  intro lib
  have hact := h lib
  rcases hrun : act.run lib with ⟨halt | a, lib'⟩
  · rw [Act.run_bind_of_error hrun]
    rw [hrun] at hact
    exact hact
  · rw [Act.run_bind_of_ok hrun]
    rw [hrun] at hact
    exact hact.trans (hn a lib')

/-- Loading a file keeps all templates and may add that of the file. -/
theorem growing_load (file : String) : Growing (load file) := by
  intro lib
  rw [run_load]
  exact lib.grows_load file

/-- Rendering a page only adds templates. -/
theorem growing_page (t : Template) (scope : Scope) : Growing (page t scope) := by
  intro lib
  rw [run_page]
  have hmarkup : ∀ roots, Render.Keeps (fun _ => False) (Render.markup roots) := fun roots =>
    Render.keeps_get_bind fun c => by
      split
      · exact Render.keeps_pure _
      · exact Render.keeps_throw _
  have hkeeps := Render.keeps_bind (Render.keeps_template (Render.keeps_nodes Render.depthLimit) t)
    hmarkup
  exact (hkeeps (Context.new lib scope)).library

/-- So does rendering a chain of layouts. -/
theorem growing_layouts (o : Options) (remaining : Nat) :
    ∀ chain scope content name?, Growing (layouts o remaining chain scope content name?) := by
  induction remaining with
  | zero =>
      intro chain scope content name?
      cases name? with
      | none => exact growing_pure content
      | some name => exact fun lib => .refl lib
  | succ remaining ih =>
      intro chain scope content name?
      cases name? with
      | none => exact growing_pure content
      | some name =>
          exact growing_bind (growing_load _) fun layout =>
            growing_bind (growing_page layout _) fun found => ih _ _ _ _

/-- So does wrapping a page. -/
theorem growing_wrap (o : Options) (t : Template) (data : Value) (content : String) :
    Growing (wrap o t data content) := growing_layouts o _ _ _ _ _

end Run

/-! ### Calls to an engine -/

namespace Engine

variable {α : Type} {w : World} {engine fresh : Engine}

/-- Related work gives the same with libraries that are alike. -/
theorem perform_eq {work work' : Run α} (hwork : Run.Sim w Same work work')
    (h : engine.library.Alike w.regions fresh.library) :
    (engine.perform work).1 = (fresh.perform work').1 := by
  obtain ⟨w', -, -, hout⟩ := hwork w (le_refl w) _ _ h
  exact hout.eq

/-- A fragment parsed with either library is the same up to the region it gets. It is not kept, so
later calls do not find it. -/
theorem sim_parseFragment (source : String) :
    Run.Sim w (fun w => Template.TwinIn w.regions) (parseFragment source)
      (parseFragment source) := by
  intro w₁ _ lib fresh h
  have htwin := Template.twin_parse (lib.regions + 1) (fresh.regions + 1) fragmentFile source
  unfold parseFragment Library.parse
  simp only [ExceptT.run_mk]
  cases ht : Template.parse (lib.regions + 1) fragmentFile source with
  | error e =>
      rw [ht] at htwin
      generalize Template.parse (fresh.regions + 1) fragmentFile source = parsed at htwin ⊢
      cases htwin
      exact ⟨w₁, le_refl w₁, h, .error _⟩
  | ok t =>
      rw [ht] at htwin
      cases ht' : Template.parse (fresh.regions + 1) fragmentFile source with
      | error e =>
          rw [ht'] at htwin
          cases htwin
      | ok t' =>
          rw [ht'] at htwin
          cases htwin with
          | ok htwin =>
              refine ⟨_, World.le_withRegions (List.subset_cons_self _ _), h.handOut,
                .ok ⟨htwin, ?_⟩⟩
              rw [Template.region_of_parse ht, Template.region_of_parse ht']
              exact List.mem_cons_self

/-- Parsing a fragment uses a region up and keeps all templates. -/
theorem growing_parseFragment (source : String) : Run.Growing (parseFragment source) := by
  intro lib
  unfold parseFragment
  simp only [ExceptT.run_mk]
  split
  · exact lib.grows_handOut
  · exact .refl lib

end Engine

namespace Session

/-- Rendering to a text appends to it on success, and on failure leaves it as it is. -/
theorem run_renderTo (engine : Engine) (out file : String) (data : Value) :
    Step.run engine (.renderTo out file data) =
      (match (engine.render file data).1 with
        | .ok text => .written (.ok ()) (out ++ text)
        | .error halt => .written (.error halt) out,
        (engine.render file data).2) := by
  unfold Step.run Engine.renderTo
  dsimp only
  rcases engine.render file data with ⟨_ | _, _⟩ <;> rfl

/-- Every call gives the same with libraries that are alike. Regions do not show in the text of a
page, nor in an error. -/
theorem Step.run_eq (step : Step) {regions : Regions} {engine fresh : Engine}
    (hoptions : engine.options = fresh.options) (h : engine.library.Alike regions fresh.library) :
    (step.run engine).1 = (step.run fresh).1 := by
  let w := World.ofRegions regions
  have hrender : ∀ file data, (engine.render file data).1 = (fresh.render file data).1 := by
    intro file data
    unfold Engine.render
    rw [hoptions]
    refine Engine.perform_eq (w := w) (Act.sim_bind (Run.sim_load file) fun w₁ _ t t' ht => ?_) h
    exact Act.sim_bind_same (Run.sim_page ht _) fun w₂ _ found => Run.sim_wrap _ ht.twin data _
  cases step with
  | render file data => exact congrArg Answer.text (hrender file data)
  | renderTo out file data => rw [run_renderTo, run_renderTo, hrender]
  | renderFile file data =>
      refine congrArg Answer.text (Engine.perform_eq (w := w)
        (Act.sim_bind (Run.sim_load file) fun w₁ _ t t' ht => ?_) h)
      exact Act.sim_bind_same (Run.sim_page ht _) fun w₂ _ found => Act.sim_pure fun _ _ => rfl
  | renderFragment source data =>
      refine congrArg Answer.text (Engine.perform_eq (w := w)
        (Act.sim_bind (Engine.sim_parseFragment source) fun w₁ _ t t' ht => ?_) h)
      exact Act.sim_bind_same (Run.sim_page ht _) fun w₂ _ found => Act.sim_pure fun _ _ => rfl
  | insert file source => rfl

/-- A step only adds templates, each that of the source of its file before the step. The options
stay as they are. -/
theorem Step.gains_run (step : Step) (engine : Engine) :
    (step.run engine).2.options = engine.options ∧
      engine.library.Gains (step.run engine).2.library := by
  have hrender : ∀ file data, engine.library.Grows (engine.render file data).2.library :=
    fun file data => Run.growing_bind (Run.growing_load file) (fun t =>
      Run.growing_bind (Run.growing_page t _) fun found => Run.growing_wrap _ t data _) _
  cases step with
  | render file data => exact ⟨rfl, (hrender file data).toGains⟩
  | renderTo out file data =>
      rw [run_renderTo]
      exact ⟨rfl, (hrender file data).toGains⟩
  | renderFile file data =>
      have hgrows := Run.growing_bind (Run.growing_load file) fun t =>
        Run.growing_bind (Run.growing_page t (Scope.ofData data)) fun found =>
          Run.growing_pure found.1
      exact ⟨rfl, (hgrows engine.library).toGains⟩
  | renderFragment source data =>
      have hgrows := Run.growing_bind (Engine.growing_parseFragment source) fun t =>
        Run.growing_bind (Run.growing_page t (Scope.ofData data)) fun found =>
          Run.growing_pure found.1
      exact ⟨rfl, (hgrows engine.library).toGains⟩
  | insert file source => exact ⟨rfl, Library.gains_of_eq rfl (Nat.le_refl _) rfl⟩

end Session

/-! ### Sessions -/

/-- An engine in use. The sources are those of the first loading of each file, which the engine
itself does not keep. -/
structure Session where
  engine : Engine
  /-- The source that a file had when it was loaded for the first time. -/
  source? : String → Option String

namespace Session

/-- The start of a session. -/
def start (loader : Loader) (functions : FunctionTable) (options : Options) : Session :=
  ⟨.new loader functions options, fun _ => none⟩

/-- A session after one more step. The files that the step has loaded had the sources that the
loader had before it. -/
def next (s : Session) (step : Step) : Session :=
  let engine := (step.run s.engine).2
  { engine
    source? := fun file => (s.source? file).or
      (if (engine.library.templates.get? file).isSome then
        (s.engine.library.loader.find file).toOption else none) }

/-- A session after some steps. -/
def after (s : Session) (steps : List Step) : Session := steps.foldl next s

/-- An engine that has not been used, with the sources that the files loaded so far had. -/
def renewed (s : Session) (functions : FunctionTable) (options : Options) : Engine :=
  .new (s.engine.library.loader.overlay s.source?) functions options

/-- What the engine keeps is what the sources of the files loaded so far say. Calls keep it, and it
is all that a call needs to know of those before. -/
structure Sound (functions : FunctionTable) (options : Options) (s : Session) : Prop where
  functions : s.engine.library.evaluator.functions = functions
  options : s.engine.options = options
  kept : ∀ file t, s.engine.library.templates.get? file = some t →
    ∃ source, s.source? file = some source ∧ Template.parse t.region file source = .ok t
  unkept : ∀ file, s.engine.library.templates.get? file = none → s.source? file = none

variable {functions : FunctionTable} {options : Options} {s : Session}

/-- An engine that has not been used keeps nothing, so all it keeps is right. -/
theorem sound_start (loader : Loader) (functions : FunctionTable) (options : Options) :
    (start loader functions options).Sound functions options where
  functions := rfl
  options := rfl
  kept file t h := absurd h (by simp [start, Engine.new, Library.new])
  unkept _ _ := rfl

/-- A step keeps a session sound. A source is recorded for a file just when its template is kept, be
it by a call that fails. -/
theorem Sound.next (h : s.Sound functions options) (step : Step) :
    (s.next step).Sound functions options := by
  obtain ⟨hoptions, hgains⟩ := step.gains_run s.engine
  constructor
  · exact hgains.functions.trans h.functions
  · exact hoptions.trans h.options
  · intro file t ht
    change ((step.run s.engine).2.library.templates.get? file) = some t at ht
    unfold Session.next
    dsimp only
    rw [ht, Option.isSome_some, if_pos rfl]
    -- A file that was kept is still kept with its source; one that is new was found by the step.
    cases hold : s.engine.library.templates.get? file with
    | some u =>
        obtain ⟨source, hs, hp⟩ := h.kept file u hold
        obtain rfl : u = t := Option.some.inj ((hgains.kept file u hold).symm.trans ht)
        exact ⟨source, by rw [hs, Option.some_or], hp⟩
    | none =>
        rcases hgains.fetched file t ht with hsome | ⟨source, hs, hp⟩
        · exact absurd (hold.symm.trans hsome) (by simp)
        · refine ⟨source, ?_, hp⟩
          rw [h.unkept file hold, Option.none_or, hs]
          rfl
  -- A file that is not kept now was not kept before, since nothing is dropped.
  · intro file hn
    change ((step.run s.engine).2.library.templates.get? file) = none at hn
    have hold : s.engine.library.templates.get? file = none := by
      cases hold : s.engine.library.templates.get? file with
      | none => rfl
      | some u => exact absurd (hn.symm.trans (hgains.kept file u hold)) (by simp)
    unfold Session.next
    dsimp only
    rw [h.unkept file hold, hn]
    rfl

/-- Sessions are sound throughout. The induction is on the steps, from an engine that keeps nothing.
-/
theorem Sound.after (h : s.Sound functions options) (steps : List Step) :
    (s.after steps).Sound functions options := by
  induction steps generalizing s with
  | nil => exact h
  | cons step steps ih => exact ih (h.next step)

/-- The library of a sound session is like that of an engine that has not been used. What it keeps
is what that one would parse, and for the other files both ask the same loader. -/
theorem Sound.alike (h : s.Sound functions options) :
    s.engine.library.Alike [] (s.renewed functions options).library where
  functions := h.functions
  matched := by
    intro p hp
    exact absurd hp (by simp)
  region_le := by
    intro p hp
    exact absurd hp (by simp)
  both file t' ht' := absurd ht' (by simp [renewed, Engine.new, Library.new])
  early file t ht _ := by
    obtain ⟨source, hs, hp⟩ := h.kept file t ht
    refine ⟨⟨source, ?_, hp⟩, fun p hp => absurd hp (by simp)⟩
    exact (Loader.find_overlay _ _ file).trans (by rw [hs])
  neither file hn _ := by
    refine .symm ((Loader.find_overlay _ _ file).trans ?_)
    rw [h.unkept file hn]

end Session
end Stencil
