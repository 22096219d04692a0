import Stencil.Proofs.Layout
import Stencil.Proofs.Render.Home

/-!
# Elements that render once

## Main definitions

* `Session.Rendering` — a template with the library and the variables that it is rendered with
* `Session.Renders` — the renderings of a call: that of its page and those of the layouts around it
* `Session.Rendering.OnceOnly` — in a rendering elements render once, and that is all

## Main results

* `Session.Renders.onceOnly` — so it is in every rendering of every call
* `Session.not_once_per_call` — but a page and its layout may both render what is known by one text

## Design notes

A layout is rendered in a context of its own, in which nothing was rendered yet; what is once is
once in the page, and once in each of the layouts.
-/

namespace Stencil.Session

open Markup Render

variable {engine : Engine} {step : Step}

/-! ### The renderings of a call -/

/-- A template with the library and the variables that it is rendered with. A call has several if
there are layouts, each with a context of its own. -/
structure Rendering where
  template : Template
  library : Library
  scope : Scope

namespace Rendering

/-- The first moment of a rendering. -/
def start (r : Rendering) : Moment :=
  ⟨.template depthLimit r.template, .new r.library r.scope⟩

/-- All that a rendering comes to, in order. -/
def moments (r : Rendering) : List Moment := Render.moments r.start

end Rendering

/-- The file of the page that a call renders, and its data. -/
def Step.page? : Step → Option (String × Value)
  | .render file data | .renderTo _ file data | .renderFile file data => some (file, data)
  | .renderFragment .. | .insert .. => none

/-- Whether a call puts its page into layouts. -/
def Step.hasLayouts : Step → Bool
  | .render .. | .renderTo .. => true
  | _ => false

/-- A call renders its page, and the layouts around it one after the other. All that a call renders
is found here, calls that fail included. -/
inductive Renders (engine : Engine) (step : Step) : Rendering → Prop where
  | page {file : String} {data : Value} {t : Template} {lib : Library} :
      step.page? = some (file, data) →
      (Run.load file).run engine.library = (.ok t, lib) →
      Renders engine step ⟨t, lib, .ofData data⟩
  | fragment {source : String} {data : Value} {t : Template} {lib : Library} :
      step = .renderFragment source data →
      (Engine.parseFragment source).run engine.library = (.ok t, lib) →
      Renders engine step ⟨t, lib, .ofData data⟩
  | layout {file content name : String} {data : Value} {t layout : Template}
      {lib lib₁ lib₂ : Library} {scope : Scope} {stages : List Run.Stage} {w : Run.Wrapping} :
      step.page? = some (file, data) → step.hasLayouts = true →
      (Run.load file).run engine.library = (.ok t, lib) →
      (Run.page t (.ofData data)).run lib = (.ok (content, scope), lib₁) →
      Run.Stages engine.options (.ofPage t data content lib₁) stages w →
      stages.length < engine.options.maxLayoutDepth → w.next? = some name →
      (Run.load (engine.options.layoutFile name)).run w.library = (.ok layout, lib₂) →
      Renders engine step ⟨layout, lib₂, w.given⟩

theorem hosts_of_run_load {file : String} {t : Template} {lib lib' : Library}
    (h : (Run.load file).run lib = (.ok t, lib')) : lib'.Hosts t := by
  rw [Run.run_load, Prod.mk.injEq] at h
  obtain ⟨hfound, rfl⟩ := h
  exact .inl (Library.get?_file_of_load (of_lifted_eq_ok hfound))

/-- The template of a fragment is not kept, and in a region of its own. -/
theorem hosts_of_run_parseFragment {source : String} {t : Template} {lib lib' : Library}
    (h : (Engine.parseFragment source).run lib = (.ok t, lib')) : lib'.Hosts t := by
  unfold Engine.parseFragment at h
  simp only [ExceptT.run_mk] at h
  split at h
  · rename_i t' hparse
    obtain ⟨ht, rfl⟩ := Prod.mk.inj h
    obtain rfl : t' = t := Except.ok.inj ht
    have hregion : t'.region = lib.regions + 1 := Template.region_of_parse hparse
    refine .inr ⟨hregion.le, fun file u hu heq => ?_⟩
    have hle := lib.kept.region_le file u hu
    omega
  · exact nomatch (Prod.mk.inj h).1

/-- Where a template is rendered, the library knows its nodes from all others. -/
theorem Renders.hosts {r : Rendering} (h : Renders engine step r) : r.library.Hosts r.template := by
  cases h with
  | page _ hload => exact hosts_of_run_load hload
  | fragment _ hparse => exact hosts_of_run_parseFragment hparse
  | layout _ _ _ _ _ _ _ hload => exact hosts_of_run_load hload

/-! ### Once in each rendering -/

/-- In a rendering elements render once, and that is all. -/
structure Rendering.OnceOnly (r : Rendering) : Prop where
  /-- No key was met before. -/
  fresh : r.start.context.seen = []
  /-- Of the elements known by a key one at most gets past its check. -/
  unique : ∀ key, (passing key r.moments).length ≤ 1
  /-- Those after the first one give no nodes and change nothing. -/
  suppressed : ∀ before after depth t id e c key,
    r.moments = before ++ ⟨.once depth t id e, c⟩ :: after → onceKey? id e = some key →
    (∃ m ∈ before, m.key? = some key) → (nodeOnce (nodes depth) t id e).run c = (.ok [], c)
  /-- The first one is evaluated. -/
  evaluated : ∀ before after depth t id e c key,
    r.moments = before ++ ⟨.once depth t id e, c⟩ :: after → onceKey? id e = some key →
    (∀ m ∈ before, m.key? ≠ some key) →
    (nodeOnce (nodes depth) t id e).run c =
      (evaluation depth t id e).run (c.withSeen (key :: c.seen))
  /-- Elements known by the same node are one and the same. -/
  identified : ∀ depth t id e c depth' t' id' e' c' node,
    ⟨.once depth t id e, c⟩ ∈ r.moments → ⟨.once depth' t' id' e', c'⟩ ∈ r.moments →
    onceKey? id e = some (.node node) → onceKey? id' e' = some (.node node) →
    t = t' ∧ id = id' ∧ e = e'
  /-- All files are met as the library keeps them. -/
  home : ∀ depth t id e c, ⟨.once depth t id e, c⟩ ∈ r.moments →
    t.element? id = some e ∧ r.start.finished.library.Home r.template t

/-- In every rendering of a call, of its page or of a layout around it, one at most of the
evaluations of elements that are known by the same key gets past the check, which is the first one.
All others give no nodes and leave the context as it is. -/
theorem Renders.onceOnly {r : Rendering} (h : Renders engine step r) : r.OnceOnly where
  fresh := rfl
  unique key := by
    have hthreaded := threaded_moments r.start
    rw [Rendering.moments, hthreaded.passing_eq List.not_mem_nil]
    cases (Render.moments r.start).find? _ <;> simp
  suppressed before after depth t id e c key hmoments hkey hmet := by
    have hthreaded := threaded_moments r.start
    rw [← Rendering.moments, hmoments] at hthreaded
    exact run_once_of_mem hkey (hthreaded.mem_seen_context.2 (.inr hmet))
  evaluated before after depth t id e c key hmoments hkey hnew := by
    have hthreaded := threaded_moments r.start
    rw [← Rendering.moments, hmoments] at hthreaded
    refine run_once_of_not_mem hkey fun hseen => ?_
    rcases hthreaded.mem_seen_context.1 hseen with hstart | ⟨m, hm, hmet⟩
    · exact nomatch hstart
    · exact hnew m hm hmet
  identified depth t id e c depth' t' id' e' c' node hm hm' hkey hkey' :=
    eq_of_node_key rfl h.hosts hm hm' rfl rfl hkey hkey'
  home depth t id e c hm := home_of_mem_moments rfl hm rfl

/-! ### Not once per call -/

/-- Whether the first root of a template is an element of a tag of which nothing is said but that it
is known by the text `k`. -/
def isKeyed (t : Template) (tag : String) : Bool :=
  match t.roots with
  | id :: _ => decide (Siblings.role t id = .plain) && (t.element? id).any fun e =>
      decide (e.tag = tag ∧ e.attributes = [("v-once-id", "k")])
  | [] => false

/-- A rendering renders the first root of its template, if that is known by the text. Nothing was
seen before it, so it gets past its check. -/
theorem exists_passing {r : Rendering} {tag : String} (h : isKeyed r.template tag = true) :
    ∃ depth id e c, e.tag = tag ∧
      ⟨.once depth r.template id e, c⟩ ∈ passing (.text "k") r.moments := by
  unfold isKeyed at h
  cases hroots : r.template.roots with
  | nil =>
      rw [hroots] at h
      exact nomatch h
  | cons id ids =>
      rw [hroots] at h
      obtain ⟨hrole, hroot⟩ := (Bool.and_eq_true _ _).mp h
      obtain ⟨⟨_, attributes, children, payload⟩, he, hroot⟩ := (Option.any_eq_true _ _).1 hroot
      obtain ⟨rfl, rfl⟩ := of_decide_eq_true hroot
      let c := ((Context.new r.library r.scope).inFile r.template.file).inFrame
        r.template.frontMatter
      have hpage : Reaches r.start.task r.start.context
          (.siblings depthLimit r.template r.template.roots) c := Reaches.start.step .template
      rw [hroots] at hpage
      have hnode := (hpage.step .siblings).step (.single (.inr (of_decide_eq_true hrole)))
      have honce := hnode.step (.once (Template.get?_of_element? he) rfl)
      exact ⟨9999, id, _, c, rfl, List.mem_filter.2 ⟨mem_moments_iff.2 honce, rfl⟩⟩

/-- An engine with a page and a layout that each render once what is known by the text `k`. -/
def keyedEngine : Engine :=
  .new (.memory [("page.vuego", "<b v-once-id=\"k\">1</b>"),
    ("layouts/base.vuego", "<i v-once-id=\"k\">2</i><div v-html=\"content\"></div>")]) [] {}

/-- The data that name the layout. -/
def keyedData : Value := .map [("layout", .str "base")]

/-- The page and its layout, which is loaded once the page is rendered. -/
def keyedWork : Run (Template × Template) := do
  let page ← Run.load "page.vuego"
  let _ ← Run.page page (.ofData keyedData)
  let layout ← Run.load "layouts/base.vuego"
  return (page, layout)

/-- The page can be rendered, and then its layout is found. Both are read off a single run, so that
the moments of both renderings are at hand. -/
theorem exists_keyed : ∃ page lib content after rendered layout lib',
    (Run.load "page.vuego").run keyedEngine.library = (.ok page, lib) ∧
    (Run.page page (.ofData keyedData)).run lib = (.ok (content, after), rendered) ∧
    (Run.load "layouts/base.vuego").run rendered = (.ok layout, lib') ∧
    isKeyed page "b" = true ∧ page.layout? = none ∧ isKeyed layout "i" = true := by
  have hcheck : ((keyedWork.run keyedEngine.library).1.toOption.any fun (page, layout) =>
      isKeyed page "b" && page.layout?.isNone && isKeyed layout "i") = true := by decide +kernel
  rcases hrun : keyedWork.run keyedEngine.library with ⟨halt | ⟨page, layout⟩, done⟩
  · rw [hrun] at hcheck
    exact nomatch hcheck
  · rw [hrun] at hcheck
    simp only [Except.toOption, Option.any_some, Bool.and_eq_true, Option.isNone_iff_eq_none]
      at hcheck
    obtain ⟨⟨hpage, hnone⟩, hlayout⟩ := hcheck
    obtain ⟨page', lib, hload, hrun⟩ := Act.exists_of_run_bind hrun
    obtain ⟨⟨content, after⟩, rendered, hrender, hrun⟩ := Act.exists_of_run_bind hrun
    obtain ⟨layout', lib', hload', hrun⟩ := Act.exists_of_run_bind hrun
    obtain ⟨hpair, -⟩ := Act.of_run_pure hrun
    obtain ⟨rfl, rfl⟩ := Prod.mk.inj hpair
    exact ⟨_, lib, content, after, rendered, _, lib', hload, hrender, hload', hpage, hnone, hlayout⟩

/-- An element of the page is rendered, as the only one known by its text. -/
theorem onceOnly_keyed : ∃ r, Renders keyedEngine (.render "page.vuego" keyedData) r ∧
    r.OnceOnly ∧ ∃ m, passing (.text "k") r.moments = [m] := by
  obtain ⟨page, lib, _, _, _, _, _, hload, -, -, hkeyed, -, -⟩ := exists_keyed
  have hrenders : Renders keyedEngine (.render "page.vuego" keyedData)
      ⟨page, lib, .ofData keyedData⟩ := .page rfl hload
  have honce := hrenders.onceOnly
  obtain ⟨_, _, _, _, -, hm⟩ := exists_passing (r := ⟨page, lib, .ofData keyedData⟩) hkeyed
  have hlength := Nat.le_antisymm (honce.unique (.text "k")) (List.length_pos_of_mem hm)
  exact ⟨_, hrenders, honce, List.length_eq_one_iff.1 hlength⟩

/-- In a call that renders a page in a layout, what is known by one text may be rendered twice: once
in the page and once in the layout. -/
theorem not_once_per_call :
    ¬ ∀ (engine : Engine) (step : Step) (key : OnceKey) (r r' : Rendering),
      Renders engine step r → Renders engine step r' →
      ∀ m ∈ passing key r.moments, ∀ m' ∈ passing key r'.moments, m = m' := by
  intro hall
  obtain ⟨page, lib, content, after, rendered, layout, lib', hload, hrender, hload', hkeyed, hnone,
    hkeyed'⟩ := exists_keyed
  let w := Run.Wrapping.ofPage page keyedData content rendered
  have hnext : w.next? = some "base" := congrArg (Option.or · _) hnone
  have hpage : Renders keyedEngine (.render "page.vuego" keyedData)
      ⟨page, lib, .ofData keyedData⟩ := .page rfl hload
  have hlayout : Renders keyedEngine (.render "page.vuego" keyedData) ⟨layout, lib', w.given⟩ :=
    .layout rfl rfl hload hrender .done (by decide) hnext hload'
  obtain ⟨depth, id, e, c, htag, hm⟩ := exists_passing (r := ⟨page, lib, .ofData keyedData⟩) hkeyed
  obtain ⟨depth', id', e', c', htag', hm'⟩ := exists_passing (r := ⟨layout, lib', w.given⟩) hkeyed'
  have heq := hall _ _ _ _ _ hpage hlayout _ hm _ hm'
  simp only [Moment.mk.injEq, Task.once.injEq] at heq
  obtain ⟨⟨-, -, -, rfl⟩, -⟩ := heq
  exact absurd (htag.symm.trans htag') (by decide)

end Stencil.Session
