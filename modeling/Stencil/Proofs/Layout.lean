import Stencil.Proofs.Render.Law
import Stencil.Proofs.Session

/-!
# Chains of layouts

## Main definitions

* `Run.Stage` — a layout that was rendered: its file, what its template saw, and its text;
  `Run.Stage.inner` — where its nodes are evaluated
* `Run.Stages` — layouts that are rendered one after the other, each named by the one before it
* `Run.Stops` — the next layout cannot be loaded or rendered

## Main results

* `Render.acyclic_pageWithin` — no page fails for the reason that its layouts are endless
* `Render.run_template` — the nodes of a template are evaluated with its settings, in its file
* `Run.run_wrapFrom` — wrapping content in layouts is rendering them one after the other
* `Run.run_wrap` — how many layouts a page is put into, what is the outcome, and what a name means
  in each of them

## Design notes

`Run.Stages` speaks of single layouts and knows neither of a limit nor of how scopes are handed on;
that the scope of a stage is the one it should be is the balance of contexts.
-/

namespace Stencil

/-! ### The fault of endless layouts -/

namespace Render

variable {α : Type} {c : Context}

theorem fault_inChain (e : RenderError) (chain : List String) :
    (e.inChain chain).fault = e.fault := by
  unfold RenderError.inChain
  split
  · rfl
  · rfl

/-- No failure is that of endless layouts. -/
def Law.acyclic : Law where
  Holds act _ c := ∀ e, (act.run c).1 = .error (.error e) → e.fault.Acyclic
  reads := by
    rintro α _ c ⟨f, hf, rfl⟩ e he
    rw [run_evaluate] at he
    cases hv : (f c.scope).value c.functions with
    | ok a =>
        rw [hv] at he
        exact nomatch he
    | error fault =>
        rw [hv] at he
        obtain rfl : RenderError.ofFault fault = e := Halt.error.inj (Except.error.inj he)
        exact hf c.scope c.functions fault hv
  seq := by
    intro α β act act' next next' c h hn e he
    rcases hrun : act.run c with ⟨halt | a, c₁⟩
    · rw [Act.run_bind_of_error hrun] at he
      obtain rfl : halt = .error e := Except.error.inj he
      exact h e (congrArg Prod.fst hrun)
    · rw [Act.run_bind_of_ok hrun] at he
      exact hn a c₁ hrun e he
  change := by
    rintro α view change c _ _ e ⟨⟩
  inside := fun _ _ h e he => h e he
  annotation := by
    intro α act act' c h e he
    rw [run_annotated] at he
    rcases hrun : act.run c with ⟨(e' | _) | a, c₁⟩
    · rw [hrun] at he
      obtain rfl : e'.inChain c₁.chain.reverse = e := Halt.error.inj (Except.error.inj he)
      rw [fault_inChain]
      exact h e' (by rw [hrun])
    · rw [hrun] at he
      exact nomatch he
    · rw [hrun] at he
      exact nomatch he

/-- However a page fails, it is not because layouts follow each other without end. A page knows
nothing of layouts, so this fault can only come from the wrapping around it. -/
theorem acyclic_pageWithin (depth : Nat) (t : Template) (c : Context) :
    ∀ e, ((pageWithin depth t).run c).1 = .error (.error e) → e.fault.Acyclic := by
  have htemplate : Law.acyclic.Along 0 (.template depth t) c := by
    refine Law.along_of_reaches (fun depth t id e c' _ => ?_) (fun _ _ _ _ _ _ e he => nomatch he)
      fun t ids c' _ e he => nomatch he
    obtain ⟨due, c₁, hrun⟩ := exists_run_isDue id e c'
    intro error herror
    rw [hrun] at herror
    exact nomatch herror
  exact Law.acyclic.seq htemplate fun roots _ _ => Law.holds_markup roots

/-- The text of a page is put together from its nodes without changing anything. -/
theorem context_pageWithin (depth : Nat) (t : Template) (c : Context) :
    ((pageWithin depth t).run c).2 = ((template (nodes depth) t).run c).2 := by
  unfold pageWithin
  rcases hrun : (template (nodes depth) t).run c with ⟨halt | roots, c₁⟩
  · rw [Act.run_bind_of_error hrun]
  · rw [Act.run_bind_of_ok hrun, markup, Act.run_get_bind]
    split
    · rfl
    · rfl

/-- A page leaves the scope that it was given. -/
theorem scope_pageWithin (depth : Nat) (t : Template) (c : Context) :
    ((pageWithin depth t).run c).2.scope = c.scope := by
  have hframe := scope_withFrame (keeps_nodes depth t t.roots) t.frontMatter (c.inFile t.file)
  rw [context_pageWithin, template, withFile, run_within, run_annotated]
  exact hframe

/-- The nodes of a template are evaluated with its settings over the variables it was given, in its
file; a failure names this file after those around it. -/
theorem run_template (depth : Nat) (t : Template) (c : Context) :
    ((template (nodes depth) t).run c).1 =
      ((nodes depth t t.roots).run ((c.inFile t.file).inFrame t.frontMatter)).1.mapError
        (·.inChain (c.chain.reverse ++ [t.file])) := by
  have hkeeps : Keeps (t.BoundBelow t.roots) (withFrame t.frontMatter (nodes depth t t.roots)) :=
    keeps_withFrame (keeps_nodes depth t t.roots) t.frontMatter
  have hchain := (hkeeps (c.inFile t.file)).chain
  have hannotated := run_annotated (withFrame t.frontMatter (nodes depth t t.roots))
    (c.inFile t.file)
  rw [hchain, Context.inFile, List.reverse_cons] at hannotated
  exact congrArg Prod.fst hannotated

end Render

/-! ### Layouts one after the other -/

namespace Run

/-- A layout that was rendered, with the variables that it was given and the text that it gave. The
stages of a page go from its own layout outwards. -/
structure Stage where
  file : String
  layout : Template
  /-- What the layout's template was given. -/
  scope : Scope
  html : String

/-- Where the nodes of a layout are evaluated: its settings are over the variables it was given. -/
def Stage.inner (stage : Stage) (lib : Library) : Context :=
  ((Context.new lib stage.scope).inFile stage.layout.file).inFrame stage.layout.frontMatter

/-- Where the wrapping of content stands. -/
structure Wrapping where
  library : Library
  /-- The settings of all that is within, over the data. -/
  scope : Scope
  content : String
  next? : Option String

/-- What the next layout is given: the content as a variable over all that is within. -/
def Wrapping.given (w : Wrapping) : Scope := w.scope.push [("content", .str w.content)]

variable {o : Options} {w w' : Wrapping} {stages : List Stage}

/-- Layouts that are loaded and rendered one after the other, the first one named by the content and
each other one by the settings of the one before it. -/
inductive Stages (o : Options) : Wrapping → List Stage → Wrapping → Prop where
  | done {w : Wrapping} : Stages o w [] w
  | stage {w w' : Wrapping} {name html : String} {layout : Template} {loaded rendered : Library}
      {after : Scope} {stages : List Stage} :
      w.next? = some name →
      (load (o.layoutFile name)).run w.library = (.ok layout, loaded) →
      (page layout w.given).run loaded = (.ok (html, after), rendered) →
      Stages o ⟨rendered, w.scope.push layout.frontMatter, html, layout.layout?⟩ stages w' →
      Stages o w (⟨o.layoutFile name, layout, w.given, html⟩ :: stages) w'

/-- A layout that cannot be loaded, or not be rendered, and where that leaves the library. -/
def Stops (o : Options) (w : Wrapping) (name : String) (halt : Halt) (library : Library) : Prop :=
  (load (o.layoutFile name)).run w.library = (.error halt, library) ∨
    ∃ layout loaded, (load (o.layoutFile name)).run w.library = (.ok layout, loaded) ∧
      (page layout w.given).run loaded = (.error halt, library)

/-- The work left to be done. -/
def wrapFrom (o : Options) (remaining : Nat) (files : List String) (w : Wrapping) : Run String :=
  layouts o remaining files w.scope w.content w.next?

theorem scope_of_run_page {t : Template} {scope after : Scope} {html : String}
    {lib lib' : Library} (h : (page t scope).run lib = (.ok (html, after), lib')) :
    after = scope := by
  rw [run_page, Prod.mk.injEq] at h
  have hscope : ((Render.page t).run (Context.new lib scope)).2.scope = scope :=
    Render.scope_pageWithin Render.depthLimit t (Context.new lib scope)
  rcases hrun : (Render.page t).run (Context.new lib scope) with ⟨halt | text, c⟩
  · rw [hrun] at h
    exact nomatch h.1
  · rw [hrun] at h hscope
    have hafter : (text, c.scope) = (html, after) := Except.ok.inj h.1
    exact (congrArg Prod.snd hafter).symm.trans hscope

/-- One stage of wrapping. -/
theorem run_wrapFrom_succ {remaining : Nat} {files : List String} {name html : String}
    {layout : Template} {loaded rendered : Library} {after : Scope} (hnext : w.next? = some name)
    (hload : (load (o.layoutFile name)).run w.library = (.ok layout, loaded))
    (hpage : (page layout w.given).run loaded = (.ok (html, after), rendered)) :
    (wrapFrom o (remaining + 1) files w).run w.library =
      (wrapFrom o remaining (files ++ [o.layoutFile name])
        ⟨rendered, w.scope.push layout.frontMatter, html, layout.layout?⟩).run rendered := by
  rw [wrapFrom, hnext, layouts, Act.run_bind_of_ok hload]
  have hscope := scope_of_run_page hpage
  rw [Wrapping.given] at hpage hscope
  rw [Act.run_bind_of_ok hpage, hscope]
  rfl

/-- Wrapping content in layouts is rendering them one after the other. The induction is on the
stages; the files only add up, for the fault of endless layouts to name them. -/
theorem run_wrapFrom (h : Stages o w stages w') (remaining : Nat) :
    ∀ files, (wrapFrom o (stages.length + remaining) files w).run w.library =
      (wrapFrom o remaining (files ++ stages.map (·.file)) w').run w'.library := by
  induction h with
  | done =>
      intro files
      rw [List.length_nil, Nat.zero_add, List.map_nil, List.append_nil]
  | stage hnext hload hpage _ ih =>
      intro files
      rw [List.length_cons, Nat.add_right_comm, run_wrapFrom_succ hnext hload hpage, ih,
        List.map_cons, List.append_assoc]
      rfl

/-- So many layouts can be rendered at most: then there is no further one, or it is one too many, or
it stops the work. -/
theorem exists_stages (o : Options) (limit : Nat) :
    ∀ w : Wrapping, ∃ stages w', Stages o w stages w' ∧ stages.length ≤ limit ∧
      (w'.next? = none ∨
        ∃ name, w'.next? = some name ∧ (stages.length = limit ∨
          stages.length < limit ∧ ∃ halt library, Stops o w' name halt library)) := by
  induction limit with
  | zero =>
      intro w
      refine ⟨[], w, .done, Nat.le_refl 0, ?_⟩
      cases hnext : w.next? with
      | none => exact .inl rfl
      | some name => exact .inr ⟨name, rfl, .inl rfl⟩
  | succ limit ih =>
      intro w
      cases hnext : w.next? with
      | none => exact ⟨[], w, .done, Nat.zero_le _, .inl hnext⟩
      | some name =>
          -- The next layout may stop the wrapping before it makes a stage.
          have hstops : ∀ halt library, Stops o w name halt library →
              ∃ stages w', Stages o w stages w' ∧ stages.length ≤ limit + 1 ∧
                (w'.next? = none ∨
                  ∃ name, w'.next? = some name ∧ (stages.length = limit + 1 ∨
                    stages.length < limit + 1 ∧ ∃ halt library, Stops o w' name halt library)) :=
            fun halt library h => ⟨[], w, .done, Nat.zero_le _,
              .inr ⟨name, hnext, .inr ⟨Nat.succ_pos limit, halt, library, h⟩⟩⟩
          rcases hload : (load (o.layoutFile name)).run w.library with ⟨halt | layout, loaded⟩
          · exact hstops halt loaded (.inl hload)
          · rcases hpage : (page layout w.given).run loaded with ⟨halt | ⟨html, after⟩, rendered⟩
            · exact hstops halt rendered (.inr ⟨layout, loaded, hload, hpage⟩)
            · obtain ⟨stages, w', hstages, hlength, hend⟩ :=
                ih ⟨rendered, w.scope.push layout.frontMatter, html, layout.layout?⟩
              refine ⟨_, w', .stage hnext hload hpage hstages, Nat.succ_le_succ hlength, ?_⟩
              simpa using hend

/-- Where the layout after the last one that may follow stands. -/
theorem run_wrapFrom_limit {files : List String} {name : String} (hnext : w.next? = some name) :
    (wrapFrom o 0 files w).run w.library =
      (.error (.error (.ofFault (.layoutDepth o.maxLayoutDepth (files ++ [o.layoutFile name])))),
        w.library) := by
  rw [wrapFrom, hnext]
  rfl

theorem run_wrapFrom_none {remaining : Nat} {files : List String} (hnext : w.next? = none) :
    (wrapFrom o remaining files w).run w.library = (.ok w.content, w.library) := by
  rw [wrapFrom, hnext]
  cases remaining <;> rfl

theorem run_wrapFrom_stops {remaining : Nat} {files : List String} {name : String} {halt : Halt}
    {library : Library} (hnext : w.next? = some name) (h : Stops o w name halt library) :
    (wrapFrom o (remaining + 1) files w).run w.library = (.error halt, library) := by
  rw [wrapFrom, hnext, layouts]
  rcases h with hload | ⟨layout, loaded, hload, hpage⟩
  · rw [Act.run_bind_of_error hload]
  · rw [Wrapping.given] at hpage
    rw [Act.run_bind_of_ok hload, Act.run_bind_of_error hpage]

/-- A layout that stops the work does not do so for being one too many: it could not be loaded, or
the rendering of it failed. -/
theorem Stops.acyclic {name : String} {e : RenderError} {library : Library}
    (h : Stops o w name (.error e) library) : e.fault.Acyclic := by
  rcases h with hload | ⟨layout, loaded, -, hpage⟩
  · rw [run_load, Prod.mk.injEq] at hload
    cases hl : (w.library.load (o.layoutFile name)).1 with
    | ok t =>
        rw [hl] at hload
        exact nomatch hload.1
    | error fault =>
        rw [hl] at hload
        obtain rfl : RenderError.ofFault fault = e := Halt.error.inj (Except.error.inj hload.1)
        have hio := Library.category_of_load hl
        exact fun hcycle => nomatch hio.symm.trans hcycle
  · rw [run_page, Prod.mk.injEq] at hpage
    have hacyclic : ∀ e, ((Render.page layout).run (Context.new loaded w.given)).1 =
        .error (.error e) → e.fault.Acyclic := Render.acyclic_pageWithin Render.depthLimit layout _
    rcases hrun : (Render.page layout).run (Context.new loaded w.given) with ⟨halt | text, c⟩
    · rw [hrun] at hpage hacyclic
      exact hacyclic e (congrArg Except.error (Except.error.inj hpage.1))
    · rw [hrun] at hpage
      exact nomatch hpage.1

/-! ### What a name means in a layout -/

theorem lookup?_push (scope : Scope) (frame : Frame) (name : String) :
    (scope.push frame).lookup? name = (Dict.get? frame name).or (scope.lookup? name) := by
  show ((frame :: scope.frames).findSome? _).or _ = _
  rw [List.findSome?_cons]
  cases Dict.get? frame name with
  | some v => rfl
  | none => rfl

theorem lookup?_ofData (data : Value) (name : String) :
    (Scope.ofData data).lookup? name = data.child? name := by
  cases data <;> simp [Scope.ofData, Scope.empty, Scope.lookup?, Scope.frames, Dict.get?_nil,
    Value.child?]

/-- The content is the text of the last layout, if there is one. -/
theorem Stages.content_eq (h : Stages o w stages w') :
    w'.content = (stages.getLast?.map (·.html)).getD w.content := by
  induction h with
  | done => rfl
  | @stage _ _ _ _ _ _ _ _ stages _ _ _ _ ih =>
      rw [ih]
      cases stages with
      | nil => rfl
      | cons next rest => rw [List.getLast?_cons_cons, List.getLast?_cons]; rfl

/-- The settings of later layouts hide those of earlier ones. -/
theorem Stages.lookup?_eq (h : Stages o w stages w') (name : String) :
    w'.scope.lookup? name =
      (stages.reverse.findSome? fun s => Dict.get? s.layout.frontMatter name).or
        (w.scope.lookup? name) := by
  induction h with
  | done => rfl
  | stage _ _ _ _ ih =>
      rw [ih, lookup?_push, List.reverse_cons, List.findSome?_append, Option.or_assoc,
        List.findSome?_singleton]

/-- What a layout is given is what wrapping in those before it leaves. -/
theorem Stages.exists_before {before after : List Stage} {stage : Stage}
    (h : Stages o w (before ++ stage :: after) w') :
    ∃ w₁, Stages o w before w₁ ∧ stage.scope = w₁.given := by
  induction before generalizing w with
  | nil =>
      cases h with
      | stage _ _ _ _ => exact ⟨w, .done, rfl⟩
  | cons first before ih =>
      cases h with
      | stage hnext hload hpage hrest =>
          obtain ⟨w₁, hbefore, hscope⟩ := ih hrest
          exact ⟨w₁, .stage hnext hload hpage hbefore, hscope⟩

/-- Where wrapping a rendered page starts: its settings name the first layout, or else the data. -/
def Wrapping.ofPage (t : Template) (data : Value) (content : String) (lib : Library) :
    Wrapping where
  library := lib
  scope := (Scope.ofData data).push t.frontMatter
  content := content
  next? := t.layout?.or (layoutName? (data.child? "layout"))

/-- What a name means in a layout of a page: its own settings, the content, the settings of the
layouts before it, the latest first, those of the page, the data. -/
def variableIn (t : Template) (data : Value) (content : String) (before : List Stage)
    (layout : Template) (name : String) : Option Value :=
  (Dict.get? layout.frontMatter name).or <|
    if name = "content" then some (.str ((before.getLast?.map (·.html)).getD content))
    else (before.reverse.findSome? fun s => Dict.get? s.layout.frontMatter name).or <|
      (Dict.get? t.frontMatter name).or (data.child? name)

theorem lookup?_of_stages {t : Template} {data : Value} {content : String} {lib : Library}
    {before after : List Stage} {stage : Stage}
    (h : Stages o (.ofPage t data content lib) (before ++ stage :: after) w) (name : String) :
    (stage.scope.push stage.layout.frontMatter).lookup? name =
      variableIn t data content before stage.layout name := by
  obtain ⟨w₁, hbefore, hscope⟩ := h.exists_before
  rw [lookup?_push, hscope, Wrapping.given, lookup?_push, hbefore.lookup?_eq, hbefore.content_eq,
    variableIn]
  by_cases hname : name = "content"
  · subst hname
    rw [if_pos rfl]
    rfl
  · have hne : ¬ "content" = name := fun e => hname e.symm
    rw [if_neg hname, Dict.get?_cons, if_neg hne, Dict.get?_nil, Option.none_or]
    show _ = _
    rw [Wrapping.ofPage, lookup?_push, lookup?_ofData]

/-! ### Wrapping a page -/

section Page

variable {t : Template} {data : Value} {content : String} {lib : Library}

/-- What is left to be done once some layouts of a page are rendered. -/
theorem run_wrap_of_stages (h : Stages o (.ofPage t data content lib) stages w) {remaining : Nat}
    (hlength : stages.length + remaining = o.maxLayoutDepth) :
    (wrap o t data content).run lib =
      (wrapFrom o remaining (t.file :: stages.map (·.file)) w).run w.library := by
  have hrun := run_wrapFrom h remaining [t.file]
  rw [hlength] at hrun
  exact hrun

/-- One layout too many is named. -/
theorem run_wrap_of_limit (h : Stages o (.ofPage t data content lib) stages w)
    (hlength : stages.length = o.maxLayoutDepth) {name : String} (hnext : w.next? = some name) :
    (wrap o t data content).run lib =
      (.error (.error (.ofFault (.layoutDepth o.maxLayoutDepth
        (t.file :: stages.map (·.file) ++ [o.layoutFile name])))), w.library) := by
  have hrun := run_wrap_of_stages h ((Nat.add_zero _).trans hlength)
  rw [hrun, run_wrapFrom_limit hnext]

/-- All layouts that are named are rendered. -/
theorem run_wrap_of_none (h : Stages o (.ofPage t data content lib) stages w)
    (hlength : stages.length ≤ o.maxLayoutDepth) (hnext : w.next? = none) :
    (wrap o t data content).run lib =
      (.ok ((stages.getLast?.map (·.html)).getD content), w.library) := by
  rw [run_wrap_of_stages h (Nat.add_sub_cancel' hlength), run_wrapFrom_none hnext, h.content_eq]
  rfl

/-- A layout stops the work. -/
theorem run_wrap_of_stops (h : Stages o (.ofPage t data content lib) stages w)
    (hlength : stages.length < o.maxLayoutDepth) {name : String} (hnext : w.next? = some name)
    {halt : Halt} {library : Library} (hstops : Stops o w name halt library) :
    (wrap o t data content).run lib = (.error halt, library) := by
  obtain ⟨remaining, hremaining⟩ := Nat.exists_eq_add_of_lt hlength
  have hlimit : stages.length + (remaining + 1) = o.maxLayoutDepth := hremaining.symm
  rw [run_wrap_of_stages h hlimit, run_wrapFrom_stops hnext hstops]

/-- The fault of endless layouts is that of one layout too many. -/
theorem exists_limit_of_run_wrap {limit : Nat} {files chain : List String}
    (h : ((wrap o t data content).run lib).1 =
      .error (.error ⟨.layoutDepth limit files, chain⟩)) :
    ∃ stages w, Stages o (.ofPage t data content lib) stages w ∧
      stages.length = o.maxLayoutDepth ∧ w.next? ≠ none := by
  obtain ⟨stages, w, hstages, hlength, hend⟩ :=
    exists_stages o o.maxLayoutDepth (.ofPage t data content lib)
  rcases hend with hnone | ⟨name, hname, hlimit | ⟨hless, halt, library, hstops⟩⟩
  · rw [run_wrap_of_none hstages hlength hnone] at h
    exact nomatch h
  · exact ⟨stages, w, hstages, hlimit, by rw [hname]; exact Option.some_ne_none name⟩
  · -- No layout fails in this way by itself.
    rw [run_wrap_of_stops hstages hless hname hstops] at h
    obtain rfl := Except.error.inj h
    exact absurd rfl hstops.acyclic

end Page

/-- A page is put into the layout that its settings name, or else the data, that into the layout
which its own settings name, and so on, until no further one is named, or until one cannot be loaded
or rendered, which is the outcome then.  If the limit is reached before, with a further layout
named, the outcome is the fault of endless layouts, with the files of the page and of one layout
more than the limit allows; and this is the only way to that fault.  The nodes of a layout are
evaluated where a name means what its own settings say, then the content, then what the settings of
the layouts and the page in it say, and the data last. -/
theorem run_wrap (o : Options) (t : Template) (data : Value) (content : String) (lib : Library) :
    (∃ stages w, Stages o (.ofPage t data content lib) stages w ∧
      stages.length ≤ o.maxLayoutDepth ∧
      (w.next? = none ∧ (wrap o t data content).run lib =
          (.ok ((stages.getLast?.map (·.html)).getD content), w.library) ∨
        ∃ name, w.next? = some name ∧
          (stages.length = o.maxLayoutDepth ∧ (wrap o t data content).run lib =
              (.error (.error (.ofFault (.layoutDepth o.maxLayoutDepth
                (t.file :: stages.map (·.file) ++ [o.layoutFile name])))), w.library) ∨
            stages.length < o.maxLayoutDepth ∧ ∃ halt library, Stops o w name halt library ∧
              (wrap o t data content).run lib = (.error halt, library)))) ∧
    ((∃ limit files chain, ((wrap o t data content).run lib).1 =
        .error (.error ⟨.layoutDepth limit files, chain⟩)) ↔
      ∃ stages w, Stages o (.ofPage t data content lib) stages w ∧
        stages.length = o.maxLayoutDepth ∧ w.next? ≠ none) ∧
    ∀ before stage after w, Stages o (.ofPage t data content lib) (before ++ stage :: after) w →
      ∀ depth lib',
        ((Render.template (Render.nodes depth) stage.layout).run (.new lib' stage.scope)).1 =
          ((Render.nodes depth stage.layout stage.layout.roots).run (stage.inner lib')).1.mapError
            (·.inChain [stage.layout.file]) ∧
        (∀ c, Render.Leads (.template depth stage.layout) (.new lib' stage.scope)
          (.siblings depth stage.layout stage.layout.roots) c ↔ c = stage.inner lib') ∧
        ∀ name, (stage.inner lib').scope.lookup? name =
          variableIn t data content before stage.layout name := by
  refine ⟨?_, ⟨?_, ?_⟩, ?_⟩
  -- The stages, and how they come to an end.
  · obtain ⟨stages, w, hstages, hlength, hend⟩ :=
      exists_stages o o.maxLayoutDepth (.ofPage t data content lib)
    refine ⟨stages, w, hstages, hlength, ?_⟩
    rcases hend with hnone | ⟨name, hname, hlimit | ⟨hless, halt, library, hstops⟩⟩
    · exact .inl ⟨hnone, run_wrap_of_none hstages hlength hnone⟩
    · exact .inr ⟨name, hname, .inl ⟨hlimit, run_wrap_of_limit hstages hlimit hname⟩⟩
    · exact .inr ⟨name, hname, .inr ⟨hless, halt, library, hstops,
        run_wrap_of_stops hstages hless hname hstops⟩⟩
  -- The fault of endless layouts, in both directions.
  · rintro ⟨limit, files, chain, hfault⟩
    exact exists_limit_of_run_wrap hfault
  · rintro ⟨stages, w, hstages, hlimit, hnext⟩
    obtain ⟨name, hname⟩ := Option.ne_none_iff_exists'.1 hnext
    exact ⟨_, _, [], by rw [run_wrap_of_limit hstages hlimit hname]; rfl⟩
  -- What a name means in a stage.
  · intro before stage after w hstages depth lib'
    refine ⟨Render.run_template depth stage.layout _, fun c => ⟨fun hleads => ?_, ?_⟩,
      fun name => ?_⟩
    · cases hleads with
      | template => rfl
    · rintro rfl
      exact .template
    · exact lookup?_of_stages hstages name

/-! A page in two layouts. -/

/-- A page, the layout that its settings name, and the one that this layout names. -/
def nestedFiles : Dict String :=
  [("page", "---\nlayout: inner\ntitle: page\n---\n<p>text</p>"),
    ("layouts/inner.vuego",
      "---\nlayout: outer\ntitle: inner\n---\n<main v-html=\"content\"></main>"),
    ("layouts/outer.vuego", "<h1 v-text=\"title\"></h1><div v-html=\"content\"></div>")]

/-- The page and its two layouts, with the text of the outer one. -/
def nestedWork : Run (Template × Template × Template × String) := do
  let t ← load "page"
  let (content, _) ← page t (.ofData (.map []))
  let scope := (Scope.ofData (.map [])).push t.frontMatter
  let inner ← load "layouts/inner.vuego"
  let (html, _) ← page inner (scope.push [("content", .str content)])
  let outer ← load "layouts/outer.vuego"
  let (html, _) ← page outer ((scope.push inner.frontMatter).push [("content", .str html)])
  return (t, inner, outer, html)

/-- The text of the page is put into two layouts. The outer one has no title of its own; it shows
that of the inner one, which hides that of the page. -/
theorem run_wrap_nested : ∃ t content lib inner outer w,
    Stages {} (.ofPage t (.map []) content lib) [inner, outer] w ∧
    inner.file = "layouts/inner.vuego" ∧ outer.file = "layouts/outer.vuego" ∧
    (wrap {} t (.map []) content).run lib =
      (.ok "<h1>inner</h1>\n<div><main><p>text</p>\n</main>\n</div>\n", w.library) ∧
    (Dict.get? t.frontMatter "title").isSome = true ∧
    ∀ lib', (outer.inner lib').scope.lookup? "title" =
      Dict.get? inner.layout.frontMatter "title" := by
  -- The rendering is computed once; everything below reads its parts off.
  have hcheck : ((nestedWork.run (.new (.memory nestedFiles) [])).1.toOption.any
      fun (t, inner, outer, html) => decide (t.layout? = some "inner" ∧
        inner.layout? = some "outer" ∧ outer.layout? = none ∧
        html = "<h1>inner</h1>\n<div><main><p>text</p>\n</main>\n</div>\n" ∧
        (Dict.get? t.frontMatter "title").isSome = true ∧
        (Dict.get? inner.frontMatter "title").isSome = true ∧
        (Dict.get? outer.frontMatter "title").isNone = true)) = true := by decide +kernel
  rcases hrun : nestedWork.run (.new (.memory nestedFiles) []) with
    ⟨halt | ⟨t, inner, outer, html⟩, lib⟩
  · rw [hrun] at hcheck
    exact nomatch hcheck
  · rw [hrun] at hcheck
    obtain ⟨ht, hinner, houter, rfl, htitle, htitle₁, htitle₂⟩ := of_decide_eq_true hcheck
    obtain ⟨t', lib₀, -, hrun⟩ := Act.exists_of_run_bind hrun
    obtain ⟨⟨content, scope⟩, lib₁, -, hrun⟩ := Act.exists_of_run_bind hrun
    obtain ⟨inner', lib₂, hload, hrun⟩ := Act.exists_of_run_bind hrun
    obtain ⟨⟨html, scope₁⟩, lib₃, hpage, hrun⟩ := Act.exists_of_run_bind hrun
    obtain ⟨outer', lib₄, hload', hrun⟩ := Act.exists_of_run_bind hrun
    obtain ⟨⟨html', scope₂⟩, lib₅, hpage', hrun⟩ := Act.exists_of_run_bind hrun
    obtain ⟨hpair, rfl⟩ := Act.of_run_pure hrun
    simp only [Prod.mk.injEq] at hpair
    obtain ⟨rfl, rfl, rfl, rfl⟩ := hpair
    have hname : (Wrapping.ofPage t' (.map []) content lib₁).next? = some "inner" := by
      rw [Wrapping.ofPage, ht, Option.some_or]
    -- What was computed are two stages, and no further layout is named.
    have hstages := Stages.stage (o := {}) hname hload hpage (.stage hinner hload' hpage' .done)
    obtain ⟨-, -, hnames⟩ := run_wrap {} t' (.map []) content lib₁
    refine ⟨t', content, lib₁, _, _, _, hstages, rfl, rfl, ?_, htitle, fun lib' => ?_⟩
    · have htwo : 2 ≤ ({} : Options).maxLayoutDepth := by decide
      exact run_wrap_of_none hstages htwo houter
    -- The outer layout has no title, so the name means that of the inner one.
    · obtain ⟨-, -, hlookup⟩ := hnames [_] _ [] _ hstages 0 lib'
      obtain ⟨title, hown⟩ := Option.isSome_iff_exists.1 htitle₁
      rw [hlookup, variableIn, Option.isNone_iff_eq_none.1 htitle₂, Option.none_or,
        if_neg (by decide)]
      simp [hown]

end Run
end Stencil
