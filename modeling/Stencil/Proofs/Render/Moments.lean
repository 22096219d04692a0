import Stencil.Proofs.Render.Law

/-!
# The moments of a render

All that a render comes to, in the order in which it does.

## Main definitions

* `Render.Moment` — a piece with the context in which a render comes to it
* `Render.Task.parts` — what the evaluation of a piece comes to next, in order
* `Render.moments` — what it ever comes to, in order
* `Render.Moment.descend?` — the moment some steps further, at the first part each time

## Main results

* `Render.mem_parts_iff`, `Render.mem_moments_iff` — these are what a render leads to and reaches

## Design notes

`Render.Reaches` says what a render comes to, and not when.  The parts of a piece follow its
definition line by line, with `following` for each act after which the evaluation goes on.
-/

namespace Stencil

open Markup

namespace Render

/-- A piece with the context in which a render comes to it. What a render does with an element
depends on both, as a slot or a check may go either way. -/
structure Moment where
  task : Task
  context : Context

/-- What comes after an act, if that ends well. -/
def following {α : Type} (act : Render α) (c : Context) (next : α → Context → List Moment) :
    List Moment :=
  match act.run c with
  | (.ok a, c₁) => next a c₁
  | (.error _, _) => []

/-- What siblings come to, the first of which is not included in a group before it. -/
def groupParts (depth : Nat) (t : Template) (bound : Nat) (id : NodeId) (ids : List NodeId)
    (c : Context) : List Moment :=
  match Siblings.role t id with
  | .condition =>
    let members := id :: (Siblings.chainRest t ids).1
    ⟨.chain depth t members, c⟩ ::
      following (chain (node (nodes depth) t) t members) c fun _ c₁ =>
        [⟨.groups depth t bound (Siblings.chainRest t ids).2, c₁⟩]
  | .orphan => [⟨.groups depth t bound ids, c⟩]
  | .loop =>
    ⟨.node depth t id, c⟩ ::
      following (node (nodes depth) t id) c fun here c₁ =>
        match here, Siblings.elseAfter? t ids with
        | [], some (other, after) =>
          ⟨.node depth t other, c₁⟩ ::
            following (node (nodes depth) t other) c₁ fun _ c₂ =>
              [⟨.groups depth t bound after, c₂⟩]
        | _, _ => [⟨.groups depth t bound ids, c₁⟩]
  | .plain =>
    ⟨.node depth t id, c⟩ ::
      following (node (nodes depth) t id) c fun _ c₁ => [⟨.groups depth t bound ids, c₁⟩]

/-- What a node comes to. -/
def nodeParts (depth : Nat) (t : Template) (id : NodeId) (c : Context) : List Moment :=
  match t.arena.get? id with
  | some (.element e) =>
    match e.get? "v-for" with
    | none => [⟨.once depth t id e, c⟩]
    | some source =>
      match LoopClause.parse? source with
      | none => []
      | some clause =>
        following (collection? clause.collection) c fun value? c₁ =>
          [⟨.entries depth t id e clause ((value?.map loopEntries).getD []), c₁⟩]
  | _ => []

/-- What an include comes to where it collects content. -/
def collectedParts (depth : Nat) (t : Template) (e : Element) (c : Context) : List Moment :=
  if (unnamedChildren t e).isEmpty then [] else [⟨.siblings depth t (unnamedChildren t e), c⟩]

/-- What an include comes to. -/
def includeParts (depth : Nat) (t : Template) (e : Element) (c : Context) : List Moment :=
  following (interpolated ((e.get? "include").getD "")) c fun file c₁ =>
    following (arguments [] e.attributes) c₁ fun args c₂ =>
      collectedParts depth t e c₂ ++
        following (includedSlots (nodes depth) t e) c₂ fun slots c₃ =>
          following (load file) c₃ fun component c₄ =>
            [⟨.siblings depth component component.roots,
              ((c₄.inFile component.file).inSlots slots).inFrame
                (Dict.overlay args component.frontMatter)⟩]

/-- What a slot comes to. -/
def slotParts (depth : Nat) (t : Template) (e : Element) (c : Context) : List Moment :=
  following (passed? ((e.get? "name").getD defaultSlot)) c fun found c₁ =>
    match found with
    | none => [⟨.siblings depth t e.children, c₁⟩]
    | some (_, .nodes _) => []
    | some (_, .scoped definer id binding) =>
      following (properties [] e.attributes) c₁ fun frame c₂ =>
        match definer.element? id with
        | some content =>
          [⟨.siblings depth definer content.children, c₂.outside.inFrame (binding.frame frame)⟩]
        | none => []

/-- What the evaluation of a piece comes to next, in order. -/
def Task.parts : Task → Context → List Moment
  | .template depth t, c => [⟨.siblings depth t t.roots, (c.inFile t.file).inFrame t.frontMatter⟩]
  | .siblings 0 _ _, _ => []
  | .siblings (depth + 1) t ids, c => [⟨.groups depth t ids.length ids, c⟩]
  | .groups _ _ 0 _, _ => []
  | .groups _ _ (_ + 1) [], _ => []
  | .groups depth t (bound + 1) (id :: ids), c => groupParts depth t bound id ids c
  | .chain _ _ [], _ => []
  | .chain depth t (id :: ids), c =>
    following (holds t id) c fun found c₁ =>
      [⟨if found then .node depth t id else .chain depth t ids, c₁⟩]
  | .node depth t id, c => nodeParts depth t id c
  | .entries _ _ _ _ _ [], _ => []
  | .entries depth t id e clause (member :: members), c =>
    let frame := clause.frame member.1 member.2
    ⟨.once depth t id e, c.inFrame frame⟩ ::
      following (withFrame frame (nodeOnce (nodes depth) t id e)) c fun _ c₁ =>
        [⟨.entries depth t id e clause members, c₁⟩]
  | .once depth t id e, c =>
    following (isDue id e) c fun due c₁ =>
      if due then ((construct? depth t e).map (⟨·, c₁⟩)).toList else []
  | .include depth t e, c => includeParts depth t e c
  | .wrapper depth t e, c =>
    following (require (requiredNames e)) c fun _ c₁ =>
      following (setBindings e.attributes) c₁ fun _ c₂ =>
        following (directive? e "v-html") c₂ fun html? c₃ =>
          if html?.isNone then [⟨.siblings depth t e.children, c₃⟩] else []
  | .slot depth t e, c => slotParts depth t e c
  | .element depth t e, c =>
    following (payload? e) c fun payload c₁ =>
      following (attributesOf e) c₁ fun _ c₂ =>
        if payload.isNone then [⟨.siblings depth t e.children, c₂.inTag e.tag⟩] else []

section Parts

variable {α : Type} {task task' : Task} {c c' : Context} {m : Moment}

theorem following_of_ok {act : Render α} {a : α} (h : act.run c = (.ok a, c'))
    (next : α → Context → List Moment) : following act c next = next a c' := by
  rw [following, h]

theorem following_of_error {act : Render α} {halt : Halt} (h : act.run c = (.error halt, c'))
    (next : α → Context → List Moment) : following act c next = [] := by
  rw [following, h]

/-- What comes after an act comes after it has ended well. -/
theorem exists_of_mem_following {act : Render α} {next : α → Context → List Moment}
    (h : m ∈ following act c next) : ∃ a c₁, act.run c = (.ok a, c₁) ∧ m ∈ next a c₁ := by
  rcases hrun : act.run c with ⟨halt | a, c₁⟩
  · rw [following_of_error hrun] at h
    exact nomatch h
  · rw [following_of_ok hrun] at h
    exact ⟨a, c₁, rfl, h⟩

/-- What a piece leads to is among its parts. The parts are computed by running what comes before
them, so they are the same contexts. -/
theorem Leads.mem_parts (h : Leads task c task' c') : ⟨task', c'⟩ ∈ task.parts c := by
  cases h with
  | template => simp [Task.parts]
  | siblings => simp [Task.parts]
  | condition hrole => simp [Task.parts, groupParts, hrole]
  | afterChain hrole hrun => simp [Task.parts, groupParts, hrole, following_of_ok hrun]
  | orphan hrole => simp [Task.parts, groupParts, hrole]
  | single hrole => rcases hrole with hrole | hrole <;> simp [Task.parts, groupParts, hrole]
  | alternative hrole hrun helse =>
      simp [Task.parts, groupParts, hrole, following_of_ok hrun, helse]
  | afterAlternative hrole hrun helse hrun' =>
      simp [Task.parts, groupParts, hrole, following_of_ok hrun, helse, following_of_ok hrun']
  | @afterSingle _ _ _ _ _ here _ _ hrole hrun =>
      rcases hrole with hrole | ⟨hrole, hne | helse⟩
      · simp [Task.parts, groupParts, hrole, following_of_ok hrun]
      · cases here with
        | nil => exact absurd rfl hne
        | cons first others => simp [Task.parts, groupParts, hrole, following_of_ok hrun]
      · simp [Task.parts, groupParts, hrole, following_of_ok hrun, helse]
  | holds hrun => simp [Task.parts, following_of_ok hrun]
  | fails hrun => simp [Task.parts, following_of_ok hrun]
  | loop hget hfor hclause hrun =>
      simp [Task.parts, nodeParts, hget, hfor, hclause, following_of_ok hrun]
  | entry => simp [Task.parts]
  | afterEntry hrun => simp [Task.parts, following_of_ok hrun]
  | once hget hfor => simp [Task.parts, nodeParts, hget, hfor]
  | due hrun hconstruct => simp [Task.parts, following_of_ok hrun, hconstruct]
  | passing hfile hargs hne =>
      simp [Task.parts, includeParts, collectedParts, following_of_ok hfile, following_of_ok hargs,
        hne]
  | included hfile hargs hslots hload =>
      simp [Task.parts, includeParts, following_of_ok hfile, following_of_ok hargs,
        following_of_ok hslots, following_of_ok hload]
  | wrapper hrequire hset hhtml =>
      simp [Task.parts, following_of_ok hrequire, following_of_ok hset, following_of_ok hhtml]
  | fallback hpassed => simp [Task.parts, slotParts, following_of_ok hpassed]
  | content hpassed hprops hcontent =>
      simp [Task.parts, slotParts, following_of_ok hpassed, following_of_ok hprops, hcontent]
  | children hpayload hattributes =>
      simp [Task.parts, following_of_ok hpayload, following_of_ok hattributes]

section Rules

variable {depth bound : Nat} {t : Template} {id : NodeId} {ids : List NodeId} {e : Element}

theorem leads_of_mem_groupParts (h : m ∈ groupParts depth t bound id ids c) :
    Leads (.groups depth t (bound + 1) (id :: ids)) c m.task m.context := by
  unfold groupParts at h
  cases hrole : Siblings.role t id with
  | condition =>
      simp only [hrole] at h
      rcases List.mem_cons.1 h with rfl | h
      · exact .condition hrole
      · obtain ⟨here, c₁, hrun, h⟩ := exists_of_mem_following h
        obtain rfl := List.mem_singleton.1 h
        exact .afterChain hrole hrun
  | orphan =>
      simp only [hrole] at h
      obtain rfl := List.mem_singleton.1 h
      exact .orphan hrole
  | loop =>
      simp only [hrole] at h
      rcases List.mem_cons.1 h with rfl | h
      · exact .single (.inl hrole)
      obtain ⟨here, c₁, hrun, h⟩ := exists_of_mem_following h
      cases helse : Siblings.elseAfter? t ids with
      | none =>
          rw [helse] at h
          have h : m = ⟨.groups depth t bound ids, c₁⟩ := by cases here <;> simpa using h
          subst h
          exact .afterSingle (.inr ⟨hrole, .inr helse⟩) hrun
      | some found =>
          rw [helse] at h
          cases here with
          | nil =>
              rcases List.mem_cons.1 h with rfl | h
              · exact .alternative hrole hrun helse
              · obtain ⟨here, c₂, hrun', h⟩ := exists_of_mem_following h
                obtain rfl := List.mem_singleton.1 h
                exact .afterAlternative hrole hrun helse hrun'
          | cons first others =>
              obtain rfl := List.mem_singleton.1 h
              exact .afterSingle (.inr ⟨hrole, .inl (List.cons_ne_nil first others)⟩) hrun
  | plain =>
      simp only [hrole] at h
      rcases List.mem_cons.1 h with rfl | h
      · exact .single (.inr hrole)
      · obtain ⟨here, c₁, hrun, h⟩ := exists_of_mem_following h
        obtain rfl := List.mem_singleton.1 h
        exact .afterSingle (.inl hrole) hrun

theorem leads_of_mem_nodeParts (h : m ∈ nodeParts depth t id c) :
    Leads (.node depth t id) c m.task m.context := by
  unfold nodeParts at h
  cases hget : t.arena.get? id with
  | none =>
      rw [hget] at h
      exact nomatch h
  | some found =>
      rw [hget] at h
      cases found with
      | text s => exact nomatch h
      | raw s => exact nomatch h
      | element e =>
          cases hfor : e.get? "v-for" with
          | none =>
              simp only [hfor] at h
              obtain rfl := List.mem_singleton.1 h
              exact .once hget hfor
          | some source =>
              cases hclause : LoopClause.parse? source with
              | none =>
                  simp only [hfor, hclause] at h
                  exact nomatch h
              | some clause =>
                  simp only [hfor, hclause] at h
                  obtain ⟨value?, c₁, hrun, h⟩ := exists_of_mem_following h
                  obtain rfl := List.mem_singleton.1 h
                  exact .loop hget hfor hclause hrun

theorem leads_of_mem_includeParts (h : m ∈ includeParts depth t e c) :
    Leads (.include depth t e) c m.task m.context := by
  obtain ⟨file, c₁, hfile, h⟩ := exists_of_mem_following h
  obtain ⟨args, c₂, hargs, h⟩ := exists_of_mem_following h
  rcases List.mem_append.1 h with h | h
  · unfold collectedParts at h
    split at h
    · exact nomatch h
    · rename_i hne
      obtain rfl := List.mem_singleton.1 h
      exact .passing hfile hargs fun hnil => hne (List.isEmpty_iff.2 hnil)
  · obtain ⟨slots, c₃, hslots, h⟩ := exists_of_mem_following h
    obtain ⟨component, c₄, hload, h⟩ := exists_of_mem_following h
    obtain rfl := List.mem_singleton.1 h
    exact .included hfile hargs hslots hload

theorem leads_of_mem_slotParts (h : m ∈ slotParts depth t e c) :
    Leads (.slot depth t e) c m.task m.context := by
  obtain ⟨found, c₁, hpassed, h⟩ := exists_of_mem_following h
  rcases found with _ | ⟨own, ids | ⟨definer, id, binding⟩⟩
  · obtain rfl := List.mem_singleton.1 h
    exact .fallback hpassed
  · exact nomatch h
  · obtain ⟨frame, c₂, hprops, h⟩ := exists_of_mem_following h
    cases hcontent : definer.element? id with
    | none =>
        simp only [hcontent] at h
        exact nomatch h
    | some content =>
        simp only [hcontent] at h
        obtain rfl := List.mem_singleton.1 h
        exact .content hpassed hprops hcontent

end Rules

/-- The parts of a piece are what it leads to. With the converse, a relation is told by a list,
which can be searched and evaluated. -/
theorem leads_of_mem_parts (h : m ∈ task.parts c) : Leads task c m.task m.context := by
  cases task with
  | template depth t =>
      obtain rfl := List.mem_singleton.1 h
      exact .template
  | siblings depth t ids =>
      cases depth with
      | zero => exact nomatch h
      | succ depth =>
          obtain rfl := List.mem_singleton.1 h
          exact .siblings
  | groups depth t bound ids =>
      cases bound with
      | zero => exact nomatch h
      | succ bound =>
          cases ids with
          | nil => exact nomatch h
          | cons id ids => exact leads_of_mem_groupParts h
  | chain depth t ids =>
      cases ids with
      | nil => exact nomatch h
      | cons id ids =>
          obtain ⟨found, c₁, hrun, h⟩ := exists_of_mem_following h
          obtain rfl := List.mem_singleton.1 h
          cases found with
          | true => exact .holds hrun
          | false => exact .fails hrun
  | node depth t id => exact leads_of_mem_nodeParts h
  | entries depth t id e clause members =>
      cases members with
      | nil => exact nomatch h
      | cons member members =>
          rcases List.mem_cons.1 h with rfl | h
          · exact .entry
          · obtain ⟨here, c₁, hrun, h⟩ := exists_of_mem_following h
            obtain rfl := List.mem_singleton.1 h
            exact .afterEntry hrun
  | once depth t id e =>
      obtain ⟨due, c₁, hrun, h⟩ := exists_of_mem_following h
      cases due with
      | false => exact nomatch h
      | true =>
          obtain ⟨task', hconstruct, rfl⟩ := Option.map_eq_some_iff.1 (Option.mem_toList.1 h)
          exact .due hrun hconstruct
  | «include» depth t e => exact leads_of_mem_includeParts h
  | wrapper depth t e =>
      obtain ⟨_, c₁, hrequire, h⟩ := exists_of_mem_following h
      obtain ⟨_, c₂, hset, h⟩ := exists_of_mem_following h
      obtain ⟨html?, c₃, hhtml, h⟩ := exists_of_mem_following h
      cases html? with
      | some html => exact nomatch h
      | none =>
          obtain rfl := List.mem_singleton.1 h
          exact .wrapper hrequire hset hhtml
  | slot depth t e => exact leads_of_mem_slotParts h
  | element depth t e =>
      obtain ⟨payload, c₁, hpayload, h⟩ := exists_of_mem_following h
      obtain ⟨attributes, c₂, hattributes, h⟩ := exists_of_mem_following h
      cases payload with
      | some payload => exact nomatch h
      | none =>
          obtain rfl := List.mem_singleton.1 h
          exact .children hpayload hattributes

/-- The list of the parts has what a piece leads to, and nothing else. It makes the relation one
that can be run through in order. -/
theorem mem_parts_iff : m ∈ task.parts c ↔ Leads task c m.task m.context :=
  ⟨leads_of_mem_parts, fun h => h.mem_parts⟩

end Parts

/-! ### All moments -/

/-- All that a render comes to from a moment on, in order. The pieces of a moment are nested less
deep, which is why there is an end to it. -/
def moments (m : Moment) : List Moment :=
  m :: (m.task.parts m.context).attach.flatMap fun ⟨part, _⟩ => moments part
termination_by m.task.size
decreasing_by exact (leads_of_mem_parts ‹_›).size_lt

theorem moments_eq (m : Moment) : moments m = m :: (m.task.parts m.context).flatMap moments := by
  rw [moments]
  simp [List.flatMap_subtype]

variable {task task' : Task} {c c' : Context} {m m' : Moment}

/-- What a piece reaches is the piece itself, or what one of those reaches that it leads to. -/
theorem Reaches.eq_or_leads (h : Reaches task c task' c') :
    (task' = task ∧ c' = c) ∨ ∃ task₁ c₁, Leads task c task₁ c₁ ∧ Reaches task₁ c₁ task' c' := by
  induction h with
  | start => exact .inl ⟨rfl, rfl⟩
  | step _ hleads ih =>
      rcases ih with ⟨rfl, rfl⟩ | ⟨task₁, c₁, hfirst, hreaches⟩
      · exact .inr ⟨_, _, hleads, .start⟩
      · exact .inr ⟨task₁, c₁, hfirst, hreaches.step hleads⟩

/-- The moments of a render are what it reaches. So what is said of each moment in order is said of
each piece that the render comes to, and the other way round. -/
theorem mem_moments_iff : m' ∈ moments m ↔ Reaches m.task m.context m'.task m'.context := by
  obtain ⟨task, c⟩ := m
  obtain ⟨task', c'⟩ := m'
  constructor
  · intro h
    induction task, c using Leads.induct with
    | h task c ih =>
        rw [moments_eq] at h
        rcases List.mem_cons.1 h with heq | h
        · cases heq
          exact .start
        · obtain ⟨part, hpart, h⟩ := List.mem_flatMap.1 h
          have hleads := leads_of_mem_parts hpart
          exact .of_leads hleads (ih _ _ hleads h)
  · intro h
    induction task, c using Leads.induct with
    | h task c ih =>
        rw [moments_eq]
        rcases h.eq_or_leads with ⟨rfl, rfl⟩ | ⟨task₁, c₁, hleads, hreaches⟩
        · exact List.mem_cons_self
        · refine List.mem_cons_of_mem _ (List.mem_flatMap.2 ⟨⟨task₁, c₁⟩, hleads.mem_parts, ?_⟩)
          exact ih _ _ hleads hreaches

/-- The moment some steps further, at the first part each time.  Unlike `moments` it can be computed
where only the way to one piece is of interest. -/
def Moment.descend? : (steps : Nat) → Moment → Option Moment
  | 0, m => some m
  | steps + 1, m => (m.task.parts m.context).head?.bind (descend? steps)

theorem Moment.reaches_of_descend? {steps : Nat} (h : m.descend? steps = some m') :
    Reaches m.task m.context m'.task m'.context := by
  induction steps generalizing m with
  | zero =>
      obtain rfl := Option.some.inj h
      exact .start
  | succ steps ih =>
      obtain ⟨part, hpart, h⟩ := Option.bind_eq_some_iff.1 h
      have hleads := leads_of_mem_parts (List.mem_of_mem_head? hpart)
      exact .of_leads hleads (ih h)

end Render
end Stencil
