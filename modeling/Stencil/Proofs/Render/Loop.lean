import Stencil.Proofs.Render.Clause
import Stencil.Proofs.Render.Proper
import Stencil.Proofs.Render.Variant

/-!
# Iterations of a loop

A loop prints what its iterations print, and no iteration prints anything else than it would by
itself.

## Main definitions

* `Context.Returned` — a context where constructs read the same as in another one before
* `Render.printed?` — the text of what a piece gives
* `Render.Repeatable` — an element that may be evaluated again and again
* `Render.loopText?` — the text of the element with a loop over a variable

## Main results

* `Render.Repeatable.printed?_iteration` — an iteration prints the same whatever iterations were
  before it
* `Render.Repeatable.loopText?_eq` — a loop prints what its iterations print by themselves
* `Render.loop_append` — a loop over two sequences joined prints what the loops over each of them
  print

## Design notes

Between two iterations the output has grown, templates may have been loaded, and regions were handed
out to them.  The contexts before both are alike for all that, in a world where the nodes and the
regions that were there stand for themselves.  What was rendered once is set aside by
`Render.Law.blind`, since nothing in the loop renders once; it may hold ids of any region.
-/

namespace Stencil

open Markup

/-! ### Contexts between iterations -/

/-- A context where constructs read the same as in another one before. Between two items of a loop
it is all that is left of the first: the output and the library have grown. -/
structure Context.Returned (c c' : Context) : Prop where
  scope : c'.scope = c.scope
  chain : c'.chain = c.chain
  tags : c'.tags = c.tags
  slots : c'.slots = c.slots
  seen : c'.seen = c.seen
  out : c.out.Extends c'.out
  library : c.library.Grows c'.library

/-- The regions and the nodes of a context stand for themselves. -/
def Context.world (c : Context) : World where
  regions := .upTo c.library.regions
  outputs id id' := id = id' ∧ ∃ tree, c.out.tree? id = some tree

/-- Content that was passed gives the same as before. -/
theorem SlotScope.OnceFree.twin {c : Context} {own : SlotScope} (h : own.OnceFree) (hc : c.Proper)
    (hown : own ∈ c.slots) : own.Twin c.world own := by
  intro name
  cases hget : Dict.get? own name with
  | none => exact .none
  | some content =>
      refine .some ?_
      rcases content with ids | ⟨definer, id, binding⟩
      · exact .nodes (List.forall₂_same.2 fun id hid => ⟨rfl, hc own hown name ids hget id hid⟩)
      · have halike := Template.alike_of_get? (w := c.world) rfl (fun _ _ => rfl)
          (h name definer id binding hget)
        exact .scoped binding halike ⟨rfl, .here List.mem_cons_self⟩

namespace Context.Returned

variable {c c' c'' : Context}

theorem refl (c : Context) : c.Returned c :=
  ⟨rfl, rfl, rfl, rfl, rfl, .refl _, .refl _⟩

theorem trans (h : c.Returned c') (h' : c'.Returned c'') : c.Returned c'' where
  scope := h'.scope.trans h.scope
  chain := h'.chain.trans h.chain
  tags := h'.tags.trans h.tags
  slots := h'.slots.trans h.slots
  seen := h'.seen.trans h.seen
  out := h.out.trans h'.out
  library := h.library.trans h'.library

theorem proper (h : c.Returned c') (hc : c.Proper) : c'.Proper :=
  hc.of_extends h.out (h.slots ▸ List.Subset.refl _)

/-- Contexts between iterations are alike, once what was rendered once is set aside. -/
theorem alike (h : c.Returned c') (hproper : c.Proper) (hpassed : ∀ own ∈ c.slots, own.OnceFree) :
    (c'.withSeen []).Alike c.world (c.withSeen []) where
  library := .of_grows h.library
  scope := h.scope
  chain := h.chain
  tags := h.tags
  seen := .nil
  slots := by
    show List.Forall₂ _ c'.slots c.slots
    rw [h.slots]
    exact List.forall₂_same.2 fun own hown => (hpassed own hown).twin hproper hown
  out := by
    rintro id _ ⟨rfl, tree, htree⟩
    exact ⟨tree, tree, h.out.tree? htree, htree, rfl⟩

end Context.Returned

namespace Render

/-! ### Printed text -/

/-- The text of what a piece gives, nothing if it fails. Node ids depend on what was allocated
before, the text of the nodes does not. -/
def printed? (act : Render (List NodeId)) (c : Context) : Option String :=
  ((do markup (← act)).run c).1.toOption

section Printed

variable {act act' rest : Render (List NodeId)} {c c' c₁ : Context} {here : List NodeId}
variable {w : World}

theorem printed?_of_error {halt : Halt} (h : act.run c = (.error halt, c₁)) :
    printed? act c = none := by
  rw [printed?, Act.run_bind_of_error h]
  rfl

theorem printed?_of_ok (h : act.run c = (.ok here, c₁)) :
    printed? act c = ((markup here).run c₁).1.toOption := by
  rw [printed?, Act.run_bind_of_ok h]

theorem printed?_of_trees {ts : List Tree} (h : act.run c = (.ok here, c₁))
    (hts : List.Forall₂ (fun id t => c₁.out.tree? id = some t) here ts) :
    printed? act c = some (printForest ts) := by
  rw [printed?_of_ok h, run_markup_of_trees hts]
  rfl

/-- A piece prints what a related piece does where nothing has been rendered once yet. -/
theorem printed?_eq_of_sim (hblind : Law.blind.Holds act act c) (h : Sim w Outputs act act')
    (hc : (c.withSeen []).Alike w c') : printed? act c = printed? act' c' := by
  have hset : Law.blind.Holds (do markup (← act)) (do markup (← act)) c :=
    Law.blind.seq hblind fun ids _ _ => Law.holds_markup ids
  have hprinted : Sim w Same (do markup (← act)) (do markup (← act')) :=
    Act.sim_bind h fun _ _ _ _ hids => sim_markup hids
  obtain ⟨_, -, -, hout⟩ := hprinted w (le_refl w) _ c' hc
  rw [hset []] at hout
  rw [printed?, printed?, (hout.mono fun _ _ hsame => hsame).eq]

/-- A piece prints something exactly if it ends well. -/
theorem isSome_printed?_iff (h : Plants act) (hc : c.Proper) :
    (printed? act c).isSome ↔ ∃ ids c', act.run c = (.ok ids, c') := by
  rcases hrun : act.run c with ⟨halt | ids, c₁⟩
  · rw [printed?_of_error hrun]
    exact ⟨fun hsome => (nomatch hsome), fun ⟨_, _, hok⟩ => nomatch congrArg Prod.fst hok⟩
  · obtain ⟨text, htext⟩ := exists_run_markup h hc hrun
    rw [printed?_of_ok hrun, htext]
    exact ⟨fun _ => ⟨ids, c₁, rfl⟩, fun _ => rfl⟩

/-- The text of a piece stands before the text of the pieces after it. What is rendered later does
not change the nodes that are there, so the first text is the same in the end. -/
theorem printed?_append {names : String → Prop} {ts : List Tree}
    (h : act.run c = (.ok here, c₁))
    (hts : List.Forall₂ (fun id t => c₁.out.tree? id = some t) here ts)
    (hkeeps : Keeps names rest) :
    printed? (do
      let here ← act
      let others ← rest
      return here ++ others) c = (printed? rest c₁).map (printForest ts ++ ·) := by
  rcases hrest : rest.run c₁ with ⟨halt | others, c₂⟩
  · rw [printed?_of_error hrest]
    have hrun : (do
        let here ← act
        let others ← rest
        return here ++ others : Render (List NodeId)).run c = (.error halt, c₂) := by
      rw [Act.run_bind_of_ok h, Act.run_bind_of_error hrest]
    rw [printed?_of_error hrun]
    rfl
  · have hout := (hkeeps.balanced hrest).out
    have hts' : List.Forall₂ (fun id t => c₂.out.tree? id = some t) here ts :=
      hts.imp fun _ _ ht => hout.tree? ht
    have hrun : (do
        let here ← act
        let others ← rest
        return here ++ others : Render (List NodeId)).run c = (.ok (here ++ others), c₂) := by
      rw [Act.run_bind_of_ok h, Act.run_bind_of_ok hrest]
      rfl
    rw [printed?_of_ok hrest]
    cases hothers : others.mapM c₂.out.tree? with
    | some us =>
        have hus := Arena.forall₂_of_mapM hothers
        rw [printed?_of_trees hrun (List.rel_append hts' hus), run_markup_of_trees hus,
          printForest_append]
        rfl
    | none =>
        rw [printed?_of_ok hrun, markup, markup, Act.run_get_bind, Act.run_get_bind,
          List.mapM_append, hothers, Arena.mapM_of_forall₂ hts']
        rfl

end Printed

/-! ### Iterations -/

/-- The evaluation of an element for one member of a sequence. -/
def iteration (depth : Nat) (t : Template) (id : NodeId) (e : Element) (item : String)
    (value : Value) : Render (List NodeId) :=
  withFrame [(item, value)] (nodeOnce (nodes depth) t id e)

section Iteration

variable {depth : Nat} {t : Template} {id : NodeId} {e : Element} {item collection : String}
variable {value : Value} {c c₁ : Context}

theorem NeverOnce.blind_iteration
    (h : NeverOnce (.once depth t id e) (c.inFrame [(item, value)])) :
    Law.blind.Holds (iteration depth t id e item value) (iteration depth t id e item value) c :=
  Law.holds_withFrame _ h.run_withSeen

/-- After an iteration all that constructs read is as before. -/
theorem NeverOnce.returned (h : NeverOnce (.once depth t id e) (c.inFrame [(item, value)]))
    {result : Except Halt (List NodeId)}
    (hrun : (iteration depth t id e item value).run c = (result, c₁)) : c.Returned c₁ := by
  have hkeeps : Keeps (fun _ => True) (iteration depth t id e item value) :=
    keeps_withFrame (keeps_nodeOnce_any t id e) _
  have hbalanced := hkeeps.balanced hrun
  have hscope : ((iteration depth t id e item value).run c).2.scope = c.scope :=
    scope_withFrame (keeps_nodeOnce_any t id e) _ c
  have hseen : ((iteration depth t id e item value).run c).2.seen = c.seen := h.seen_eq
  rw [hrun] at hscope hseen
  exact ⟨hscope, hbalanced.chain, hbalanced.tags, hbalanced.slots, hseen, hbalanced.out,
    hbalanced.library⟩

end Iteration

/-! ### Loops -/

/-- An element of a parsed template that may be evaluated again and again in a context: neither the
element nor content that was passed has anything that renders once. -/
structure Repeatable (t : Template) (id : NodeId) (e : Element) (c : Context) : Prop where
  parsed : t.Parsed
  within : ∃ raw, t.Within raw id
  element : t.element? id = some e
  proper : c.Proper
  node : t.OnceFree [id]
  passed : ∀ own ∈ c.slots, own.OnceFree

section Loop

variable {depth : Nat} {t : Template} {id : NodeId} {e : Element} {c c₁ : Context}
variable {item collection : String}

namespace Repeatable

variable (h : Repeatable t id e c) (source source' : String)

include h

/-- Whatever loop the element has, it is evaluated alike outside of the loop. -/
theorem sim_nodeOnce : Sim c.world Outputs
    (nodeOnce (nodes depth) (t.withLoop id source) id (e.withLoop source))
    (nodeOnce (nodes depth) (t.withLoop id source') id (e.withLoop source')) := by
  obtain ⟨raw, hwithin⟩ := h.within
  exact sim_withLoop h.parsed hwithin h.element h.node depth source source'

theorem alike (hreturned : c.Returned c₁) :
    (c₁.withSeen []).Alike c.world (c.withSeen []) :=
  hreturned.alike h.proper h.passed

/-- An iteration prints the same whatever iterations were before it, and whatever the collection is.
-/
theorem printed?_iteration (hreturned : c.Returned c₁) {value : Value}
    (hnever : NeverOnce (.once depth (t.withLoop id source) id (e.withLoop source))
      (c₁.inFrame [(item, value)])) :
    printed? (iteration depth (t.withLoop id source) id (e.withLoop source) item value) c₁ =
      printed? (iteration depth (t.withLoop id source') id (e.withLoop source') item value)
        (c.withSeen []) :=
  printed?_eq_of_sim hnever.blind_iteration (sim_withFrame _ (h.sim_nodeOnce source source'))
    (h.alike hreturned)

/-- A loop prints one iteration after the other, each as if it were the first one. The induction is
on the entries: after an iteration the context is one where constructs read the same. -/
theorem printed?_eachEntry (entries : List (Value × Value)) : ∀ {c₁}, c.Returned c₁ →
    NeverOnce (.entries depth (t.withLoop id source) id (e.withLoop source)
      ⟨none, item, collection⟩ entries) c₁ →
    printed? (eachEntry ⟨none, item, collection⟩
        (nodeOnce (nodes depth) (t.withLoop id source) id (e.withLoop source)) entries) c₁ =
      ((entries.map (·.2)).mapM fun value =>
        printed? (iteration depth (t.withLoop id source') id (e.withLoop source') item value)
          (c.withSeen [])).map String.join := by
  induction entries with
  | nil => exact fun _ _ => rfl
  | cons entry entries ih =>
      intro c₁ hreturned hnever
      have hfirst : NeverOnce (.once depth (t.withLoop id source) id (e.withLoop source))
          (c₁.inFrame [(item, entry.2)]) := hnever.of_leads .entry
      rw [List.map_cons, List.mapM_cons, ← h.printed?_iteration source source' hreturned hfirst]
      rcases hrun : (iteration depth (t.withLoop id source) id (e.withLoop source) item
          entry.2).run c₁ with ⟨halt | here, c₂⟩
      -- Where an iteration fails, the loop has no text, and neither has the joined text.
      · rw [printed?_of_error hrun]
        exact printed?_of_error (Act.run_bind_of_error hrun _)
      · have hplants : Plants (iteration depth (t.withLoop id source) id (e.withLoop source) item
            entry.2) :=
          (upholds_withFrame (upholds_nodeOnce (upholds_nodes depth)) _).plants
        -- The nodes of an iteration have trees, which later iterations leave as they are.
        obtain ⟨ts, hts⟩ := (hplants _ _ _ (hreturned.proper h.proper) hrun).exists_forall₂
        have hrest := ih (hreturned.trans (hfirst.returned hrun))
          (hnever.of_leads (.afterEntry hrun))
        have hkeeps : Keeps (fun _ => True) (eachEntry ⟨none, item, collection⟩
            (nodeOnce (nodes depth) (t.withLoop id source) id (e.withLoop source)) entries) :=
          keeps_eachEntry (keeps_nodeOnce_any _ _ _) _ entries
        rw [printed?_of_trees hrun hts]
        refine (printed?_append hrun hts hkeeps).trans ?_
        rw [hrest]
        cases (entries.map (·.2)).mapM fun value =>
            printed? (iteration depth (t.withLoop id source') id (e.withLoop source') item value)
              (c.withSeen []) with
        | none => rfl
        | some texts => exact congrArg some String.join_cons.symm

end Repeatable

/-- After some iterations that end well all that constructs read is as before the loop. -/
theorem NeverOnce.returned_eachEntry {earlier later : List (Value × Value)} : ∀ {c ids c'},
    NeverOnce (.entries depth t id e ⟨none, item, collection⟩ (earlier ++ later)) c →
    (eachEntry ⟨none, item, collection⟩ (nodeOnce (nodes depth) t id e) earlier).run c =
      (.ok ids, c') → c.Returned c' := by
  induction earlier with
  | nil =>
      intro c ids c' _ hrun
      obtain ⟨-, rfl⟩ := Act.of_run_pure hrun
      exact .refl c
  | cons entry earlier ih =>
      intro c ids c' hnever hrun
      obtain ⟨here, c₁, hhere, hrun⟩ := Act.exists_of_run_bind hrun
      obtain ⟨others, c₂, hothers, hrun⟩ := Act.exists_of_run_bind hrun
      obtain ⟨-, rfl⟩ := Act.of_run_pure hrun
      have hfirst : NeverOnce (.once depth t id e) (c.inFrame [(item, entry.2)]) :=
        hnever.of_leads .entry
      exact (hfirst.returned hhere).trans (ih (hnever.of_leads (.afterEntry hhere)) hothers)

/-! ### Loops over variables -/

/-- The members of a sequence are its values. -/
theorem map_loopEntries_seq (values : List Value) :
    (loopEntries (.seq values)).map (·.2) = values := by
  simp only [loopEntries, Value.entries?, Option.getD_some, List.map_map]
  exact List.zipIdx_map_fst 0 values

theorem exists_loopEntries_append (earlier later : List Value) :
    ∃ rest, loopEntries (.seq (earlier ++ later)) = loopEntries (.seq earlier) ++ rest := by
  simp only [loopEntries, Value.entries?, Option.getD_some, List.zipIdx_append, List.map_append]
  exact ⟨_, rfl⟩

/-- The texts of the members of two lists, joined. -/
theorem join_mapM_append (f : Value → Option String) (vs ws : List Value) :
    ((vs ++ ws).mapM f).map String.join = do
      let text ← (vs.mapM f).map String.join
      let text' ← (ws.mapM f).map String.join
      return text ++ text' := by
  rw [List.mapM_append]
  cases vs.mapM f with
  | none => rfl
  | some texts =>
      cases ws.mapM f with
      | none => rfl
      | some texts' => exact congrArg some String.join_append

/-- The text of a loop over a variable, as if it were rendered by itself where the loop stands. -/
def loopText? (depth : Nat) (t : Template) (id : NodeId) (item collection : String) (c : Context) :
    Option String :=
  printed? (node (nodes depth) (t.withLoop id (item ++ " in " ++ collection)) id) c

section OverVariable

variable {value : Value} (hitem : Text.isName item.toList = true)
variable (hcollection : Text.isName collection.toList = true)
variable (hvalue : c.scope.lookup? collection = some value)

include hitem hcollection hvalue

/-- A loop over a variable evaluates the element for each member of its value. -/
theorem run_loop_of_isName (he : t.element? id = some e) :
    (node (nodes depth) (t.withLoop id (item ++ " in " ++ collection)) id).run c =
      (eachEntry ⟨none, item, collection⟩ (nodeOnce (nodes depth)
        (t.withLoop id (item ++ " in " ++ collection)) id
        (e.withLoop (item ++ " in " ++ collection))) (loopEntries value)).run c := by
  unfold node
  rw [Template.get?_withLoop_self he]
  dsimp only
  rw [Element.get?_withLoop_self]
  dsimp only
  rw [loop, LoopClause.parse?_of_isName hitem hcollection]
  dsimp only
  rw [Act.run_bind_of_ok (run_collection?_of_isName c hcollection), hvalue]
  rfl

/-- No iteration of such a loop comes to anything that renders once. -/
theorem Repeatable.neverOnce_entries (h : Repeatable t id e c)
    (hcomponents : ComponentsOnceFree depth (t.withLoop id (item ++ " in " ++ collection)) id c) :
    NeverOnce (.entries depth (t.withLoop id (item ++ " in " ++ collection)) id
      (e.withLoop (item ++ " in " ++ collection)) ⟨none, item, collection⟩
      (loopEntries value)) c := by
  have hnever : NeverOnce (.node depth (t.withLoop id (item ++ " in " ++ collection)) id) c :=
    OnceFree.neverOnce ⟨h.node.withLoop h.element _, hcomponents, h.passed⟩
  have hentries := hnever.of_leads (.loop (Template.get?_withLoop_self h.element _)
    (e.get?_withLoop_self _) (LoopClause.parse?_of_isName hitem hcollection)
    (run_collection?_of_isName c hcollection))
  rwa [hvalue] at hentries

end OverVariable

/-- A loop over a variable prints what its iterations print, each by itself before the loop; the
loop that the element has then does not matter. -/
theorem Repeatable.loopText?_eq (h : Repeatable t id e c) (source : String)
    (hitem : Text.isName item.toList = true) (hcollection : Text.isName collection.toList = true)
    {values : List Value} (hvalue : c.scope.lookup? collection = some (.seq values))
    (hcomponents : ComponentsOnceFree depth (t.withLoop id (item ++ " in " ++ collection)) id c) :
    loopText? depth t id item collection c = (values.mapM fun value =>
      printed? (iteration depth (t.withLoop id source) id (e.withLoop source) item value)
        (c.withSeen [])).map String.join := by
  have hprinted := h.printed?_eachEntry _ source _ (.refl c)
    (h.neverOnce_entries hitem hcollection hvalue hcomponents)
  rw [map_loopEntries_seq] at hprinted
  rw [← hprinted, loopText?, printed?, printed?, Act.run_bind, Act.run_bind,
    run_loop_of_isName hitem hcollection hvalue h.element]

/-- Loops over sequences are homomorphisms of lists, where neither the element nor a component that
it includes nor content that was passed has anything that renders once: if two variables and a third
one are bound to sequences, the third one to the first two joined, then the loop over the third one
ends well exactly if the loops over the first two do, and its text is theirs joined.  Whenever some
iterations have ended well, the variables, the slots, the tags, the files and what was rendered once
are as before the loop. -/
theorem loop_append (h : Repeatable t id e c) {first second both : String}
    (hitem : Text.isName item.toList = true)
    (hnames : ∀ name ∈ [first, second, both], Text.isName name.toList = true)
    {vs ws : List Value} (hfirst : c.scope.lookup? first = some (.seq vs))
    (hsecond : c.scope.lookup? second = some (.seq ws))
    (hboth : c.scope.lookup? both = some (.seq (vs ++ ws)))
    (hcomponents : ∀ name ∈ [first, second, both],
      ComponentsOnceFree depth (t.withLoop id (item ++ " in " ++ name)) id c) :
    (loopText? depth t id item both c = do
      let text ← loopText? depth t id item first c
      let text' ← loopText? depth t id item second c
      return text ++ text') ∧
    (∀ name ∈ [first, second, both], (loopText? depth t id item name c).isSome ↔
      ∃ ids c', (node (nodes depth) (t.withLoop id (item ++ " in " ++ name)) id).run c =
        (.ok ids, c')) ∧
    ∀ earlier later, vs ++ ws = earlier ++ later → ∀ ids c',
      (eachEntry ⟨none, item, both⟩ (nodeOnce (nodes depth)
        (t.withLoop id (item ++ " in " ++ both)) id (e.withLoop (item ++ " in " ++ both)))
        (loopEntries (.seq earlier))).run c = (.ok ids, c') →
      c'.scope = c.scope ∧ c'.slots = c.slots ∧ c'.tags = c.tags ∧ c'.chain = c.chain ∧
        c'.seen = c.seen := by
  -- The text of each loop is that of the iterations over its values.
  have htext : ∀ name ∈ [first, second, both], ∀ {values},
      c.scope.lookup? name = some (.seq values) →
      loopText? depth t id item name c = (values.mapM fun value =>
        printed? (iteration depth (t.withLoop id both) id (e.withLoop both) item value)
          (c.withSeen [])).map String.join := fun name hname _ hvalue =>
    h.loopText?_eq both hitem (hnames name hname) hvalue (hcomponents name hname)
  refine ⟨?_, fun name hname => ?_, fun earlier later heq ids c' hrun => ?_⟩
  · rw [htext first (by simp) hfirst, htext second (by simp) hsecond, htext both (by simp) hboth]
    exact join_mapM_append _ vs ws
  -- That there is a text is that the loop ends well.
  · exact isSome_printed?_iff (upholds_node (upholds_nodes depth)).plants h.proper
  -- Iterations under which nothing renders once give the context back.
  · obtain ⟨rest, hrest⟩ := exists_loopEntries_append earlier later
    have hnever := h.neverOnce_entries hitem (hnames both (by simp)) hboth
      (hcomponents both (by simp))
    rw [heq, hrest] at hnever
    have hreturned := hnever.returned_eachEntry hrun
    exact ⟨hreturned.scope, hreturned.slots, hreturned.tags, hreturned.chain, hreturned.seen⟩

end Loop

/-! A list of items whose element sets a variable. -/

def listSource : String := "<li><template :y=\"x\">\x7b\x7b y \x7d\x7d</template></li>"

/-- The numbers one and two, apart and together. -/
def listContext : Context :=
  .new (.new (.memory []) [])
    (.ofData (.map [("a", .seq [.int 1]), ("ab", .seq [.int 1, .int 2]), ("b", .seq [.int 2])]))

theorem exists_list : ∃ t e, Template.parse 1 "list" listSource = .ok t ∧ ⟨1, 2⟩ ∈ t.roots ∧
    t.element? ⟨1, 2⟩ = some e ∧
    (∀ id e, t.element? id = some e → e.tag ≠ "vuego" ∧ onceKey? id e = none) ∧
    loopText? 2 t ⟨1, 2⟩ "x" "ab" listContext = some "<li>1</li>\n<li>2</li>\n" := by
  have hcheck : ((Template.parse 1 "list" listSource).toOption.any fun t =>
      decide (⟨1, 2⟩ ∈ t.roots) && (t.element? ⟨1, 2⟩).isSome &&
      (t.arena.nodes.toList.all fun node => node.element?.all fun e =>
        e.tag != "vuego" && (e.get? "v-once-id").isNone && !e.has "v-once") &&
      decide (loopText? 2 t ⟨1, 2⟩ "x" "ab" listContext = some "<li>1</li>\n<li>2</li>\n")) =
        true := by decide +kernel
  cases hparse : Template.parse 1 "list" listSource with
  | error e =>
      rw [hparse] at hcheck
      exact nomatch hcheck
  | ok t =>
      rw [hparse] at hcheck
      simp only [Except.toOption, Option.any_some, Bool.and_eq_true, decide_eq_true_eq] at hcheck
      obtain ⟨⟨⟨hroot, hsome⟩, hall⟩, htext⟩ := hcheck
      obtain ⟨e, he⟩ := Option.isSome_iff_exists.1 hsome
      refine ⟨t, e, rfl, hroot, he, fun id e he => ?_, htext⟩
      have hnode := List.all_eq_true.1 hall _ (Arena.mem_of_get? (Template.get?_of_element? he))
      simp only [Node.element?, Option.all_some, Bool.and_eq_true, bne_iff_ne, ne_eq,
        Option.isNone_iff_eq_none, Bool.not_eq_true'] at hnode
      refine ⟨hnode.1.1, ?_⟩
      rw [onceKey?, hnode.1.2, hnode.2]
      rfl

/-- The loop over both numbers prints two items, and those are what the loops over each print. The
page is parsed, so nothing is assumed of the template. -/
theorem loop_append_list : ∃ t, Template.parse 1 "list" listSource = .ok t ∧
    loopText? 2 t ⟨1, 2⟩ "x" "ab" listContext = some "<li>1</li>\n<li>2</li>\n" ∧
    loopText? 2 t ⟨1, 2⟩ "x" "ab" listContext = do
      let text ← loopText? 2 t ⟨1, 2⟩ "x" "a" listContext
      let text' ← loopText? 2 t ⟨1, 2⟩ "x" "b" listContext
      return text ++ text' := by
  obtain ⟨t, e, hparse, hroot, he, hnone, htext⟩ := exists_list
  have h : Repeatable t ⟨1, 2⟩ e listContext := by
    refine ⟨⟨1, _, _, hparse⟩, ⟨false, .root hroot⟩, he, ?_, ?_, ?_⟩
    · exact fun own hown => nomatch hown
    · exact fun id e _ he => (hnone id e he).2
    · exact fun own hown => nomatch hown
  have hcomponents : ∀ name ∈ ["a", "b", "ab"],
      ComponentsOnceFree 2 (t.withLoop ⟨1, 2⟩ ("x" ++ " in " ++ name)) ⟨1, 2⟩ listContext := by
    intro name _
    refine componentsOnceFree_of_tag_ne rfl fun i e' _ he' => ?_
    by_cases hi : i = ⟨1, 2⟩
    · subst hi
      rw [Template.element?_withLoop_self he] at he'
      obtain rfl := Option.some.inj he'
      exact (hnone _ e he).1
    · rw [Template.element?_withLoop_of_ne he _ hi] at he'
      exact (hnone i e' he').1
  refine ⟨t, hparse, htext, ?_⟩
  exact (loop_append h (by decide) (by decide) rfl rfl rfl hcomponents).1

end Render
end Stencil
