import Stencil.Proofs.Library.Growth
import Stencil.Proofs.Markup.Growth
import Stencil.Proofs.Render.Run

/-!
# Balance of contexts

Whatever a piece of a template does, and however it ends, it leaves the context as it found it but
for what template elements set.

## Main definitions

* `boundNames`, `Template.BoundBelow` — the variables that template elements below some nodes set
* `Context.Balanced` — what may differ between two contexts
* `Render.Keeps` — a piece after which no more differs

## Main results

* `Render.keeps_nodes` — evaluating siblings keeps the context balanced
* `Render.nodes_balanced` — what this says of the scope, the chain, the tags and the slots

## Design notes

A halt is an outcome like any other here: the context after it is compared, too.  Balance is proved
once per construct of templates, over an arbitrary walk that keeps it, and the depth of nesting is
the only induction.
-/

namespace Stencil

open Markup

/-- The variables that a template element with some attributes sets. -/
def boundNames (attributes : Attributes) : List String :=
  attributes.filterMap fun (name, _) => if isRequirement name then none else bindingName? name

namespace Template

/-- A node is one of some nodes of a template or below one of them. -/
inductive Below (t : Template) (ids : List NodeId) : NodeId → Prop where
  | here {id : NodeId} : id ∈ ids → Below t ids id
  | child {parent id : NodeId} {e : Element} : Below t ids parent →
      t.element? parent = some e → id ∈ e.children → Below t ids id

/-- Some template element at or below some nodes sets a variable of the name. Such a variable may
stay set for what follows in the same frame. -/
def BoundBelow (t : Template) (ids : List NodeId) (name : String) : Prop :=
  ∃ id e, t.Below ids id ∧ t.element? id = some e ∧ e.tag = "template" ∧
    name ∈ boundNames e.attributes

variable {t : Template} {ids ids' : List NodeId}

/-- What is below nodes that are below others is below those. -/
theorem Below.of_below (h : ∀ id ∈ ids, t.Below ids' id) {id : NodeId} (hb : t.Below ids id) :
    t.Below ids' id := by
  induction hb with
  | here hm => exact h _ hm
  | child _ he hm ih => exact .child ih he hm

/-- A variable that is set below some nodes is set below all nodes above them. -/
theorem BoundBelow.of_below (h : ∀ id ∈ ids, t.Below ids' id) {name : String}
    (hb : t.BoundBelow ids name) : t.BoundBelow ids' name := by
  obtain ⟨id, e, hbelow, he, htag, hname⟩ := hb
  exact ⟨id, e, hbelow.of_below h, he, htag, hname⟩

/-- With more nodes there are more variables that may be set. -/
theorem BoundBelow.of_subset (h : ids ⊆ ids') {name : String} (hb : t.BoundBelow ids name) :
    t.BoundBelow ids' name :=
  hb.of_below fun _ hm => .here (h hm)

/-- All names that an element sets, by itself or below, are among some names. -/
structure Sets (t : Template) (e : Element) (names : String → Prop) : Prop where
  own : e.tag = "template" → ∀ name ∈ boundNames e.attributes, names name
  below : ∀ name, t.BoundBelow e.children name → names name

/-- What is below the children of an element is below the element. -/
theorem sets_of_element? {id : NodeId} {e : Element} (he : t.element? id = some e) :
    t.Sets e (t.BoundBelow [id]) where
  own htag _ hm := ⟨id, e, .here List.mem_cons_self, he, htag, hm⟩
  below _ hb := hb.of_below fun _ hm => .child (.here List.mem_cons_self) he hm

theorem sets_any (t : Template) (e : Element) : t.Sets e fun _ => True :=
  ⟨fun _ _ _ => trivial, fun _ _ => trivial⟩

end Template

/-- What may differ between two contexts: variables of the given names in the innermost frame, what
was rendered once, the output, and the texts and templates that were met. -/
structure Context.Balanced (names : String → Prop) (c c' : Context) : Prop where
  innermost : ∀ name, ¬ names name →
    Dict.get? c'.scope.innermost name = Dict.get? c.scope.innermost name
  outer : c'.scope.outer = c.scope.outer
  root : c'.scope.root = c.scope.root
  chain : c'.chain = c.chain
  tags : c'.tags = c.tags
  slots : c'.slots = c.slots
  seen : c.seen <:+ c'.seen
  out : c.out.Extends c'.out
  library : c.library.Grows c'.library

namespace Context.Balanced

variable {names names' : String → Prop} {c c' c'' : Context}

theorem refl (c : Context) : c.Balanced names c :=
  ⟨fun _ _ => rfl, rfl, rfl, rfl, rfl, rfl, List.suffix_refl _, .refl _, .refl _⟩

/-- Balance is transitive: what two pieces set one after the other is among the names of both. -/
theorem trans (h : c.Balanced names c') (h' : c'.Balanced names c'') : c.Balanced names c'' where
  innermost name hn := (h'.innermost name hn).trans (h.innermost name hn)
  outer := h'.outer.trans h.outer
  root := h'.root.trans h.root
  chain := h'.chain.trans h.chain
  tags := h'.tags.trans h.tags
  slots := h'.slots.trans h.slots
  seen := h.seen.trans h'.seen
  out := h.out.trans h'.out
  library := h.library.trans h'.library

theorem mono (h : c.Balanced names c') (hsub : ∀ name, names name → names' name) :
    c.Balanced names' c' :=
  { h with innermost := fun name hn => h.innermost name fun hname => hn (hsub name hname) }

/-- If nothing is set, the scope is the same for every name. -/
theorem lookup?_eq (h : c.Balanced names c') {name : String} (hn : ¬ names name) :
    c'.scope.lookup? name = c.scope.lookup? name := by
  rw [Scope.lookup?, Scope.lookup?, Scope.frames, Scope.frames, List.findSome?_cons,
    List.findSome?_cons, h.innermost name hn, h.outer, h.root]

end Context.Balanced

namespace Render

variable {α β : Type} {names names' : String → Prop}

/-- After a piece only variables of the given names differ in the innermost frame. All else that is
opened is closed again, however the piece ends. -/
def Keeps (names : String → Prop) (act : Render α) : Prop :=
  ∀ c : Context, c.Balanced names (act.run c).2

/-- The context after a run that is known, be it a success or a failure. -/
theorem Keeps.balanced {act : Render α} (h : Keeps names act) {c c' : Context}
    {result : Except Halt α} (hrun : act.run c = (result, c')) : c.Balanced names c' := by
  have hb := h c
  rw [hrun] at hb
  exact hb

/-! ### Ways to put pieces together -/

theorem keeps_pure (a : α) : Keeps names (pure a) := fun c => .refl c

theorem keeps_throw (halt : Halt) : Keeps names (throw halt : Render α) := fun c => .refl c

theorem Keeps.mono {act : Render α} (h : Keeps names act)
    (hsub : ∀ name, names name → names' name) : Keeps names' act :=
  fun c => (h c).mono hsub

/-- A second piece has to keep the balance only where the first one ends well. -/
theorem balanced_bind {act : Render α} {next : α → Render β} {c : Context}
    (h : c.Balanced names (act.run c).2)
    (hn : ∀ a c', act.run c = (.ok a, c') → c'.Balanced names ((next a).run c').2) :
    c.Balanced names ((act >>= next).run c).2 := by
  rcases hrun : act.run c with ⟨halt | a, c'⟩
  · rw [Act.run_bind_of_error hrun]
    rw [hrun] at h
    exact h
  · rw [Act.run_bind_of_ok hrun]
    rw [hrun] at h
    exact h.trans (hn a c' hrun)

/-- Two pieces keep the balance if each of them does, wherever the first one ends. -/
theorem keeps_bind {act : Render α} {next : α → Render β} (h : Keeps names act)
    (hn : ∀ a, Keeps names (next a)) : Keeps names (act >>= next) :=
  fun c => balanced_bind (h c) fun a c' _ => hn a c'

/-- A piece that may look at the context. -/
theorem keeps_get_bind {next : Context → Render β} (hn : ∀ c, Keeps names (next c)) :
    Keeps names (get >>= next) := by
  intro c
  rw [Act.run_get_bind]
  exact hn c c

/-! ### Primitives -/

/-- An evaluation in the scope changes the compiled texts of the library and nothing else. -/
theorem keeps_evaluate (f : Scope → Evaluation α) : Keeps names (evaluate f) := by
  intro c
  rw [run_evaluate]
  exact { Context.Balanced.refl c with
    library := ⟨Library.gains_of_eq ((f c.scope).functions_run _) (Nat.le_refl _) rfl, rfl⟩ }

/-- A piece that only reads keeps the context. -/
theorem Readonly.keeps {act : Render α} (h : Readonly act) : Keeps names act := by
  obtain ⟨f, -, rfl⟩ := h
  exact keeps_evaluate f

theorem keeps_allocate (node : Node) : Keeps names (allocate node) :=
  fun c => { Context.Balanced.refl c with out := c.out.extends_push node }

/-- Copying a node of a template only adds to the output. -/
theorem keeps_copy (t : Template) (id : NodeId) : Keeps names (copy t id) := by
  intro c
  rw [run_copy]
  cases hc : c.out.deepCopy? t.arena id with
  | none => exact .refl c
  | some copied =>
      exact { Context.Balanced.refl c with out := Arena.extends_deepCopy? hc }

/-- Loading a file only adds to the library, which may grow. -/
theorem keeps_load (file : String) : Keeps names (load file) := by
  intro c
  rw [run_load]
  exact { Context.Balanced.refl c with library := c.library.grows_load file }

/-- What is rendered once is put in front of what was before. -/
theorem keeps_firstTime (key : OnceKey) : Keeps names (firstTime key) := by
  intro c
  rw [run_firstTime]
  split
  · exact .refl c
  · exact { Context.Balanced.refl c with seen := List.suffix_cons key c.seen }

/-- To set a variable is the one change of the scope that outlives a piece, and the variable is one
of the given names. -/
theorem keeps_setVariable {name : String} (hname : names name) (value : Value) :
    Keeps names (setVariable name value) := by
  intro c
  have hrefl : c.Balanced names c := .refl c
  refine { hrefl with innermost := fun other hn => ?_ }
  have hne : name ≠ other := fun e => hn (e ▸ hname)
  exact (Dict.get?_insert name value c.scope.innermost other).trans (if_neg hne)

/-! ### What constructs add for their content -/

/-- Whatever is set in an added frame is gone with it: the scope is the one before. -/
theorem scope_withFrame {act : Render α} (h : Keeps names act) (frame : Frame) (c : Context) :
    ((withFrame frame act).run c).2.scope = c.scope := by
  have hact := h { c with scope := c.scope.push frame }
  rw [withFrame, run_within]
  show (act.run { c with scope := c.scope.push frame }).2.scope.pop = c.scope
  rw [Scope.pop, hact.outer]
  show (⟨c.scope.innermost, c.scope.outer, _⟩ : Scope) = c.scope
  rw [hact.root]
  rfl

/-- What is set within a frame of its own is dropped with the frame, so no names are left to be set.
-/
theorem keeps_withFrame {act : Render α} (h : Keeps names' act) (frame : Frame) :
    Keeps names (withFrame frame act) := by
  intro c
  have hact := h { c with scope := c.scope.push frame }
  have hscope := scope_withFrame h frame c
  exact {
    innermost := fun name _ => by rw [hscope]
    outer := by rw [hscope]
    root := by rw [hscope]
    chain := hact.chain
    tags := hact.tags
    slots := hact.slots
    seen := hact.seen
    out := hact.out
    library := hact.library }

/-- A tag that was entered is left again. -/
theorem keeps_withTag {act : Render α} (h : Keeps names act) (tag : String) :
    Keeps names (withTag tag act) := by
  intro c
  have hact := h { c with tags := tag :: c.tags }
  rw [withTag, run_within]
  exact { hact with tags := congrArg List.tail hact.tags }

/-- Slots that were passed are taken back. -/
theorem keeps_withSlots {act : Render α} (h : Keeps names act) (slots : SlotScope) :
    Keeps names (withSlots slots act) := by
  intro c
  have hact := h { c with slots := slots :: c.slots }
  rw [withSlots, run_within]
  exact { hact with slots := congrArg List.tail hact.slots }

/-- Content is evaluated outside of the innermost include, which is then back. -/
theorem balanced_outsideSlots {act : Render α} (h : Keeps names act) {c : Context}
    {own : SlotScope} {rest : List SlotScope} (hc : c.slots = own :: rest) :
    c.Balanced names ((outsideSlots own act).run c).2 := by
  have hact := h { c with slots := c.slots.tail }
  rw [outsideSlots, run_within]
  refine { hact with slots := ?_ }
  show own :: _ = c.slots
  rw [hact.slots, hc]
  rfl

theorem keeps_annotated {act : Render α} (h : Keeps names act) : Keeps names (annotated act) := by
  intro c
  rw [run_annotated]
  exact h c

/-- A file that was entered is left again, also when the piece fails. -/
theorem keeps_withFile {act : Render α} (h : Keeps names act) (file : String) :
    Keeps names (withFile file act) := by
  intro c
  have hact := keeps_annotated h { c with chain := file :: c.chain }
  rw [withFile, run_within]
  exact { hact with chain := congrArg List.tail hact.chain }

/-! ### Siblings -/

section Siblings

variable {t : Template} {node : NodeId → Render (List NodeId)}

/-- A chain of conditions keeps the balance if its nodes do; the conditions only read. -/
theorem keeps_chain {ids : List NodeId} (hnode : ∀ id ∈ ids, Keeps names (node id)) :
    Keeps names (chain node t ids) := by
  induction ids with
  | nil => exact keeps_pure []
  | cons id members ih =>
      refine keeps_bind (readonly_holds t id).keeps fun found => ?_
      cases found with
      | true => exact hnode id List.mem_cons_self
      | false => exact ih fun other hm => hnode other (List.mem_cons_of_mem id hm)

/-- Groups take their nodes from the siblings, whatever the roles of these are. The induction is on
the bound, as a group takes off more than its first sibling. -/
theorem keeps_groups (bound : Nat) :
    ∀ {ids : List NodeId}, (∀ id ∈ ids, Keeps names (node id)) →
      Keeps names (groups node t bound ids) := by
  induction bound with
  | zero =>
      intro ids _
      unfold groups
      exact keeps_pure []
  | succ bound ih =>
      intro ids hnode
      cases ids with
      | nil =>
          unfold groups
          exact keeps_pure []
      | cons id ids =>
          have hid : Keeps names (node id) := hnode id List.mem_cons_self
          have hids : ∀ other ∈ ids, Keeps names (node other) :=
            fun other hm => hnode other (List.mem_cons_of_mem id hm)
          have hrest : Keeps names (groups node t bound ids) := ih hids
          unfold groups
          split
          · have hsub := Siblings.chainRest_subset t ids
            refine keeps_bind (keeps_chain fun other hm => ?_) fun here => ?_
            · rcases List.mem_cons.1 hm with rfl | hm
              · exact hid
              · exact hids other (hsub.1 hm)
            · exact keeps_bind (ih fun other hm => hids other (hsub.2 hm)) fun _ => keeps_pure _
          · exact hrest
          · refine keeps_bind hid fun here => ?_
            split
            · rename_i alternative after helse
              have hsub := Siblings.elseAfter?_subset t helse
              refine keeps_bind (hids alternative hsub.1) fun here => ?_
              exact keeps_bind (ih fun other hm => hids other (hsub.2 hm)) fun _ => keeps_pure _
            · exact keeps_bind hrest fun _ => keeps_pure _
          · exact keeps_bind hid fun here => keeps_bind hrest fun _ => keeps_pure _

theorem keeps_siblings {ids : List NodeId} (hnode : ∀ id ∈ ids, Keeps names (node id)) :
    Keeps names (siblings node t ids) :=
  keeps_groups ids.length hnode

end Siblings

/-! ### Constructs -/

section Constructs

variable {walk : Walk} (hwalk : ∀ t ids, Keeps (t.BoundBelow ids) (walk t ids))
variable {t : Template} {id : NodeId} {e : Element} (hsets : t.Sets e names)

/-- Iterations have frames of their own, so their bodies may set what they like. -/
theorem keeps_eachEntry {body : Render (List NodeId)} (h : Keeps names' body) (clause : LoopClause)
    (entries : List (Value × Value)) : Keeps names (eachEntry clause body entries) := by
  induction entries with
  | nil => exact keeps_pure []
  | cons entry entries ih =>
      refine keeps_bind (keeps_withFrame h _) fun here => ?_
      exact keeps_bind ih fun others => keeps_pure _

/-- A loop sets nothing outside of its iterations. -/
theorem keeps_loop {body : Render (List NodeId)} (h : Keeps names' body) (source : String) :
    Keeps names (loop source body) := by
  unfold loop
  split
  · exact keeps_throw _
  · rename_i clause _
    refine keeps_bind (readonly_collection? _).keeps fun value? => ?_
    exact keeps_eachEntry h clause _

/-- A template element sets the variables it is said to set. The names can be read off its
attributes, before any of them is evaluated. -/
theorem keeps_setBindings {attributes : Attributes}
    (hnames : ∀ name ∈ boundNames attributes, names name) :
    Keeps names (setBindings attributes) := by
  induction attributes with
  | nil => exact keeps_pure ()
  | cons entry rest ih =>
      obtain ⟨key, source⟩ := entry
      unfold setBindings
      split
      · rename_i hreq
        exact ih fun name hm => hnames name (by simpa [boundNames, hreq] using hm)
      · rename_i hreq
        split
        · rename_i name hname
          have hbound : boundNames ((key, source) :: rest) = name :: boundNames rest := by
            simp [boundNames, hreq, hname]
          rw [hbound] at hnames
          have hrest : Keeps names (setBindings rest) := ih fun other hm =>
            hnames other (List.mem_cons_of_mem name hm)
          refine keeps_bind (readonly_bound source).keeps fun v => ?_
          exact keeps_bind (keeps_setVariable (hnames name List.mem_cons_self) v) fun _ => hrest
        · rename_i hname
          exact ih fun name hm => hnames name (by simpa [boundNames, hreq, hname] using hm)

include hwalk hsets in
/-- A template element sets the variables that are bound in it, in the scope around it; this is
where the names of `BoundBelow` come from. -/
theorem keeps_wrapper (htag : e.tag = "template") : Keeps names (wrapper walk t e) := by
  refine keeps_bind (readonly_require _).keeps fun _ => ?_
  refine keeps_bind (keeps_setBindings fun name hm => ?_) fun _ => ?_
  · exact hsets.own htag name hm
  · refine keeps_bind (readonly_directive? e "v-html").keeps fun html? => ?_
    cases html? with
    | some html => exact keeps_bind (keeps_allocate _) fun _ => keeps_pure _
    | none => exact (hwalk t e.children).mono hsets.below

include hwalk hsets in
/-- An output element sets what its children set. -/
theorem keeps_element : Keeps names (element walk t e) := by
  refine keeps_bind (readonly_payload? e).keeps fun payload => ?_
  refine keeps_bind (readonly_attributesOf e).keeps fun attributes => ?_
  have hdone : ∀ children, Keeps names (do
      return [← allocate (.element ⟨e.tag, attributes, children, payload⟩)]) :=
    fun children => keeps_bind (keeps_allocate _) fun _ => keeps_pure _
  dsimp only
  split
  · exact keeps_bind (keeps_pure []) hdone
  · have hchildren : Keeps names (walk t e.children) :=
      (hwalk t e.children).mono hsets.below
    exact keeps_bind (keeps_withTag hchildren e.tag) hdone

include hwalk hsets in
/-- Collecting content for slots sets what the nodes set that no slot is named for. -/
theorem keeps_includedSlots : Keeps names (includedSlots walk t e) := by
  unfold includedSlots
  dsimp only
  split
  · exact keeps_pure _
  · refine keeps_bind ((hwalk t _).mono fun name hb => hsets.below name ?_) fun ids => ?_
    · exact hb.of_subset List.filter_sublist.subset
    · split
      · exact keeps_pure _
      · exact keeps_pure _

include hwalk hsets in
/-- A component is evaluated in a frame of its own, so an include sets no more than its collected
content does. -/
theorem keeps_includeFile : Keeps names (includeFile walk t e) := by
  refine keeps_bind (readonly_interpolated _).keeps fun file => ?_
  refine keeps_bind (readonly_arguments e.attributes []).keeps fun args => ?_
  refine keeps_bind (keeps_includedSlots hwalk hsets) fun slots => ?_
  refine keeps_bind (keeps_load file) fun component => ?_
  refine keeps_bind (keeps_withFile (keeps_withSlots (keeps_withFrame
    (hwalk component component.roots) _) slots) component.file) fun body => ?_
  split
  · exact keeps_bind (keeps_allocate _) fun _ => keeps_pure _
  · exact keeps_pure body

include hwalk hsets in
/-- The content of a slot is evaluated in a frame of its own; the slots around are those before.
They are put back however the content ends. -/
theorem keeps_slot : Keeps names (slot walk t e) := by
  intro c
  have hpassed := run_passed? ((e.get? "name").getD defaultSlot) c
  refine balanced_bind (by rw [hpassed]; exact .refl c) fun found c₁ hrun => ?_
  rw [hpassed, Prod.mk.injEq, Except.ok.injEq] at hrun
  obtain ⟨hfound, rfl⟩ := hrun
  rcases found with _ | ⟨own, ids | ⟨definer, content, binding⟩⟩
  · exact (hwalk t e.children).mono hsets.below c
  · exact .refl c
  · obtain ⟨rest, hslots⟩ : ∃ rest, c.slots = own :: rest := by
      cases hs : c.slots with
      | nil => rw [hs] at hfound; exact absurd hfound (by simp)
      | cons first rest =>
          rw [hs] at hfound
          obtain ⟨_, -, hfirst⟩ := Option.map_eq_some_iff.1 hfound
          exact ⟨rest, by rw [(Prod.mk.inj hfirst).1]⟩
    have hprops : c.Balanced names ((properties [] e.attributes).run c).2 :=
      (readonly_properties e.attributes []).keeps c
    refine balanced_bind hprops fun frame c₁ hrun => ?_
    rw [hrun] at hprops
    split
    · exact balanced_outsideSlots (keeps_withFrame (hwalk definer _) _)
        (hprops.slots.trans hslots)
    · exact .refl c₁

theorem keeps_isDue : Keeps names (isDue id e) := by
  unfold isDue
  split
  · exact keeps_firstTime _
  · exact keeps_pure true

include hwalk hsets in
/-- An element sets what is bound in it or below it, whatever construct it is. -/
theorem keeps_nodeOnce : Keeps names (nodeOnce walk t id e) := by
  refine keeps_bind keeps_isDue fun due => ?_
  split
  · exact keeps_pure []
  · split
    · exact keeps_copy t id
    · split
      · exact keeps_includeFile hwalk hsets
      · split
        · rename_i htag
          exact keeps_wrapper hwalk hsets (beq_iff_eq.1 htag)
        · split
          · exact keeps_slot hwalk hsets
          · exact keeps_element hwalk hsets

theorem keeps_text (s : String) : Keeps names (text s) := by
  unfold text
  split
  · refine keeps_get_bind fun c => keeps_bind (keeps_evaluate _) fun s => ?_
    exact keeps_bind (keeps_allocate _) fun _ => keeps_pure _
  · exact keeps_bind (keeps_allocate _) fun _ => keeps_pure _

include hwalk in
/-- A node sets no more than the template elements at or below it bind. -/
theorem keeps_node : Keeps (t.BoundBelow [id]) (node walk t id) := by
  unfold node
  split
  · exact keeps_throw _
  · exact keeps_text _
  · exact keeps_bind (keeps_allocate _) fun _ => keeps_pure _
  · rename_i e hget
    have he : t.element? id = some e := by
      rw [Template.element?, Arena.element?, hget]
      rfl
    split
    · exact keeps_loop (keeps_nodeOnce hwalk (Template.sets_of_element? he)) _
    · exact keeps_nodeOnce hwalk (Template.sets_of_element? he)

end Constructs

/-! ### Templates -/

/-- Evaluating siblings leaves the context balanced, at whatever depth and however it ends. The
induction is on the depth; at each depth the lemmas of the constructs put the parts together. -/
theorem keeps_nodes (depth : Nat) :
    ∀ t ids, Keeps (Template.BoundBelow t ids) (nodes depth t ids) := by
  induction depth with
  | zero => exact fun t ids => keeps_throw .depth
  | succ depth ih =>
      intro t ids
      exact keeps_siblings fun id hm => (keeps_node ih).mono fun name hb =>
        hb.of_subset (by simpa using hm)

/-- Where the names do not matter, every node of a template keeps the balance. -/
theorem keeps_node_any {depth : Nat} (t : Template) (id : NodeId) :
    Keeps (fun _ => True) (node (nodes depth) t id) :=
  (keeps_node (keeps_nodes depth)).mono fun _ _ => trivial

theorem keeps_nodeOnce_any {depth : Nat} (t : Template) (id : NodeId) (e : Element) :
    Keeps (fun _ => True) (nodeOnce (nodes depth) t id e) :=
  keeps_nodeOnce (keeps_nodes depth) (t.sets_any e)

/-- A whole template leaves the scope as it was. -/
theorem keeps_template {walk : Walk} (hwalk : ∀ t ids, Keeps (t.BoundBelow ids) (walk t ids))
    (t : Template) : Keeps names (template walk t) :=
  keeps_withFile (keeps_withFrame (hwalk t t.roots) _) _

/-- However evaluating siblings ends, the frames are as many as before with the same fallback value,
only the innermost one differs, and that at names which template elements below the siblings bind;
the files, the tags and the slots around are the same, and what was rendered once stays so.  No
other name is looked up differently, so what a construct adds for its content is gone with it. -/
theorem nodes_balanced (depth : Nat) (t : Template) (ids : List NodeId) (c : Context) :
    let c' := ((nodes depth t ids).run c).2
    c'.scope.depth = c.scope.depth ∧ c'.scope.root = c.scope.root ∧
      c'.scope.outer = c.scope.outer ∧
      (∀ name, ¬ t.BoundBelow ids name →
        Dict.get? c'.scope.innermost name = Dict.get? c.scope.innermost name ∧
          c'.scope.lookup? name = c.scope.lookup? name) ∧
      c'.chain = c.chain ∧ c'.tags = c.tags ∧ c'.slots = c.slots ∧ c.seen <:+ c'.seen := by
  intro c'
  have h : c.Balanced (t.BoundBelow ids) c' := keeps_nodes depth t ids c
  have hdepth : c'.scope.depth = c.scope.depth := by rw [Scope.depth, h.outer, Scope.depth]
  exact ⟨hdepth, h.root, h.outer, fun name hn => ⟨h.innermost name hn, h.lookup?_eq hn⟩,
    h.chain, h.tags, h.slots, h.seen⟩

end Render
end Stencil
