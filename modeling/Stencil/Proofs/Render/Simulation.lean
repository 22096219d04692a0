import Stencil.Proofs.Render.Bare
import Stencil.Proofs.Render.World
import Stencil.Proofs.Template

/-!
# Rendering in contexts that are alike

## Main definitions

* `Render.Sim` — pieces of a template that do the same in contexts that are alike
* `Render.Respects` — a walk that does the same for nodes that are evaluated alike

## Main results

* `Render.sim_nodes` — siblings that are evaluated alike have output that is shown alike
* `Render.sim_nodeOnce` — so have elements that differ in their loops
* `Render.sim_page` — twin templates have the same text, or fail for the same reason

## Design notes

Pieces that only read do the same in both contexts without a proof of their own:
`Render.sim_readonly`.  Constructs take what they read from elements that may differ in their loops
(`Element.Alike`), and evaluate children that do not differ at all.
-/

namespace Stencil

open Markup

namespace Render

variable {α β α' β' : Type} {R : World → α → α' → Prop} {S : World → β → β' → Prop}

/-- Pieces of a template that do the same in contexts that are alike. They may give other nodes, as
long as these are shown the same. -/
abbrev Sim (w : World) (R : World → α → α' → Prop) (act : Render α) (act' : Render α') : Prop :=
  Act.Sim Context.Alike w R act act'

/-! ### Primitives -/

/-- The same fault on both sides. -/
theorem sim_fail (fault : Fault) : Sim w R (fail fault) (fail fault) := Act.sim_throw _

/-- What only reads does the same in contexts that are alike. -/
theorem sim_evaluate (f : Scope → Evaluation α) : Sim w Same (evaluate f) (evaluate f) := by
  intro w₁ _ c c' hc
  rw [run_evaluate, run_evaluate, ← hc.scope, ← hc.functions_eq]
  have hlibrary := hc.library
  have hfunctions : ((f c.scope).run c.library.evaluator).2.functions =
      ((f c.scope).run c'.library.evaluator).2.functions := by
    rw [(f c.scope).functions_run, (f c.scope).functions_run]
    exact hlibrary.functions
  exact ⟨w₁, le_refl w₁,
    { hc with library := { hlibrary with functions := hfunctions } }, .refl (fun _ => rfl) _⟩

/-- An action that only reads gives the same result in contexts that are alike. -/
theorem sim_readonly {act : Render α} (h : Readonly act) : Sim w Same act act := by
  obtain ⟨f, -, rfl⟩ := h
  exact sim_evaluate f

/-- New nodes below which trees are shown alike. -/
theorem sim_allocated {node node' : Node}
    (h : ∀ w₁, w ≤ w₁ → ∀ c c' : Context, c.Alike w₁ c' →
      ShownAlike (c.out.push node).2 (c'.out.push node').2 c.out.nextId c'.out.nextId) :
    Sim w Outputs (do return [← allocate node]) (do return [← allocate node']) := by
  intro w₁ hw₁ c c' hc
  rw [run_allocated, run_allocated]
  refine ⟨_, w₁.le_withOutput c.out.nextId c'.out.nextId, ?_, ?_⟩
  · exact hc.grow (Arena.extends_push c.out node) (Arena.extends_push c'.out node')
      (h w₁ hw₁ c c' hc)
  · exact .ok (.cons (w₁.outputs_withOutput c.out.nextId c'.out.nextId) .nil)

/-- Both sides allocate the same text. The two new nodes stand for each other from there on,
whatever their ids are. -/
theorem sim_allocated_text (s : String) :
    Sim w Outputs (do return [← allocate (.text s)]) (do return [← allocate (.text s)]) :=
  sim_allocated fun _ _ c c' _ => ⟨.text s, .text s, Arena.tree?_plant c.out (.text s),
    Arena.tree?_plant c'.out (.text s), rfl⟩

/-- Both sides allocate the same raw text. -/
theorem sim_allocated_raw (s : String) :
    Sim w Outputs (do return [← allocate (.raw s)]) (do return [← allocate (.raw s)]) :=
  sim_allocated fun _ _ c c' _ => ⟨.raw s, .raw s, Arena.tree?_plant c.out (.raw s),
    Arena.tree?_plant c'.out (.raw s), rfl⟩

/-- New elements with children that stand for each other, of which the same attributes are shown. -/
theorem sim_allocated_element {tag : String} {attributes attributes' : Attributes}
    {payload : Option Payload} {ids ids' : List NodeId}
    (hattributes : attributes.filter (fun a => !isDirectiveAttribute a.1) =
      attributes'.filter fun a => !isDirectiveAttribute a.1) (hids : Outputs w ids ids') :
    Sim w Outputs (do return [← allocate (.element ⟨tag, attributes, ids, payload⟩)])
      (do return [← allocate (.element ⟨tag, attributes', ids', payload⟩)]) := by
  refine sim_allocated fun w₁ hw₁ c c' hc => ?_
  obtain ⟨ts, ts', hts, hts', hshown⟩ := hc.exists_trees (hids.mono hw₁)
  exact ⟨.element tag attributes payload ts, .element tag attributes' payload ts',
    Arena.tree?_push hts, Arena.tree?_push hts', Tree.shown_element hattributes hshown⟩

/-- Both sides set the same variable to the same value. -/
theorem sim_setVariable (name : String) (value : Value) :
    Sim w Same (setVariable name value) (setVariable name value) := by
  intro w₁ _ c c' hc
  rw [run_setVariable, run_setVariable, hc.scope]
  exact ⟨w₁, le_refl w₁, { hc with scope := rfl }, .ok rfl⟩

/-- Keys that are twins have both been seen or both not. This is where the renaming of regions
enters: a key names the region of the template that it is written in. -/
theorem sim_firstTime {key key' : OnceKey} (hkey : key.Twin w key') :
    Sim w Same (firstTime key) (firstTime key') := by
  intro w₁ hw₁ c c' hc
  rw [run_firstTime, run_firstTime, hc.seen_contains_eq (hkey.mono hw₁)]
  split
  · exact ⟨w₁, le_refl w₁, hc, .ok rfl⟩
  · exact ⟨w₁, le_refl w₁, { hc with seen := .cons (hkey.mono hw₁) hc.seen }, .ok rfl⟩

/-- Copies of trees that are shown alike. -/
theorem sim_copy {t t' : Template} {id id' : NodeId}
    (htree : Option.Rel (fun tree tree' => tree.shown = tree'.shown) (t.arena.tree? id)
      (t'.arena.tree? id')) : Sim w Outputs (copy t id) (copy t' id') := by
  intro w₁ _ c c' hc
  rw [run_copy, run_copy, Arena.deepCopy?, Arena.deepCopy?]
  rcases rel_cases htree with ⟨hn, hn'⟩ | ⟨tree, tree', hn, hn', hshown⟩
  · rw [hn, hn']
    exact ⟨w₁, le_refl w₁, hc, .error _⟩
  · rw [hn, hn']
    refine ⟨_, w₁.le_withOutput (c.out.plant tree).1 (c'.out.plant tree').1, ?_, ?_⟩
    · exact hc.grow (Arena.extends_plant c.out tree) (Arena.extends_plant c'.out tree')
        ⟨tree, tree', Arena.tree?_plant c.out tree, Arena.tree?_plant c'.out tree', hshown⟩
    · exact .ok (.cons (w₁.outputs_withOutput _ _) .nil)

/-- Loading one file on both sides gives templates that differ in the region alone, and the two
libraries stay alike. -/
theorem sim_load (file : String) :
    Sim w (fun w => Template.TwinIn w.regions) (load file) (load file) := by
  intro w₁ _ c c' hc
  obtain ⟨regions, hregions, hlibrary, hout⟩ := hc.library.load file
  have hw₁ := World.le_withRegions hregions
  rw [run_load, run_load, hc.chain]
  refine ⟨w₁.withRegions regions, hw₁, ?_, (hout.mapError _).mapError _⟩
  exact { hc with
    library := hlibrary
    seen := hc.seen.imp fun _ _ hkey => hkey.mono hw₁
    slots := hc.slots.imp fun _ _ hslots => hslots.mono hw₁ }

/-! ### What constructs add for their content -/

/-- Entering and leaving keep contexts alike if each of the two changes does. -/
theorem sim_within {enter enter' leave leave' : Context → Context}
    (henter : ∀ w₁, w ≤ w₁ → ∀ c c' : Context, c.Alike w₁ c' → (enter c).Alike w₁ (enter' c'))
    (hleave : ∀ w₁, w ≤ w₁ → ∀ c c' : Context, c.Alike w₁ c' → (leave c).Alike w₁ (leave' c'))
    {act : Render α} {act' : Render α'} (h : Sim w R act act') :
    Sim w R (within enter leave act) (within enter' leave' act') := by
  intro w₁ hw₁ c c' hc
  obtain ⟨w₂, hw₂, hc₂, hout⟩ := h w₁ hw₁ _ _ (henter w₁ hw₁ c c' hc)
  rw [run_within, run_within]
  exact ⟨w₂, hw₂, hleave w₂ (hw₁.trans hw₂) _ _ hc₂, hout⟩

/-- A frame of variables around both sides. -/
theorem sim_withFrame (frame : Frame) {act : Render α} {act' : Render α'} (h : Sim w R act act') :
    Sim w R (withFrame frame act) (withFrame frame act') := by
  refine sim_within (fun _ _ c c' hc => ?_) (fun _ _ c c' hc => ?_) h
  · exact { hc with scope := congrArg (·.push frame) hc.scope }
  · exact { hc with scope := congrArg Scope.pop hc.scope }

/-- A tag around both sides. -/
theorem sim_withTag (tag : String) {act : Render α} {act' : Render α'} (h : Sim w R act act') :
    Sim w R (withTag tag act) (withTag tag act') := by
  refine sim_within (fun _ _ c c' hc => ?_) (fun _ _ c c' hc => ?_) h
  · exact { hc with tags := congrArg (tag :: ·) hc.tags }
  · exact { hc with tags := congrArg List.tail hc.tags }

/-- Lists that are related member by member have tails that are. -/
theorem forall₂_tail {R : α → β → Prop} {xs : List α} {ys : List β} (h : List.Forall₂ R xs ys) :
    List.Forall₂ R xs.tail ys.tail := by
  cases h with
  | nil => exact .nil
  | cons _ hrest => exact hrest

/-- Slot scopes that are twins around both sides. -/
theorem sim_withSlots {slots slots' : SlotScope} (hslots : slots.Twin w slots') {act : Render α}
    {act' : Render α'} (h : Sim w R act act') :
    Sim w R (withSlots slots act) (withSlots slots' act') := by
  refine sim_within (fun _ hw₁ c c' hc => ?_) (fun _ _ c c' hc => ?_) h
  · exact { hc with slots := .cons (hslots.mono hw₁) hc.slots }
  · exact { hc with slots := forall₂_tail hc.slots }

/-- Both sides outside of the innermost slot scope, which is put back afterwards. -/
theorem sim_outsideSlots {own own' : SlotScope} (hown : own.Twin w own') {act : Render α}
    {act' : Render α'} (h : Sim w R act act') :
    Sim w R (outsideSlots own act) (outsideSlots own' act') := by
  refine sim_within (fun _ _ c c' hc => ?_) (fun _ hw₁ c c' hc => ?_) h
  · exact { hc with slots := forall₂_tail hc.slots }
  · exact { hc with slots := .cons (hown.mono hw₁) hc.slots }

/-- The annotation is the same on both sides, as the chains of files agree. -/
theorem sim_annotated {act : Render α} {act' : Render α'} (h : Sim w R act act') :
    Sim w R (annotated act) (annotated act') := by
  intro w₁ hw₁ c c' hc
  obtain ⟨w₂, hw₂, hc₂, hout⟩ := h w₁ hw₁ c c' hc
  rw [run_annotated, run_annotated, hc₂.chain]
  exact ⟨w₂, hw₂, hc₂, hout.mapError _⟩

/-- One file entered on both sides. -/
theorem sim_withFile (file : String) {act : Render α} {act' : Render α'} (h : Sim w R act act') :
    Sim w R (withFile file act) (withFile file act') := by
  refine sim_within (fun _ _ c c' hc => ?_) (fun _ _ c c' hc => ?_) (sim_annotated h)
  · exact { hc with chain := congrArg (file :: ·) hc.chain }
  · exact { hc with chain := congrArg List.tail hc.chain }

/-! ### Siblings -/

/-- What stands before the output of another piece. -/
theorem sim_append {here here' : List NodeId} {act act' : Render (List NodeId)}
    (hhere : Outputs w here here') (h : Sim w Outputs act act') :
    Sim w Outputs (do return here ++ (← act)) (do return here' ++ (← act')) :=
  Act.sim_bind h fun _ hw₁ _ _ hothers => Act.sim_pure fun _ hw₂ =>
    List.rel_append (hhere.mono (hw₁.trans hw₂)) (hothers.mono hw₂)

section Siblings

variable {t t' : Template} {R : NodeId → NodeId → Prop} (ht : t.Bisim R t')
variable {node node' : NodeId → Render (List NodeId)}
variable (hnode : ∀ w₁, w ≤ w₁ → ∀ id id', R id id' → Sim w₁ Outputs (node id) (node' id'))

include ht hnode

/-- A group of conditional siblings: both sides take the same branch, since the conditions are read
in contexts that are alike. -/
theorem sim_chain {ids ids' : List NodeId} (hids : List.Forall₂ R ids ids') (hw : w ≤ w') :
    Sim w' Outputs (chain node t ids) (chain node' t' ids') := by
  induction hids generalizing w' with
  | nil => exact Act.sim_pure fun _ _ => .nil
  | cons hid _ ih =>
      unfold chain
      rw [ht.holds_eq hid]
      refine Act.sim_bind_same (sim_readonly (readonly_holds t' _)) fun w₁ hw₁ found => ?_
      cases found with
      | true => exact hnode w₁ (hw.trans hw₁) _ _ hid
      | false => exact ih (hw.trans hw₁)

/-- Siblings that stand for each other fall into the same groups. What decides is told by attributes
and blank text, which both sides share; conditions come out the same as well. -/
theorem sim_groups (bound : Nat) :
    ∀ {w' ids ids'}, List.Forall₂ R ids ids' → w ≤ w' →
      Sim w' Outputs (groups node t bound ids) (groups node' t' bound ids') := by
  induction bound with
  | zero =>
      intro w' ids ids' _ _
      unfold groups
      exact Act.sim_pure fun _ _ => .nil
  | succ bound ih =>
      intro w' ids ids' hids hw
      cases hids with
      | nil =>
          unfold groups
          exact Act.sim_pure fun _ _ => .nil
      | @cons id id' rest rest' hid hrest =>
          unfold groups
          rw [← ht.role_eq hid]
          split
          · have hchain := ht.chainRest hrest
            refine Act.sim_bind (sim_chain ht hnode (.cons hid hchain.1) hw)
              fun w₁ hw₁ here here' hhere => ?_
            exact sim_append hhere (ih hchain.2 (hw.trans hw₁))
          · exact ih hrest hw
          · refine Act.sim_bind (hnode _ hw _ _ hid) fun w₁ hw₁ here here' hhere => ?_
            cases hhere with
            | nil =>
                have helse := ht.elseAfter? hrest
                rcases rel_cases helse with ⟨hn, hn'⟩ | ⟨found, found', hn, hn', hfound⟩
                · rw [hn, hn']
                  exact sim_append .nil (ih hrest (hw.trans hw₁))
                · rw [hn, hn']
                  have hww₁ := hw.trans hw₁
                  refine Act.sim_bind (hnode _ hww₁ _ _ hfound.1) fun w₂ hw₂ here here' hhere => ?_
                  exact sim_append hhere (ih hfound.2 (hww₁.trans hw₂))
            | cons hfirst hothers =>
                exact sim_append (.cons hfirst hothers) (ih hrest (hw.trans hw₁))
          · refine Act.sim_bind (hnode _ hw _ _ hid) fun w₁ hw₁ here here' hhere => ?_
            exact sim_append hhere (ih hrest (hw.trans hw₁))

/-- A list of siblings, rendered in groups: the grouping depends on the shape of the templates, and
that is the same on both sides. -/
theorem sim_siblings {ids ids' : List NodeId} (hids : List.Forall₂ R ids ids') :
    Sim w Outputs (siblings node t ids) (siblings node' t' ids') := by
  unfold siblings
  rw [hids.length_eq]
  exact sim_groups ht hnode _ hids (le_refl w)

end Siblings

/-! ### Constructs -/

/-- A walk does the same for nodes that are evaluated alike. Walks are the loops over siblings, so
this is shown once for each of them. -/
def Respects (walk : Walk) : Prop :=
  ∀ w R t t' ids ids', Template.Alike w R t t' → List.Forall₂ R ids ids' →
    Sim w Outputs (walk t ids) (walk t' ids')

section Constructs

variable {walk : Walk} (hwalk : Respects walk) {t t' : Template} {Q : NodeId → NodeId → Prop}
variable (ht : t.Alike w Q t') {id id' : NodeId} {e e' : Element} (he : e.Alike Q e')

/-- The entries of a loop, one after the other. The worlds grow with the entries, so the statement
is for every later world. -/
theorem sim_eachEntry {clause clause' : LoopClause} {body body' : Render (List NodeId)}
    (hframe : ∀ key value, clause.frame key value = clause'.frame key value)
    (h : Sim w Outputs body body') (entries : List (Value × Value)) :
    ∀ w₁, w ≤ w₁ →
      Sim w₁ Outputs (eachEntry clause body entries) (eachEntry clause' body' entries) := by
  induction entries with
  | nil => exact fun w₁ _ => Act.sim_pure fun _ _ => .nil
  | cons entry entries ih =>
      intro w₁ hw₁
      unfold eachEntry
      rw [hframe]
      refine Act.sim_bind (sim_withFrame _ (h.mono hw₁)) fun w₂ hw₂ here here' hhere => ?_
      exact sim_append hhere (ih w₂ (hw₁.trans hw₂))

/-- A loop over the same source on both sides. -/
theorem sim_loop {body body' : Render (List NodeId)} (h : Sim w Outputs body body')
    (source : String) : Sim w Outputs (loop source body) (loop source body') := by
  unfold loop
  split
  · exact sim_fail _
  · refine Act.sim_bind_same (sim_readonly (readonly_collection? _)) fun w₁ hw₁ value? => ?_
    exact sim_eachEntry (fun _ _ => rfl) h _ w₁ hw₁

/-- A text node, escaped or kept as the context asks. -/
theorem sim_text (s : String) : Sim w Outputs (text s) (text s) := by
  intro w₁ hw₁ c c' hc
  unfold text
  split
  · rw [Act.run_get_bind, Act.run_get_bind, hc.tags]
    exact Act.sim_bind_same (sim_evaluate _) (fun w _ s => sim_allocated_text s) w₁ (le_refl w₁)
      c c'
      hc
  · exact sim_allocated_text s w₁ hw₁ c c' hc

/-- The variables of a wrapper are set to the same values on both sides. -/
theorem sim_setBindings (attributes : Attributes) :
    ∀ w, Sim w Same (setBindings attributes) (setBindings attributes) := by
  induction attributes with
  | nil => exact fun w => Act.sim_pure fun _ _ => rfl
  | cons entry rest ih =>
      intro w
      unfold setBindings
      split
      · exact ih w
      · split
        · refine Act.sim_bind_same (sim_readonly (readonly_bound _)) fun w₁ _ v => ?_
          exact Act.sim_bind_same (sim_setVariable _ v) fun w₂ _ _ => ih w₂
        · exact ih w

include hwalk ht he

/-- A `template` element. -/
theorem sim_wrapper : Sim w Outputs (wrapper walk t e) (wrapper walk t' e') := by
  unfold wrapper
  rw [he.requiredNames_eq, he.setBindings_eq, he.directive?_eq (by decide)]
  refine Act.sim_bind_same (sim_readonly (readonly_require _)) fun w₁ hw₁ _ => ?_
  refine Act.sim_bind_same (sim_setBindings e'.attributes w₁) fun w₂ hw₂ _ => ?_
  refine Act.sim_bind_same (sim_readonly (readonly_directive? _ "v-html")) fun w₃ hw₃ html? => ?_
  cases html? with
  | some html => exact sim_allocated_raw html.display
  | none => exact hwalk w₃ Q t t' _ _ (ht.mono ((hw₁.trans hw₂).trans hw₃)) he.children

/-- An element that is written out. -/
theorem sim_element : Sim w Outputs (element walk t e) (element walk t' e') := by
  unfold element
  rw [he.payload?_eq, he.attributesOf_eq, he.tag]
  refine Act.sim_bind_same (sim_readonly (readonly_payload? e')) fun w₁ hw₁ payload => ?_
  refine Act.sim_bind_same (sim_readonly (readonly_attributesOf e')) fun w₂ hw₂ attributes => ?_
  have hchildren := hwalk w₂ Q t t' _ _ (ht.mono (hw₁.trans hw₂)) he.children
  dsimp only
  split
  · exact Act.sim_bind (Act.sim_pure fun _ _ => .nil) fun w₃ _ _ _ hids =>
      sim_allocated_element rfl hids
  · exact Act.sim_bind (sim_withTag e'.tag hchildren) fun w₃ _ _ _ hids =>
      sim_allocated_element rfl hids

/-- Includes that are evaluated alike define the same slots. What is evaluated at once gives related
nodes, and what is evaluated later related places in the templates. -/
theorem sim_includedSlots :
    Sim w SlotScope.Twin (includedSlots walk t e) (includedSlots walk t' e') := by
  -- The elements that define slots, on both sides under the same names.
  have hpairs : ∀ {ids ids'}, List.Forall₂ Q ids ids' →
      List.Forall₂ (fun entry entry' => entry.1 = entry'.1 ∧ SlotContent.Twin w entry.2 entry'.2)
        (ids.filterMap fun id =>
          (definition? t id).map fun found => (found.1, .scoped t id found.2))
        (ids'.filterMap fun id =>
          (definition? t' id).map fun found => (found.1, .scoped t' id found.2)) := by
    intro ids ids' hids
    induction hids with
    | nil => exact .nil
    | cons hid _ ih =>
        rw [List.filterMap_cons, List.filterMap_cons, ht.bisim.definition?_eq hid]
        cases definition? t' _ with
        | none => exact ih
        | some found => exact .cons ⟨rfl, .scoped _ ht hid⟩ ih
  have hdefined : SlotScope.Twin w (definedSlots t e.children) (definedSlots t' e'.children) :=
    .ofPairs (hpairs he.children)
  -- What is left are the children for the default slot.
  have hothers := ht.bisim.filter_definition? he.children
  have hempty : (e.children.filter fun id => (definition? t id).isNone).isEmpty =
      (e'.children.filter fun id => (definition? t' id).isNone).isEmpty := by
    rw [Bool.eq_iff_iff, List.isEmpty_iff_length_eq_zero, List.isEmpty_iff_length_eq_zero,
      hothers.length_eq]
  unfold includedSlots
  dsimp only
  rw [hempty]
  split
  · exact Act.sim_pure fun w₁ hw₁ => hdefined.mono hw₁
  · refine Act.sim_bind (hwalk w Q t t' _ _ ht hothers) fun w₁ hw₁ ids ids' hids => ?_
    rw [hdefined.contains_eq]
    split
    · exact Act.sim_pure fun w₂ hw₂ => hdefined.mono (hw₁.trans hw₂)
    · exact Act.sim_pure fun w₂ hw₂ =>
        (hdefined.mono (hw₁.trans hw₂)).insert _ (.nodes (hids.mono hw₂))

/-- An include: the same file is loaded on both sides, and the content it is passed is twin content.
-/
theorem sim_includeFile : Sim w Outputs (includeFile walk t e) (includeFile walk t' e') := by
  have hslots := sim_includedSlots hwalk ht he
  unfold includeFile
  rw [he.get?_eq (by decide), he.arguments_eq, he.has_eq (by decide), he.tag]
  refine Act.sim_bind_same (sim_readonly (readonly_interpolated _)) fun w₁ hw₁ file => ?_
  refine Act.sim_bind_same (sim_readonly (readonly_arguments e'.attributes []))
    fun w₂ hw₂ args => ?_
  refine Act.sim_bind ((hslots.mono hw₁).mono hw₂) fun w₃ hw₃ slots slots' hslots => ?_
  refine Act.sim_bind (sim_load file) fun w₄ hw₄ component component' hcomponent => ?_
  have hbody := hwalk w₄ _ component component' _ _ hcomponent.alike hcomponent.twin.roots
  rw [hcomponent.twin.file, hcomponent.twin.frontMatter]
  refine Act.sim_bind (sim_withFile _ (sim_withSlots (hslots.mono hw₄) (sim_withFrame _ hbody)))
    fun w₅ _ body body' hids => ?_
  split
  · exact sim_allocated_element he.shown_keptAttributes_eq hids
  · exact Act.sim_pure fun _ hw₆ => hids.mono hw₆

omit hwalk ht he in
/-- What is passed for a slot on one side is passed on the other. The slots are stacks of the same
height, so it is the innermost one on both sides. -/
theorem sim_passed? (name : String) :
    Sim w (fun w₁ => Option.Rel fun found found' =>
        SlotScope.Twin w₁ found.1 found'.1 ∧ SlotContent.Twin w₁ found.2 found'.2)
      (passed? name) (passed? name) := by
  intro w₁ _ c c' hc
  rw [run_passed?, run_passed?]
  refine ⟨w₁, le_refl w₁, hc, .ok ?_⟩
  have hslots := hc.slots
  generalize c.slots = slots at hslots ⊢
  generalize c'.slots = slots' at hslots ⊢
  cases hslots with
  | nil => exact .none
  | cons hown _ =>
      dsimp only
      rcases rel_cases (hown name) with ⟨hn, hn'⟩ | ⟨found, found', hn, hn', hfound⟩
      · rw [hn, hn']
        exact .none
      · rw [hn, hn']
        exact .some ⟨hown, hfound⟩

/-- A slot: both sides find content or both find none. -/
theorem sim_slot : Sim w Outputs (slot walk t e) (slot walk t' e') := by
  unfold slot
  rw [he.get?_eq (by decide), he.properties_eq]
  refine Act.sim_bind (sim_passed? _) fun w₁ hw₁ found found' hfound => ?_
  rcases rel_cases hfound with
    ⟨rfl, rfl⟩ | ⟨⟨own, content⟩, ⟨own', content'⟩, rfl, rfl, hown, hcontent⟩
  · exact hwalk w₁ Q t t' _ _ (ht.mono hw₁) he.children
  · rcases hcontent with hids | @⟨R, definer, definer', id, id', binding, hdefiner, hid⟩
    · exact Act.sim_pure fun _ hw₂ => hids.mono hw₂
    · refine Act.sim_bind_same (sim_readonly (readonly_properties e'.attributes []))
        fun w₂ hw₂ frame => ?_
      rcases rel_cases (hdefiner.bisim.element? hid) with ⟨hn, hn'⟩ | ⟨e, e', hn, hn', he⟩
      · rw [hn, hn']
        exact Act.sim_pure fun _ _ => .nil
      · rw [hn, hn']
        have hbody := hwalk w₂ R definer definer' _ _ (hdefiner.mono hw₂) he.children
        exact sim_outsideSlots (hown.mono hw₂) (sim_withFrame _ hbody)

omit hwalk ht he in
/-- Whether an element is still due, decided by keys that are twins. -/
theorem sim_isDue (hkey : Option.Rel (OnceKey.Twin w) (onceKey? id e) (onceKey? id' e')) :
    Sim w Same (isDue id e) (isDue id' e') := by
  unfold isDue
  rcases rel_cases hkey with ⟨hn, hn'⟩ | ⟨key, key', hn, hn', htwin⟩
  · rw [hn, hn']
    exact Act.sim_pure fun _ _ => rfl
  · rw [hn, hn']
    exact sim_firstTime htwin

/-- Elements that differ in their loops and their children alone have output that is shown alike.
The children are compared by what they are evaluated to, and the loops are not looked at here. -/
theorem sim_nodeOnce (hkey : Option.Rel (OnceKey.Twin w) (onceKey? id e) (onceKey? id' e'))
    (htree : Option.Rel (fun tree tree' => tree.shown = tree'.shown) (t.arena.tree? id)
      (t'.arena.tree? id')) :
    Sim w Outputs (nodeOnce walk t id e) (nodeOnce walk t' id' e') := by
  unfold nodeOnce
  rw [he.has_eq (by decide), he.has_eq (by decide), he.tag]
  refine Act.sim_bind_same (sim_isDue hkey) fun w₁ hw₁ due => ?_
  have ht₁ := ht.mono hw₁
  split
  · exact Act.sim_pure fun _ _ => .nil
  · split
    · exact sim_copy htree
    · split
      · exact sim_includeFile hwalk ht₁ he
      · split
        · exact sim_wrapper hwalk ht₁ he
        · split
          · exact sim_slot hwalk ht₁ he
          · exact sim_element hwalk ht₁ he

omit he in
/-- One node of either template, whichever of the cases above it is. Nodes that stand for each other
are of one kind, and have the same attributes. -/
theorem sim_node (hid : Q id id') : Sim w Outputs (node walk t id) (node walk t' id') := by
  unfold node
  rcases rel_cases (ht.bisim.get? hid) with ⟨hn, hn'⟩ | ⟨found, found', hn, hn', htwin⟩
  · rw [hn, hn']
    exact sim_fail _
  · rw [hn, hn']
    cases htwin with
    | text s => exact sim_text s
    | raw s => exact sim_allocated_raw s
    | @element e e' he =>
        have hkey := ht.keys id id' e e' hid (Template.element?_of_get? hn)
          (Template.element?_of_get? hn')
        have htree : Option.Rel (fun tree tree' => tree.shown = tree'.shown) (t.arena.tree? id)
            (t'.arena.tree? id') := by
          rw [ht.bisim.tree? hid]
          cases t'.arena.tree? id' with
          | none => exact .none
          | some tree => exact .some rfl
        have hbody := sim_nodeOnce hwalk ht he.alike hkey htree
        have hget : e.get? "v-for" = e'.get? "v-for" := by
          rw [Element.get?, he.attributes, Element.get?]
        dsimp only
        rw [hget]
        cases e'.get? "v-for" with
        | some clause => exact sim_loop hbody clause
        | none => exact hbody

end Constructs

/-! ### Templates -/

/-- Siblings that are evaluated alike have output that is shown alike, or fail for the same reason.
-/
theorem sim_nodes (depth : Nat) : Respects (nodes depth) := by
  induction depth with
  | zero => exact fun w R t t' ids ids' _ _ => Act.sim_throw .depth
  | succ depth ih =>
      intro w R t t' ids ids' ht hids
      exact sim_siblings ht.bisim (fun w₁ hw₁ id id' hid => sim_node ih (ht.mono hw₁) hid) hids

/-- A whole template: the entry point of the simulation, used for the page and for each of its
layouts. -/
theorem sim_template {walk : Walk} (hwalk : Respects walk) {t t' : Template}
    (ht : Template.TwinIn w.regions t t') : Sim w Outputs (template walk t) (template walk t') := by
  unfold template
  rw [ht.twin.file, ht.twin.frontMatter]
  exact sim_withFile _ (sim_withFrame _ (hwalk w _ t t' _ _ ht.alike ht.twin.roots))

/-- Nodes of the output that stand for each other have the same text. -/
theorem sim_markup {roots roots' : List NodeId} (h : Outputs w roots roots') :
    Sim w Same (markup roots) (markup roots') := by
  intro w₁ hw₁ c c' hc
  obtain ⟨ts, ts', hts, hts', hshown⟩ := hc.exists_trees (h.mono hw₁)
  rw [run_markup_of_trees hts, run_markup_of_trees hts', printForest_eq_of_shown hshown]
  exact ⟨w₁, le_refl w₁, hc, .ok rfl⟩

/-- Twin templates have the same text, or fail for the same reason. The ids of the two outputs
differ; what is printed does not show them. -/
theorem sim_page {t t' : Template} (ht : Template.TwinIn w.regions t t') :
    Sim w Same (page t) (page t') :=
  Act.sim_bind (sim_template (sim_nodes depthLimit) ht) fun _ _ _ _ hroots => sim_markup hroots

end Render
end Stencil
