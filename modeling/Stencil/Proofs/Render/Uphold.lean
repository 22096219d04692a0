import Stencil.Proofs.Markup.WellFormed
import Stencil.Proofs.Render.Step

/-!
# Invariants of the output

What holds of the output of a render, and of the nodes that stand for its pieces, because it holds
whenever a node is allocated above such nodes.

## Main definitions

* `Context.Upholds` — an invariant holds of the output and of all nodes that were passed to slots
* `Render.Spares` — a piece that adds nothing to the output
* `Render.Delivers`, `Render.Upholds` — a piece after which the invariant holds of the output, and
  of the nodes that it gives

## Main results

* `Render.upholds_nodes` — siblings uphold every invariant, at whatever depth and however they end

## Design notes

The only nodes that a piece gives without having allocated them are those that were passed to a
slot; hence an invariant of a context speaks of its slots, too.  Slots and old nodes stay as they
are by `Render.Keeps`, so that only the output after a piece is to be told here.
-/

namespace Stencil

open Markup

variable {I : Arena.Invariant}

/-- An invariant holds of the output, and of all nodes that the includes around have passed. -/
structure Context.Upholds (I : Arena.Invariant) (c : Context) : Prop where
  sound : I.Sound c.out
  passed : ∀ own ∈ c.slots, ∀ name ids, Dict.get? own name = some (.nodes ids) →
    ∀ id ∈ ids, I.Good c.out id

namespace Context

variable {c c' : Context}

/-- Whoever adds to the output in a sound way, and passes no new slots, upholds the invariant. -/
theorem Upholds.of_extends (hc : c.Upholds I) (hsound : I.Sound c'.out)
    (hout : c.out.Extends c'.out) (hslots : c'.slots ⊆ c.slots) : c'.Upholds I where
  sound := hsound
  passed own hown name ids hget id hid :=
    I.good_of_extends hout (hc.passed own (hslots hown) name ids hget id hid)

/-- After a piece that keeps the balance only the output has to be looked at, since the slots are
those before. -/
theorem Balanced.upholds {names : String → Prop} (h : c.Balanced names c') (hc : c.Upholds I)
    (hsound : I.Sound c'.out) : c'.Upholds I :=
  hc.of_extends hsound h.out (h.slots ▸ List.Subset.refl _)

end Context

namespace Render

variable {α β : Type} {c c' : Context}

/-! ### Pieces that add nothing to the output -/

/-- The output after a piece is that before it. -/
def Spares (act : Render α) : Prop := ∀ c : Context, (act.run c).2.out = c.out

theorem Spares.out_eq {act : Render α} {result : Except Halt α} (h : Spares act)
    (hrun : act.run c = (result, c')) : c'.out = c.out := by
  have hout := h c
  rw [hrun] at hout
  exact hout

theorem spares_pure (a : α) : Spares (pure a) := fun _ => rfl

/-- Two pieces that leave the output alone leave it alone together. -/
theorem spares_bind {act : Render α} {next : α → Render β} (h : Spares act)
    (hn : ∀ a, Spares (next a)) : Spares (act >>= next) := by
  intro c
  rcases hrun : act.run c with ⟨halt | a, c₁⟩
  · rw [Act.run_bind_of_error hrun]
    exact h.out_eq hrun
  · rw [Act.run_bind_of_ok hrun]
    exact (hn a c₁).trans (h.out_eq hrun)

/-- What only reads the scope leaves the output alone. -/
theorem Readonly.spares {act : Render α} (h : Readonly act) : Spares act := by
  obtain ⟨f, -, rfl⟩ := h
  intro c
  rw [run_evaluate]
  rfl

theorem spares_load (file : String) : Spares (load file) := by
  intro c
  rw [run_load]
  rfl

theorem spares_isDue (id : NodeId) (e : Element) : Spares (isDue id e) := by
  unfold isDue
  split
  · intro c
    rw [run_firstTime]
    split
    · rfl
    · rfl
  · exact spares_pure true

theorem spares_setBindings (attributes : Attributes) : Spares (setBindings attributes) := by
  induction attributes with
  | nil => exact spares_pure ()
  | cons entry rest ih =>
      unfold setBindings
      split
      · exact ih
      · split
        · have hset : ∀ name value, Spares (setVariable name value) := fun _ _ _ => rfl
          exact spares_bind (readonly_bound _).spares fun v => spares_bind (hset _ v) fun _ => ih
        · exact ih

/-! ### Ways to put pieces together -/

/-- However a piece ends, the invariant holds of the output; it holds of the nodes that it gives. A
failure gives no nodes, but leaves an output behind. -/
structure Delivers (I : Arena.Invariant) (act : Render (List NodeId)) (c : Context) : Prop where
  sound : I.Sound (act.run c).2.out
  good : ∀ ids c', act.run c = (.ok ids, c') → ∀ id ∈ ids, I.Good c'.out id

/-- Where an invariant holds, the piece delivers. The invariant is a parameter: that all nodes given
out have trees is one of its uses. -/
def Upholds (I : Arena.Invariant) (act : Render (List NodeId)) : Prop :=
  ∀ c : Context, c.Upholds I → Delivers I act c

theorem Delivers.sound_of_run {act : Render (List NodeId)} {result : Except Halt (List NodeId)}
    (h : Delivers I act c) (hrun : act.run c = (result, c')) : I.Sound c'.out := by
  have hsound := h.sound
  rw [hrun] at hsound
  exact hsound

/-- What a successful run has to show: a sound output, and good nodes in it. -/
theorem delivers_of_ok {act : Render (List NodeId)} {ids : List NodeId}
    (hrun : act.run c = (.ok ids, c')) (hsound : I.Sound c'.out)
    (hgood : ∀ id ∈ ids, I.Good c'.out id) : Delivers I act c where
  sound := by
    rw [hrun]
    exact hsound
  good := by
    intro ids' c'' hrun'
    obtain ⟨hids, rfl⟩ := Prod.mk.inj (hrun.symm.trans hrun')
    obtain rfl := Except.ok.inj hids
    exact hgood

/-- After a failure there are no nodes to speak of, but the output has to be sound. -/
theorem delivers_of_error {act : Render (List NodeId)} {halt : Halt}
    (hrun : act.run c = (.error halt, c')) (hsound : I.Sound c'.out) : Delivers I act c where
  sound := by
    rw [hrun]
    exact hsound
  good := fun _ _ hok => nomatch congrArg Prod.fst (hrun.symm.trans hok)

theorem delivers_pure {ids : List NodeId} (hsound : I.Sound c.out)
    (hgood : ∀ id ∈ ids, I.Good c.out id) : Delivers I (pure ids) c :=
  delivers_of_ok rfl hsound hgood

theorem upholds_nil : Upholds I (pure []) := fun _ hc => delivers_pure hc.sound nofun

theorem upholds_throw (halt : Halt) : Upholds I (throw halt) :=
  fun _ hc => delivers_of_error rfl hc.sound

/-- A second piece has to deliver only where the first one ends well. -/
theorem delivers_bind {act : Render α} {next : α → Render (List NodeId)}
    (hsound : I.Sound (act.run c).2.out)
    (hn : ∀ a c', act.run c = (.ok a, c') → Delivers I (next a) c') :
    Delivers I (act >>= next) c := by
  rcases hrun : act.run c with ⟨halt | a, c₁⟩
  · rw [hrun] at hsound
    exact delivers_of_error (Act.run_bind_of_error hrun next) hsound
  · have hnext := hn a c₁ hrun
    have hbind := Act.run_bind_of_ok hrun next
    exact ⟨by rw [hbind]; exact hnext.sound, by rw [hbind]; exact hnext.good⟩

/-- What comes before a piece may change all but the output. -/
theorem upholds_bind {act : Render α} {next : α → Render (List NodeId)}
    (hkeeps : Keeps (fun _ => True) act) (hspares : Spares act) (hn : ∀ a, Upholds I (next a)) :
    Upholds I (act >>= next) := by
  intro c hc
  have hsound : ∀ {result c'}, act.run c = (result, c') → I.Sound c'.out := fun hrun =>
    (hspares.out_eq hrun).symm ▸ hc.sound
  exact delivers_bind (hsound rfl) fun a c₁ hrun =>
    hn a c₁ ((hkeeps.balanced hrun).upholds hc (hsound hrun))

/-- A piece that only reads changes neither the output nor the slots, so what comes after it may
start from the same context. -/
theorem Readonly.upholds_bind {act : Render α} {next : α → Render (List NodeId)}
    (h : Readonly act) (hn : ∀ a, Upholds I (next a)) : Upholds I (act >>= next) :=
  Render.upholds_bind h.keeps h.spares hn

/-- What stood in the output before another piece still stands there after it. -/
theorem delivers_append {here : List NodeId} {rest : Render (List NodeId)}
    (hhere : ∀ id ∈ here, I.Good c.out id) (hkeeps : Keeps (fun _ => True) rest)
    (h : Delivers I rest c) : Delivers I (do return here ++ (← rest)) c := by
  refine delivers_bind h.sound fun others c₁ hothers => ?_
  refine delivers_pure (h.sound_of_run hothers) (List.forall_mem_append.2 ⟨fun id hid => ?_, ?_⟩)
  · exact I.good_of_extends (hkeeps.balanced hothers).out (hhere id hid)
  · exact h.good others c₁ hothers

/-- Nodes that one piece gives stay good while the next piece adds to the output. -/
theorem upholds_append {act rest : Render (List NodeId)} (hact : Keeps (fun _ => True) act)
    (hrest : Keeps (fun _ => True) rest) (h : Upholds I act) (h' : Upholds I rest) :
    Upholds I (do
      let here ← act
      let others ← rest
      return here ++ others) := by
  intro c hc
  have hdelivers := h c hc
  refine delivers_bind hdelivers.sound fun here c₁ hhere => ?_
  refine delivers_append (hdelivers.good here c₁ hhere) hrest (h' c₁ ?_)
  exact (hact.balanced hhere).upholds hc (hdelivers.sound_of_run hhere)

/-- What is evaluated between two changes of the context that leave the output alone. -/
theorem delivers_within {enter leave : Context → Context} {act : Render (List NodeId)}
    (hleave : ∀ c, (leave c).out = c.out) (h : Delivers I act (enter c)) :
    Delivers I (within enter leave act) c := by
  refine ⟨?_, fun ids c' hrun => ?_⟩
  · rw [run_within, hleave]
    exact h.sound
  · obtain ⟨c₁, hinside, rfl⟩ := exists_of_run_within hrun
    rw [hleave]
    exact h.good ids c₁ hinside

theorem upholds_withFrame {act : Render (List NodeId)} (h : Upholds I act) (frame : Frame) :
    Upholds I (withFrame frame act) :=
  fun c hc => delivers_within (fun _ => rfl) (h (c.inFrame frame) ⟨hc.sound, hc.passed⟩)

theorem upholds_withTag {act : Render (List NodeId)} (h : Upholds I act) (tag : String) :
    Upholds I (withTag tag act) :=
  fun c hc => delivers_within (fun _ => rfl) (h (c.inTag tag) ⟨hc.sound, hc.passed⟩)

/-- Content is evaluated with fewer slots, so the nodes that were passed stay good. -/
theorem upholds_outsideSlots {act : Render (List NodeId)} (h : Upholds I act) (own : SlotScope) :
    Upholds I (outsideSlots own act) := by
  intro c hc
  have houtside : c.outside.Upholds I :=
    hc.of_extends hc.sound (.refl _) (List.tail_sublist c.slots).subset
  exact delivers_within (fun _ => rfl) (h c.outside houtside)

/-- The file being evaluated plays no part in the output. -/
theorem delivers_withFile {act : Render (List NodeId)} {file : String}
    (h : Delivers I act (c.inFile file)) : Delivers I (withFile file act) c := by
  refine delivers_within (fun _ => rfl) ⟨?_, fun ids c' hrun => ?_⟩
  · rw [run_annotated]
    exact h.sound
  · exact h.good ids c' (of_run_annotated hrun)

/-- A new node is good where its children are, which were allocated before it. -/
theorem delivers_allocated {node : Node} (hsound : I.Sound c.out)
    (hnode : ∀ e, node.element? = some e → ∀ child ∈ e.children, I.Good c.out child) :
    Delivers I (do return [← allocate node]) c := by
  obtain ⟨hsound', hgood⟩ := I.push hsound hnode
  exact delivers_of_ok (run_allocated node c) hsound' fun id hid => List.mem_singleton.1 hid ▸ hgood

/-- A node that is no element. -/
theorem upholds_allocated_leaf {node : Node} (hnode : node.element? = none) :
    Upholds I (do return [← allocate node]) :=
  fun _ hc => delivers_allocated hc.sound fun _ he => nomatch hnode.symm.trans he

theorem delivers_allocated_element {e : Element} (hsound : I.Sound c.out)
    (hchildren : ∀ child ∈ e.children, I.Good c.out child) :
    Delivers I (do return [← allocate (.element e)]) c := by
  refine delivers_allocated hsound fun e' he' => ?_
  obtain rfl := Option.some.inj he'
  exact hchildren

/-- A copied node is new with all that is below it, and the arena it comes from is left as it was.
-/
theorem upholds_copy (t : Template) (id : NodeId) : Upholds I (copy t id) := by
  intro c hc
  have hrun := run_copy t id c
  rw [Arena.deepCopy?] at hrun
  cases htree : t.arena.tree? id with
  | none =>
      rw [htree] at hrun
      exact delivers_of_error hrun hc.sound
  | some tree =>
      rw [htree] at hrun
      obtain ⟨hsound, hgood⟩ := I.plant hc.sound tree
      exact delivers_of_ok hrun hsound fun id hid => List.mem_singleton.1 hid ▸ hgood

/-- A text is a node without children. -/
theorem upholds_text (s : String) : Upholds I (text s) := by
  unfold text
  split
  · intro c hc
    have hread : Upholds I (do
        let s ← evaluate (Interpolation.interpolate · s !((c.tags.head?.map isRawText).getD false))
        return [← allocate (.text s)]) :=
      (readonly_evaluate fun scope => Interpolation.textual_interpolate scope _ _).upholds_bind
        fun s => upholds_allocated_leaf rfl
    have hrun := Act.run_get_bind (fun c : Context => (do
      let s ← evaluate (Interpolation.interpolate · s !((c.tags.head?.map isRawText).getD false))
      return [← allocate (.text s)] : Render (List NodeId))) c
    exact ⟨by rw [hrun]; exact (hread c hc).sound, by rw [hrun]; exact (hread c hc).good⟩
  · exact upholds_allocated_leaf rfl

/-! ### Siblings -/

section Siblings

variable {t : Template} {node : NodeId → Render (List NodeId)}
variable (hkeeps : ∀ id, Keeps (fun _ => True) (node id)) (hnode : ∀ id, Upholds I (node id))

include hnode in
/-- A chain gives the nodes of its first alternative that holds. -/
theorem upholds_chain (ids : List NodeId) : Upholds I (chain node t ids) := by
  induction ids with
  | nil => exact upholds_nil
  | cons id members ih =>
      refine (readonly_holds t id).upholds_bind fun found => ?_
      cases found with
      | true => exact hnode id
      | false => exact ih

include hkeeps hnode

/-- The nodes of siblings are those of their groups one after the other; the induction is on the
bound, as in the definition. -/
theorem upholds_groups (bound : Nat) : ∀ ids, Upholds I (groups node t bound ids) := by
  induction bound with
  | zero =>
      intro ids
      unfold groups
      exact upholds_nil
  | succ bound ih =>
      intro ids
      have hrest : ∀ ids, Keeps (fun _ => True) (groups node t bound ids) :=
        fun ids => keeps_groups bound fun id _ => hkeeps id
      cases ids with
      | nil =>
          unfold groups
          exact upholds_nil
      | cons id ids =>
          unfold groups
          split
          · exact upholds_append (keeps_chain fun id _ => hkeeps id) (hrest _)
              (upholds_chain hnode _) (ih _)
          · exact ih ids
          · intro c hc
            have hloop := hnode id c hc
            refine delivers_bind hloop.sound fun here c₁ hhere => ?_
            have hc₁ := ((hkeeps id).balanced hhere).upholds hc (hloop.sound_of_run hhere)
            split
            · exact upholds_append (hkeeps _) (hrest _) (hnode _) (ih _) c₁ hc₁
            · exact delivers_append (hloop.good _ c₁ hhere) (hrest _) (ih _ c₁ hc₁)
          · exact upholds_append (hkeeps id) (hrest ids) (hnode id) (ih ids)

end Siblings

/-! ### Constructs -/

section Constructs

variable {depth : Nat} (hwalk : ∀ t ids, Upholds I (nodes depth t ids))
variable {t : Template} {id : NodeId} {e : Element}

/-- The nodes of a loop are those of its iterations one after the other. -/
theorem upholds_eachEntry {body : Render (List NodeId)} (hkeeps : Keeps (fun _ => True) body)
    (h : Upholds I body) (clause : LoopClause) (entries : List (Value × Value)) :
    Upholds I (eachEntry clause body entries) := by
  induction entries with
  | nil => exact upholds_nil
  | cons entry entries ih =>
      exact upholds_append (keeps_withFrame hkeeps _) (keeps_eachEntry hkeeps clause entries)
        (upholds_withFrame h _) ih

theorem upholds_loop {body : Render (List NodeId)} (hkeeps : Keeps (fun _ => True) body)
    (h : Upholds I body) (source : String) : Upholds I (loop source body) := by
  unfold loop
  split
  · exact upholds_throw _
  · exact (readonly_collection? _).upholds_bind fun _ => upholds_eachEntry hkeeps h _ _

include hwalk

/-- A template element gives what its children give, or one new node with a payload. -/
theorem upholds_wrapper : Upholds I (wrapper (nodes depth) t e) := by
  refine (readonly_require _).upholds_bind fun _ => ?_
  refine upholds_bind (keeps_setBindings fun _ _ => trivial) (spares_setBindings _) fun _ => ?_
  refine (readonly_directive? e "v-html").upholds_bind fun html? => ?_
  cases html? with
  | some html => exact upholds_allocated_leaf rfl
  | none => exact hwalk t e.children

/-- An output element is allocated above the nodes that its children give, which are good by then;
so the new node is good by what the invariant asks of elements. -/
theorem upholds_element : Upholds I (element (nodes depth) t e) := by
  refine (readonly_payload? e).upholds_bind fun payload => ?_
  refine (readonly_attributesOf e).upholds_bind fun attributes => ?_
  have hbody : Upholds I (if payload.isSome = true then pure []
      else withTag e.tag (nodes depth t e.children)) := by
    split
    · exact upholds_nil
    · exact upholds_withTag (hwalk t e.children) e.tag
  intro c hc
  have hchildren := hbody c hc
  have hdone : Delivers I ((if payload.isSome = true then pure []
      else withTag e.tag (nodes depth t e.children)) >>= fun children =>
        do return [← allocate (.element ⟨e.tag, attributes, children, payload⟩)]) c :=
    delivers_bind hchildren.sound fun children c₁ hrun =>
      delivers_allocated_element (hchildren.sound_of_run hrun) (hchildren.good children c₁ hrun)
  dsimp only
  split <;> rename_i hpayload
  · rw [if_pos hpayload] at hdone
    exact hdone
  · rw [if_neg hpayload] at hdone
    exact hdone

/-- However an include collects its content, the output is sound; what was collected is good. It
stays good while the component is evaluated, as outputs only grow. -/
theorem upholds_includedSlots (hc : c.Upholds I) :
    I.Sound ((includedSlots (nodes depth) t e).run c).2.out ∧
      ∀ slots c', (includedSlots (nodes depth) t e).run c = (.ok slots, c') →
        ∀ name ids, Dict.get? slots name = some (.nodes ids) → ∀ id ∈ ids, I.Good c'.out id := by
  have hdefined : ∀ name ids, Dict.get? (definedSlots t e.children) name ≠ some (.nodes ids) := by
    intro name ids hget
    obtain ⟨child, -, hpair⟩ := List.mem_filterMap.1 (Dict.mem_of_get?_ofPairs hget)
    obtain ⟨found, -, hpair⟩ := Option.map_eq_some_iff.1 hpair
    exact nomatch congrArg Prod.snd hpair
  unfold includedSlots
  dsimp only
  split
  · refine ⟨hc.sound, fun slots c' hrun name ids hget => ?_⟩
    exact absurd ((Act.of_run_pure hrun).1 ▸ hget) (hdefined name ids)
  · have hothers := hwalk t (e.children.filter fun id => (definition? t id).isNone) c hc
    rcases hrun : (nodes depth t (e.children.filter fun id => (definition? t id).isNone)).run c
      with ⟨halt | out, c₁⟩
    · rw [Act.run_bind_of_error hrun]
      exact ⟨hothers.sound_of_run hrun, fun slots c' herror => nomatch congrArg Prod.fst herror⟩
    · rw [Act.run_bind_of_ok hrun]
      split
      · refine ⟨hothers.sound_of_run hrun, fun slots c' hslots name ids hget => ?_⟩
        exact absurd ((Act.of_run_pure hslots).1 ▸ hget) (hdefined name ids)
      · refine ⟨hothers.sound_of_run hrun, fun slots c' hslots name ids hget => ?_⟩
        obtain ⟨rfl, rfl⟩ := Act.of_run_pure hslots
        rw [Dict.get?_insert] at hget
        split at hget
        · obtain rfl := SlotContent.nodes.inj (Option.some.inj hget)
          exact hothers.good out c₁ hrun
        · exact absurd hget (hdefined name ids)

/-- After the file of an include was looked for, the invariant holds, also of what was collected. -/
theorem upholds_inSlots {file : String} {slots : SlotScope} {result : Except Halt Template}
    {c₁ c₂ : Context} (hc : c.Upholds I)
    (hslots : (includedSlots (nodes depth) t e).run c = (.ok slots, c₁))
    (hload : (load file).run c₁ = (result, c₂)) : (c₂.inSlots slots).Upholds I := by
  obtain ⟨hsound, hcollected⟩ := upholds_includedSlots hwalk (t := t) (e := e) hc
  rw [hslots] at hsound
  have hkeeps := keeps_includedSlots (keeps_nodes depth) (t.sets_any e)
  have hloaded : c₂.Upholds I :=
    (balanced_of_load hload).upholds ((hkeeps.balanced hslots).upholds hc hsound)
      ((spares_load file).out_eq hload ▸ hsound)
  refine ⟨hloaded.sound, List.forall_mem_cons.2 ⟨fun name ids hget id hid => ?_, hloaded.passed⟩⟩
  exact I.good_of_extends (balanced_of_load hload).out
    (hcollected slots c₁ hslots name ids hget id hid)

/-- A component is evaluated where the invariant holds. -/
theorem Includes.upholds {component : Template} {own : SlotScope} {collecting inner : Context}
    (h : Includes depth t e c collecting own component inner) (hc : c.Upholds I) :
    inner.Upholds I := by
  cases h with
  | intro hfile hargs hown hload =>
      have hread : collecting.out = c.out :=
        ((readonly_arguments _ _).spares.out_eq hargs).trans
          ((readonly_interpolated _).spares.out_eq hfile)
      have hcollecting := (balanced_of_arguments hfile hargs).upholds hc (hread ▸ hc.sound)
      have hinside := upholds_inSlots hwalk hcollecting hown hload
      exact ⟨hinside.sound, hinside.passed⟩

/-- An include gives what its component gives, where the content that it has collected is among the
slots. -/
theorem upholds_includeFile : Upholds I (includeFile (nodes depth) t e) := by
  refine (readonly_interpolated _).upholds_bind fun file => ?_
  refine (readonly_arguments e.attributes []).upholds_bind fun args => ?_
  intro c hc
  refine delivers_bind (upholds_includedSlots hwalk hc).1 fun slots c₁ hslots => ?_
  refine delivers_bind (upholds_inSlots hwalk hc hslots rfl).sound fun component c₂ hload => ?_
  have hinside := upholds_inSlots hwalk hc hslots hload
  have hbody : Delivers I (withFile component.file (withSlots slots (withFrame
      (Dict.overlay args component.frontMatter) (nodes depth component component.roots)))) c₂ := by
    refine delivers_withFile (delivers_within (fun _ => rfl) ?_)
    exact upholds_withFrame (hwalk component component.roots) _ _ ⟨hinside.sound, hinside.passed⟩
  refine delivers_bind hbody.sound fun body c₃ hrun => ?_
  split
  · exact delivers_allocated_element (hbody.sound_of_run hrun) (hbody.good body c₃ hrun)
  · exact delivers_pure (hbody.sound_of_run hrun) (hbody.good body c₃ hrun)

/-- A slot gives nodes that were passed, for which the context vouches, or what the passed content
gives. -/
theorem upholds_slot : Upholds I (slot (nodes depth) t e) := by
  intro c hc
  have hpassed := run_passed? ((e.get? "name").getD defaultSlot) c
  refine delivers_bind (by rw [hpassed]; exact hc.sound) fun found c₁ hrun => ?_
  rw [hpassed, Prod.mk.injEq, Except.ok.injEq] at hrun
  obtain ⟨hfound, rfl⟩ := hrun
  rcases found with _ | ⟨own, passed | ⟨definer, child, binding⟩⟩
  · exact hwalk t e.children c hc
  · refine delivers_pure hc.sound ?_
    cases hslots : c.slots with
    | nil =>
        rw [hslots] at hfound
        exact nomatch hfound
    | cons first rest =>
        rw [hslots] at hfound
        obtain ⟨content, hget, hpair⟩ := Option.map_eq_some_iff.1 hfound
        obtain ⟨rfl, rfl⟩ := Prod.mk.inj hpair
        exact hc.passed first (hslots ▸ List.mem_cons_self) _ passed hget
  · refine (readonly_properties e.attributes []).upholds_bind (fun frame => ?_) c hc
    split
    · exact upholds_outsideSlots (upholds_withFrame (hwalk definer _) _) own
    · exact upholds_nil

/-- Whatever construct an element is, it upholds the invariant if its walk does. -/
theorem upholds_nodeOnce : Upholds I (nodeOnce (nodes depth) t id e) := by
  refine upholds_bind keeps_isDue (spares_isDue id e) fun due => ?_
  split
  · exact upholds_nil
  · split
    · exact upholds_copy t id
    · split
      · exact upholds_includeFile hwalk
      · split
        · exact upholds_wrapper hwalk
        · split
          · exact upholds_slot hwalk
          · exact upholds_element hwalk

/-- A node upholds the invariant if all nodes one level deeper do. -/
theorem upholds_node : Upholds I (node (nodes depth) t id) := by
  unfold node
  split
  · exact upholds_throw _
  · exact upholds_text _
  · exact upholds_allocated_leaf rfl
  · rename_i e hget
    split
    · exact upholds_loop (keeps_nodeOnce_any t id e) (upholds_nodeOnce hwalk) _
    · exact upholds_nodeOnce hwalk

end Constructs

/-! ### Templates -/

/-- Siblings uphold every invariant, at whatever depth and however they end. It is proved once for
all invariants of the output; that there is a tree below every node given out is one of them. -/
theorem upholds_nodes (depth : Nat) : ∀ t ids, Upholds I (nodes depth t ids) := by
  induction depth with
  | zero => exact fun t ids => upholds_throw .depth
  | succ depth ih =>
      exact fun t ids => upholds_groups (keeps_node_any t) (fun id => upholds_node ih) _ ids

end Render
end Stencil
