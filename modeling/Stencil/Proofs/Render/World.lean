import Mathlib.Order.Basic
import Stencil.Proofs.Library.Alike
import Stencil.Proofs.Markup.Levels
import Stencil.Proofs.Markup.Shown
import Stencil.Proofs.Render.Run

/-!
# Contexts that are alike

## Main definitions

* `World` — what stands for each other on two sides: regions of templates, and nodes of the output
* `Act.Sim` — acts that keep two states related and give related results
* `Template.Alike` — templates of which some nodes are evaluated alike
* `Context.Alike` — contexts that no evaluation tells apart by what it shows

## Main results

* `Act.sim_bind` — related acts one after the other are related
* `Context.Alike.seen_contains_eq` — what was rendered once on one side was so on the other

## Design notes

The relation of two acts speaks of all worlds after a given one, so that what is related before an
act may be used after it.  Nodes of the output stand for each other if the trees below them are
shown alike; a tree stays as it is while the output grows, so nodes that stand for each other go on
doing so, and neither side has to know how many nodes the other one has added.
-/

namespace Stencil

open Markup

/-! ### Worlds -/

/-- What stands for each other on two sides: the regions of their templates, and the nodes of their
outputs. -/
structure World where
  regions : Regions
  outputs : NodeId → NodeId → Prop

namespace World

/-- A world comes before the worlds where more stands for each other. -/
instance : Preorder World where
  le w w' := w.regions ⊆ w'.regions ∧ ∀ id id', w.outputs id id' → w'.outputs id id'
  le_refl w := ⟨List.Subset.refl w.regions, fun _ _ h => h⟩
  le_trans _ _ _ h h' := ⟨List.Subset.trans h.1 h'.1, fun id id' ho => h'.2 id id' (h.2 id id' ho)⟩

variable {w w' : World}

/-- A world without any output. -/
def ofRegions (regions : Regions) : World := ⟨regions, fun _ _ => False⟩

/-- More regions stand for each other. -/
def withRegions (w : World) (regions : Regions) : World := { w with regions }

theorem le_withRegions {regions : Regions} (h : w.regions ⊆ regions) : w ≤ w.withRegions regions :=
  ⟨h, fun _ _ ho => ho⟩

/-- Two more nodes of the output stand for each other. -/
def withOutput (w : World) (id id' : NodeId) : World :=
  { w with outputs := fun i i' => (i = id ∧ i' = id') ∨ w.outputs i i' }

theorem le_withOutput (w : World) (id id' : NodeId) : w ≤ w.withOutput id id' :=
  ⟨List.Subset.refl w.regions, fun _ _ ho => .inr ho⟩

theorem outputs_withOutput (w : World) (id id' : NodeId) : (w.withOutput id id').outputs id id' :=
  .inl ⟨rfl, rfl⟩

end World

/-! ### Related acts -/

section Acts

variable {σ α β α' β' : Type} {Rel : World → σ → σ → Prop} {w w' : World}
variable {R : World → α → α' → Prop} {S : World → β → β' → Prop}

/-- The acts keep states related and give related results, in all worlds after a given one. Worlds
grow, since both sides allocate nodes and load files on their own. -/
def Act.Sim (Rel : World → σ → σ → Prop) (w : World) (R : World → α → α' → Prop) (act : Act σ α)
    (act' : Act σ α') : Prop :=
  ∀ w₁, w ≤ w₁ → ∀ s s', Rel w₁ s s' →
    ∃ w₂, w₁ ≤ w₂ ∧ Rel w₂ (act.run s).2 (act'.run s').2 ∧
      Outcome (R w₂) (act.run s).1 (act'.run s').1

/-- The results are the same, whatever the world. -/
def Same (_ : World) (a b : α) : Prop := a = b

namespace Act

theorem Sim.mono {act : Act σ α} {act' : Act σ α'} (h : Sim Rel w R act act') (hw : w ≤ w') :
    Sim Rel w' R act act' :=
  fun w₁ hw₁ => h w₁ (hw.trans hw₁)

theorem sim_pure {a : α} {a' : α'} (h : ∀ w₁, w ≤ w₁ → R w₁ a a') :
    Sim Rel w R (pure a) (pure a') :=
  fun w₁ hw₁ _ _ hs => ⟨w₁, le_refl w₁, hs, .ok (h w₁ hw₁)⟩

theorem sim_throw (halt : Halt) : Sim Rel w R (throw halt) (throw halt) :=
  fun w₁ _ _ _ hs => ⟨w₁, le_refl w₁, hs, .error halt⟩

/-- Related acts one after the other are related. The world may have grown in the first one, and the
second one begins with the world as it is then. -/
theorem sim_bind {act : Act σ α} {act' : Act σ α'} {next : α → Act σ β} {next' : α' → Act σ β'}
    (h : Sim Rel w R act act')
    (hn : ∀ w₁, w ≤ w₁ → ∀ a a', R w₁ a a' → Sim Rel w₁ S (next a) (next' a')) :
    Sim Rel w S (act >>= next) (act' >>= next') := by
  intro w₁ hw₁ s s' hs
  obtain ⟨w₂, hw₂, hs₂, hout⟩ := h w₁ hw₁ s s' hs
  rw [Act.run_bind, Act.run_bind]
  generalize act.run s = done at hs₂ hout ⊢
  generalize act'.run s' = done' at hs₂ hout ⊢
  obtain ⟨result, s₂⟩ := done
  obtain ⟨result', s₂'⟩ := done'
  cases hout with
  | error halt => exact ⟨w₂, hw₂, hs₂, .error halt⟩
  | ok hab =>
      obtain ⟨w₃, hw₃, hs₃, hout₃⟩ := hn w₂ (hw₁.trans hw₂) _ _ hab w₂ (le_refl w₂) _ _ hs₂
      exact ⟨w₃, hw₂.trans hw₃, hs₃, hout₃⟩

/-- After an act with the same result on both sides the second acts start from that result. -/
theorem sim_bind_same {act act' : Act σ α} {next : α → Act σ β} {next' : α → Act σ β'}
    (h : Sim Rel w Same act act')
    (hn : ∀ w₁, w ≤ w₁ → ∀ a, Sim Rel w₁ S (next a) (next' a)) :
    Sim Rel w S (act >>= next) (act' >>= next') :=
  sim_bind h fun w₁ hw₁ a _ e => e ▸ hn w₁ hw₁ a

end Act
end Acts

/-! ### What stands for each other -/

/-- Keys that differ in the region of a template alone. -/
inductive OnceKey.Twin (w : World) : OnceKey → OnceKey → Prop where
  | node {id id' : NodeId} : (id.region, id'.region) ∈ w.regions → id.index = id'.index →
      OnceKey.Twin w (.node id) (.node id')
  | text (s : String) : OnceKey.Twin w (.text s) (.text s)

/-- Nodes of two templates are evaluated alike: they stand for each other, and so does what renders
once among them. -/
structure Template.Alike (w : World) (R : NodeId → NodeId → Prop) (t t' : Template) : Prop where
  bisim : t.Bisim R t'
  keys : ∀ id id' e e', R id id' → t.element? id = some e → t'.element? id' = some e' →
    Option.Rel (OnceKey.Twin w) (onceKey? id e) (onceKey? id' e')

/-- Nodes of the output that stand for each other. -/
def Outputs (w : World) (ids ids' : List NodeId) : Prop := List.Forall₂ w.outputs ids ids'

/-- Content of slots that gives the same. -/
inductive SlotContent.Twin (w : World) : SlotContent → SlotContent → Prop where
  | nodes {ids ids' : List NodeId} : Outputs w ids ids' →
      SlotContent.Twin w (.nodes ids) (.nodes ids')
  | scoped {R : NodeId → NodeId → Prop} {t t' : Template} {id id' : NodeId}
      (binding : SlotBinding) : t.Alike w R t' → R id id' →
      SlotContent.Twin w (.scoped t id binding) (.scoped t' id' binding)

/-- All that an include passes gives the same. -/
abbrev SlotScope.Twin (w : World) : SlotScope → SlotScope → Prop := Dict.Alike (SlotContent.Twin w)

/-- The trees below two nodes are shown alike. -/
def ShownAlike (a a' : Arena) (id id' : NodeId) : Prop :=
  ∃ t t', a.tree? id = some t ∧ a'.tree? id' = some t' ∧ t.shown = t'.shown

/-- No evaluation tells the contexts apart by what it shows. Ids and regions may differ; variables,
files and what was seen are the same up to them. -/
structure Context.Alike (w : World) (c c' : Context) : Prop where
  library : c.library.Alike w.regions c'.library
  scope : c.scope = c'.scope
  chain : c.chain = c'.chain
  tags : c.tags = c'.tags
  seen : List.Forall₂ (OnceKey.Twin w) c.seen c'.seen
  slots : List.Forall₂ (SlotScope.Twin w) c.slots c'.slots
  out : ∀ id id', w.outputs id id' → ShownAlike c.out c'.out id id'

variable {w w' : World}

theorem OnceKey.Twin.mono {key key' : OnceKey} (h : key.Twin w key') (hw : w ≤ w') :
    key.Twin w' key' := by
  cases h with
  | node hregion hindex => exact .node (hw.1 hregion) hindex
  | text s => exact .text s

/-- Twin keys are equal on one side when they are on the other. Regions are paired one to one, so
ids that differ on one side differ on the other. -/
theorem OnceKey.Twin.eq_iff {key key' other other' : OnceKey} (hw : w.regions.Matched)
    (h : key.Twin w key') (ho : other.Twin w other') : key = other ↔ key' = other' := by
  cases h with
  | text s =>
      cases ho with
      | text s' => rfl
      | node _ _ => simp
  | @node id id' hregion hindex =>
      cases ho with
      | text s' => simp
      | @node o o' horegion hoindex =>
          have hmatched := hw _ hregion _ horegion
          obtain ⟨r, i⟩ := id
          obtain ⟨r', i'⟩ := id'
          obtain ⟨q, j⟩ := o
          obtain ⟨q', j'⟩ := o'
          simp only [NodeId.mk.injEq, OnceKey.node.injEq] at hmatched hindex hoindex ⊢
          rw [hmatched, hindex, hoindex]

theorem Template.Alike.mono {R : NodeId → NodeId → Prop} {t t' : Template} (h : t.Alike w R t')
    (hw : w ≤ w') : t.Alike w' R t' where
  bisim := h.bisim
  keys id id' e e' hid he he' := by
    have hkey := h.keys id id' e e' hid he he'
    rcases rel_cases hkey with ⟨hn, hn'⟩ | ⟨key, key', hn, hn', htwin⟩
    · rw [hn, hn']
      exact .none
    · rw [hn, hn']
      exact .some (htwin.mono hw)

/-- Templates that differ in their regions alone are evaluated alike. Ids at the same position stand
for each other, also as keys of what renders once. -/
theorem Template.TwinIn.alike {t t' : Template} (h : t.TwinIn w.regions t') :
    t.Alike w (NodeId.Twin t.region t'.region) t' where
  bisim := h.twin.bisim
  keys id id' e e' hid he he' := by
    have hrel := h.twin.bisim.element? hid
    rw [he, he'] at hrel
    cases hrel with
    | some htwin =>
        unfold onceKey? Element.has Element.get?
        rw [htwin.attributes]
        cases e'.attributes.lookup "v-once-id" with
        | some text => exact .some (.text text)
        | none =>
            dsimp only
            split
            · refine .some (.node ?_ hid.index)
              rw [hid.region, hid.region']
              exact h.paired
            · exact .none

theorem Outputs.mono {ids ids' : List NodeId} (h : Outputs w ids ids') (hw : w ≤ w') :
    Outputs w' ids ids' :=
  h.imp fun id id' => hw.2 id id'

theorem SlotContent.Twin.mono {content content' : SlotContent} (h : content.Twin w content')
    (hw : w ≤ w') : content.Twin w' content' :=
  match h with
  | .nodes hids => .nodes (hids.mono hw)
  | .scoped binding ht hid => .scoped binding (ht.mono hw) hid

theorem SlotScope.Twin.mono {slots slots' : SlotScope} (h : slots.Twin w slots') (hw : w ≤ w') :
    slots.Twin w' slots' :=
  Dict.Alike.mono h fun _ _ hcontent => hcontent.mono hw

/-- Trees are shown alike while both arenas grow. -/
theorem ShownAlike.extends {a a' b b' : Arena} {id id' : NodeId} (h : ShownAlike a a' id id')
    (ha : a.Extends b) (ha' : a'.Extends b') : ShownAlike b b' id id' := by
  obtain ⟨t, t', ht, ht', hshown⟩ := h
  exact ⟨t, t', ha.tree? ht, ha'.tree? ht', hshown⟩

namespace Context.Alike

variable {c c' : Context}

theorem functions_eq (h : c.Alike w c') : c.functions = c'.functions := h.library.functions

/-- A key was met on one side when its twin was on the other. The regions are matched one to one, so
that no key has two twins. -/
theorem seen_contains_eq (h : c.Alike w c') {key key' : OnceKey} (hkey : key.Twin w key') :
    c.seen.contains key = c'.seen.contains key' := by
  have hmatched := h.library.matched
  have hseen := h.seen
  generalize c.seen = seen at hseen ⊢
  generalize c'.seen = seen' at hseen ⊢
  induction hseen with
  | nil => rfl
  | @cons other other' _ _ hother _ ih =>
      have heq : (key == other) = (key' == other') :=
        Bool.eq_iff_iff.2 (by simpa using hkey.eq_iff hmatched hother)
      rw [List.contains_cons, List.contains_cons, ih, heq]

/-- The output of both sides grows, and a node of the one stands for a node of the other. -/
theorem grow (h : c.Alike w c') {out out' : Arena} (hext : c.out.Extends out)
    (hext' : c'.out.Extends out') {id id' : NodeId} (hnew : ShownAlike out out' id id') :
    Context.Alike (w.withOutput id id') { c with out } { c' with out := out' } where
  library := h.library
  scope := h.scope
  chain := h.chain
  tags := h.tags
  seen := h.seen.imp fun _ _ hkey => hkey.mono (w.le_withOutput id id')
  slots := h.slots.imp fun _ _ hslots => hslots.mono (w.le_withOutput id id')
  out := by
    rintro i i' (⟨rfl, rfl⟩ | hold)
    · exact hnew
    · exact (h.out i i' hold).extends hext hext'

/-- The trees below nodes of the output that stand for each other. -/
theorem exists_trees (h : c.Alike w c') {ids ids' : List NodeId} (hids : Outputs w ids ids') :
    ∃ ts ts', List.Forall₂ (fun id t => c.out.tree? id = some t) ids ts ∧
      List.Forall₂ (fun id t => c'.out.tree? id = some t) ids' ts' ∧
      List.Forall₂ (fun t t' => Tree.shown t = Tree.shown t') ts ts' := by
  induction hids with
  | nil => exact ⟨[], [], .nil, .nil, .nil⟩
  | cons hid _ ih =>
      obtain ⟨t, t', ht, ht', hshown⟩ := h.out _ _ hid
      obtain ⟨ts, ts', hts, hts', hall⟩ := ih
      exact ⟨t :: ts, t' :: ts', .cons ht hts, .cons ht' hts', .cons hshown hall⟩

end Context.Alike

namespace Render

/-- The text of nodes with trees below them. -/
theorem run_markup_of_trees {c : Context} {roots : List NodeId} {ts : List Tree}
    (h : List.Forall₂ (fun id t => c.out.tree? id = some t) roots ts) :
    (markup roots).run c = (.ok (printForest ts), c) := by
  rw [markup, Act.run_get_bind, Arena.mapM_of_forall₂ h]
  rfl

end Render
end Stencil
