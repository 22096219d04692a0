import Stencil.Proofs.Library.Hierarchy
import Stencil.Proofs.Render.Law
import Stencil.Proofs.Render.Lexical

/-!
# Renders that end

## Main definitions

* `Hierarchy.nesting`, `Hierarchy.fileNesting` — how deep nodes of a file nest
* `Hierarchy.Fits` — siblings nest to a depth at most
* `Hierarchy.Settled` — so does the content that was passed to slots

## Main results

* `Render.run_deeper` — a piece that does not run out of depth is the same with more depth
* `Render.Reaches.fits` — all that a render comes to fits into the depth that is left
* `Render.exists_depth` — files that include only files of smaller rank have a depth that suffices

## Design notes

Neither the rank of the file nor the levels below a node get less on the way from a slot to content
that was passed for it: the content may stand in a file of greater rank.  But when it was passed,
its own nesting was known, for the slots that were around its include; so the slots carry a bound
for the depth that all of their content needs, and content of an include may raise this bound for
the component, where it counts as levels that are passed.
-/

namespace Stencil

open Markup

namespace Render

/-! ### More depth -/

/-- What does not run out of depth is the same with more of it. -/
def Law.deepening : Law where
  Holds act act' c := (act.run c).1 ≠ .error .depth → act'.run c = act.run c
  reads _ _ := rfl
  seq := by
    intro α β act act' next next' c h hn hne
    rcases hrun : act.run c with ⟨halt | a, c₁⟩
    · rw [Act.run_bind_of_error hrun] at hne ⊢
      have hact := h (by rw [hrun]; exact fun e => hne (congrArg _ (Except.error.inj e)))
      exact Act.run_bind_of_error (hact.trans hrun) next'
    · rw [Act.run_bind_of_ok hrun] at hne ⊢
      have hact := h (by rw [hrun]; exact fun e => nomatch e)
      rw [Act.run_bind_of_ok (hact.trans hrun)]
      exact hn a c₁ hrun hne
  change _ _ _ := rfl
  inside := by
    intro α enter leave act act' c _ _ h hne
    rw [run_within] at hne ⊢
    rw [run_within, h hne]
  annotation := by
    intro α act act' c h hne
    rw [run_annotated] at hne ⊢
    have hact : (act.run c).1 ≠ .error .depth := fun e => hne (by rw [e]; rfl)
    rw [run_annotated, h hact]

/-- A piece that does not run out of depth is the same with more of it. It is a law of evaluation,
with the halt for the depth as the only way in which the two could differ. -/
theorem run_deeper (k : Nat) (task : Task) (c : Context)
    (h : (task.act.run c).1 ≠ .error .depth) : (task.deeper k).act.run c = task.act.run c := by
  have halong : Law.deepening.Along k task c :=
    Law.along_of_reaches (fun _ _ _ _ _ _ _ => rfl) (fun _ _ _ _ _ _ _ => rfl)
      fun _ _ _ _ hne => absurd rfl hne
  exact halong h

/-- Nothing but siblings without depth runs out of it. -/
def Law.sufficing : Law where
  Holds act _ c := (act.run c).1 ≠ .error .depth
  reads := by
    rintro α act c ⟨f, -, rfl⟩
    rw [run_evaluate]
    cases (f c.scope).value c.functions <;> exact fun e => nomatch e
  seq := by
    intro α β act act' next next' c h hn
    rcases hrun : act.run c with ⟨halt | a, c₁⟩
    · rw [hrun] at h
      rw [Act.run_bind_of_error hrun]
      exact fun e => h (congrArg Except.error (Except.error.inj e))
    · rw [Act.run_bind_of_ok hrun]
      exact hn a c₁ hrun
  change _ _ e := nomatch e
  inside _ _ h := h
  annotation := by
    intro α act act' c h
    rw [run_annotated]
    rcases hrun : act.run c with ⟨(e | _) | a, c₁⟩
    · exact fun e => nomatch e
    · exact absurd (congrArg Prod.fst hrun) h
    · exact fun e => nomatch e

end Render

/-! ### How deep nodes nest -/

namespace Hierarchy

/-- The depth that siblings of so many levels need, given what `component` says that a file they
include needs, and the depth that content needs which was passed to their file. -/
def nesting (component : Nat → Nat) (passed : Nat) : (levels : Nat) → Nat
  | 0 => 1
  | levels + 1 =>
    let inner := passed + nesting component passed levels
    inner + component inner + 1

/-- The depth that files below a rank need, of so many levels each. No file is below rank zero. -/
def fileNesting (levels : Nat) : (rank : Nat) → (passed : Nat) → Nat
  | 0, _ => 0
  | rank + 1, passed => nesting (fileNesting levels rank) passed levels

theorem nesting_pos (component : Nat → Nat) (passed : Nat) (levels : Nat) :
    0 < nesting component passed levels := by
  cases levels with
  | zero => exact Nat.one_pos
  | succ levels => exact Nat.succ_pos _

/-- Siblings of a file of limited rank and with limited levels, with the depth that they need. -/
structure Room (H : Hierarchy) (settled : Nat → Prop) (bound passed levels : Nat) (t : Template)
    (ids : List NodeId) (depth : Nat) : Prop where
  gives : H.loader.Gives t
  rank_le : H.rank t.file ≤ bound
  settled : settled passed
  trees : ∀ id ∈ ids, ∃ tree, t.arena.treeWithin levels id = some tree
  nesting_le : nesting (fileNesting H.levels bound) passed levels ≤ depth

/-- Siblings nest to a depth at most, where content that was passed may need some depth. `settled`
says of a depth that it is enough for that content. -/
def Fits (H : Hierarchy) (settled : Nat → Prop) (t : Template) (ids : List NodeId) (depth : Nat) :
    Prop :=
  ∃ bound passed levels, H.Room settled bound passed levels t ids depth

/-- The content that was passed to slots needs a depth at most; each piece of it sees the slots
further out. -/
def Settled (H : Hierarchy) : List SlotScope → (depth : Nat) → Prop
  | [], _ => True
  | own :: outer, depth =>
    Settled H outer depth ∧
      ∀ name definer id binding, Dict.get? own name = some (.scoped definer id binding) →
        ∀ content, definer.element? id = some content →
          H.Fits (Settled H outer) definer content.children depth

variable {H : Hierarchy} {settled : Nat → Prop} {bound passed levels depth depth' : Nat}
variable {t component : Template} {ids ids' : List NodeId} {id : NodeId} {e : Element}

theorem Room.mono (h : H.Room settled bound passed levels t ids depth) (hids : ids' ⊆ ids)
    (hle : depth ≤ depth') : H.Room settled bound passed levels t ids' depth' where
  gives := h.gives
  rank_le := h.rank_le
  settled := h.settled
  trees id hid := h.trees id (hids hid)
  nesting_le := h.nesting_le.trans hle

theorem Fits.mono (h : H.Fits settled t ids depth) (hids : ids' ⊆ ids) (hle : depth ≤ depth') :
    H.Fits settled t ids' depth' := by
  obtain ⟨bound, passed, levels, hroom⟩ := h
  exact ⟨bound, passed, levels, hroom.mono hids hle⟩

theorem Fits.of_subset (h : H.Fits settled t ids depth) (hids : ids' ⊆ ids) :
    H.Fits settled t ids' depth :=
  h.mono hids (Nat.le_refl depth)

theorem Settled.mono {slots : List SlotScope} (h : H.Settled slots depth) (hle : depth ≤ depth') :
    H.Settled slots depth' := by
  induction slots with
  | nil => trivial
  | cons own outer ih =>
      refine ⟨ih h.1, fun name definer id binding hget content hcontent => ?_⟩
      exact (h.2 name definer id binding hget content hcontent).mono (List.Subset.refl _) hle

/-- What is below a node has one level less. The rest of its depth is enough for that, for content
that was passed, and for a file that the node includes. -/
theorem Room.below (h : H.Room settled bound passed levels t [id] (depth + 1))
    (he : t.element? id = some e) :
    ∃ inner, passed + nesting (fileNesting H.levels bound) passed inner +
        fileNesting H.levels bound (passed + nesting (fileNesting H.levels bound) passed inner) ≤
          depth ∧
      H.Room settled bound passed inner t e.children
        (nesting (fileNesting H.levels bound) passed inner) := by
  obtain ⟨tree, htree⟩ := h.trees id List.mem_cons_self
  obtain ⟨inner, rfl, htrees⟩ := Arena.exists_tree_of_child htree he
  refine ⟨inner, Nat.le_of_succ_le_succ h.nesting_le, ?_⟩
  exact ⟨h.gives, h.rank_le, h.settled, htrees, Nat.le_refl _⟩

/-- The children of an element fit into the depth that is left for them. -/
theorem Fits.children (h : H.Fits settled t [id] (depth + 1)) (he : t.element? id = some e) :
    H.Fits settled t e.children depth := by
  obtain ⟨bound, passed, levels, hroom⟩ := h
  obtain ⟨inner, hle, hbelow⟩ := hroom.below he
  exact ⟨bound, passed, inner, hbelow.mono (List.Subset.refl _) (by omega)⟩

/-- Content that was passed fits into the depth that is left at its slot. -/
theorem Fits.content {own : SlotScope} {outer : List SlotScope} {definer : Template}
    {name : String} {binding : SlotBinding} {id' : NodeId} {content : Element}
    (h : H.Fits (H.Settled (own :: outer)) t [id] (depth + 1)) (he : t.element? id = some e)
    (hget : Dict.get? own name = some (.scoped definer id' binding))
    (hcontent : definer.element? id' = some content) :
    H.Fits (H.Settled outer) definer content.children depth := by
  obtain ⟨bound, passed, levels, hroom⟩ := h
  obtain ⟨inner, hle, -⟩ := hroom.below he
  have hpassed := hroom.settled.2 name definer id' binding hget content hcontent
  exact hpassed.mono (List.Subset.refl _) (by omega)

/-- What an include collects is settled, and its component fits into the depth that is left. The
component is a file of smaller rank, which is where its need comes from. -/
theorem Fits.included {own : SlotScope} {outer : List SlotScope}
    (h : H.Fits (H.Settled outer) t [id] (depth + 1)) (he : t.element? id = some e)
    (hown : ∀ name definer id' binding, Dict.get? own name = some (.scoped definer id' binding) →
      definer = t ∧ id' ∈ e.children)
    (hgives : H.loader.Gives component) (hrank : H.rank component.file < H.rank t.file) :
    H.Fits (H.Settled (own :: outer)) component component.roots depth := by
  obtain ⟨bound, passed, levels, hroom⟩ := h
  obtain ⟨inner, hle, hbelow⟩ := hroom.below he
  obtain ⟨smaller, rfl⟩ : ∃ smaller, bound = smaller + 1 :=
    ⟨bound - 1, by have := hroom.rank_le; omega⟩
  have hsmaller : H.rank component.file ≤ smaller := by
    have := hroom.rank_le
    omega
  -- The children of the include need less than its file, so the bound can be raised to that.
  refine ⟨smaller, passed + nesting (fileNesting H.levels (smaller + 1)) passed inner, H.levels,
    hgives, hsmaller, ⟨hroom.settled.mono (Nat.le_add_right _ _), ?_⟩, H.trees component hgives, ?_⟩
  · intro name definer id' binding hget content hcontent
    obtain ⟨rfl, hchild⟩ := hown name definer id' binding hget
    have hnested := hbelow.mono (List.cons_subset.2 ⟨hchild, List.nil_subset _⟩)
      (Nat.le_succ _)
    have hfits : H.Fits (H.Settled outer) definer content.children _ :=
      Fits.children ⟨_, _, _, hnested⟩ hcontent
    exact hfits.mono (List.Subset.refl _) (Nat.le_add_left _ _)
  · exact (Nat.le_add_left _ _).trans hle

end Hierarchy

namespace Render

/-! ### All that a render comes to -/

/-- The nodes of a piece fit into its depth. -/
abbrev Task.Fits (H : Hierarchy) (slots : List SlotScope) (task : Task) : Prop :=
  task.Has (fun slots depth t ids => H.Fits (H.Settled slots) t ids depth) slots

variable {H : Hierarchy} {task task' : Task} {c c' : Context} {slots : List SlotScope}

/-- The component of an include is the file that the include names. As names are written out, it is
one of the files that the loader gives. -/
theorem Includes.gives {functions : FunctionTable} {depth : Nat} {t component : Template}
    {e : Element} {collecting inner : Context} {own : SlotScope}
    (h : Includes depth t e c collecting own component inner)
    (hlib : (Library.new H.loader functions).Grows c.library) (ht : H.loader.Gives t) {id : NodeId}
    (he : t.element? id = some e) (htag : e.tag = "vuego") (hhas : e.has "include" = true) :
    H.loader.Gives component ∧ H.rank component.file < H.rank t.file := by
  cases h with
  | @intro _ file _ _ c₁ c₂ c₃ c₄ hfile hargs hslots hload =>
      have hcollecting := (balanced_of_arguments hfile hargs).library
      have hcollected := ((keeps_includedSlots (keeps_nodes depth) (t.sets_any e)).balanced
        hslots).library
      obtain ⟨hgives, hcomponent⟩ := H.gives_of_load ((hlib.trans hcollecting).trans hcollected)
        (of_run_load hload)
      -- The name of the file is the value of the attribute as it is written.
      obtain ⟨name, hname⟩ := Option.isSome_iff_exists.1 hhas
      have hincludes := Template.mem_includes he htag hname
      have hliteral := H.literal ht hincludes
      rw [hname, Option.getD_some, interpolated, hliteral, if_neg (by decide)] at hfile
      obtain ⟨rfl, -⟩ := Act.of_run_pure hfile
      exact ⟨hgives, H.rank_lt ht hincludes hgives hcomponent⟩

/-- All that a render comes to fits into the depth that is left. An include takes some of it and
comes to a file of lower rank; content of a slot has brought its bound along. -/
theorem Reaches.fits {functions : FunctionTable} (h : Reaches task c task' c')
    (hlib : (Library.new H.loader functions).Grows c.library) (hfits : task.Fits H c.slots) :
    task'.Fits H c'.slots := by
  refine h.has ⟨fun hfits hids => hfits.of_subset hids, fun hfits he => hfits.children he, ?_, ?_⟩
    hfits
  · intro depth t e id own component c₁ collecting inner hreaches hincludes he htag hhas hnode
    obtain ⟨_, _, _, hroom⟩ := hnode
    obtain ⟨hgives, hrank⟩ := hincludes.gives (hlib.trans hreaches.later.library) hroom.gives he
      htag hhas
    obtain ⟨c₂, hslots⟩ := hincludes.exists_run
    rw [hincludes.slots_eq.2]
    refine Hierarchy.Fits.included ⟨_, _, _, hroom⟩ he (fun _ _ _ _ hget => ?_) hgives hrank
    obtain ⟨hdefiner, hchild, -⟩ := of_includedSlots hslots hget
    exact ⟨hdefiner, hchild⟩
  · intro depth t e id own definer id' binding content c₁ inner _ hpasses he hnode
    rw [hpasses.slots_eq] at hnode
    exact hnode.content he hpasses.get?_eq hpasses.element?

/-- What fits does not run out of depth. -/
theorem Task.Fits.run_ne {functions : FunctionTable} (h : task.Fits H c.slots)
    (hlib : (Library.new H.loader functions).Grows c.library) :
    (task.act.run c).1 ≠ .error .depth := by
  have hdeep : ∀ t ids c', ¬ Reaches task c (.siblings 0 t ids) c' := by
    intro t ids c' hreaches
    obtain ⟨_, _, _, hroom⟩ := hreaches.fits hlib h
    exact Nat.not_le.2 (Hierarchy.nesting_pos _ _ _) hroom.nesting_le
  have halong : Law.sufficing.Along 0 task c := by
    refine Law.along_of_reaches (fun _ _ id e c' _ => ?_) (fun _ _ _ _ _ _ e => nomatch e)
      fun t ids c' hreaches => absurd hreaches (hdeep t ids c')
    obtain ⟨due, c₁, hrun⟩ := exists_run_isDue id e c'
    show ((isDue id e).run c').1 ≠ .error .depth
    rw [hrun]
    exact fun e => nomatch e
  exact halong

/-- What does not run out of depth gives a result, or fails for a reason. -/
theorem exists_outcome {α : Type} {result : Except Halt α} (h : result ≠ .error .depth) :
    ∃ outcome : Except RenderError α, result = outcome.mapError .error := by
  rcases result with (e | _) | a
  · exact ⟨.error e, rfl⟩
  · exact absurd rfl h
  · exact ⟨.ok a, rfl⟩

/-- Finitely many sources, that include each other under names that are written out and only in the
order of a ranking, have for each of their files a depth that suffices, whatever the functions and
the variables are and whatever templates are kept: the text of the file, or the failure, is the same
for all depths from this one on, and the depth is never the reason of the failure. -/
theorem exists_depth {loader : Loader} {rank : String → Nat} {sources : List String}
    (hfinite : ∀ file source, loader.find file = .ok source → source ∈ sources)
    (hdescends : loader.Descends rank) (file : String) :
    ∃ limit, ∀ functions library, (Library.new loader functions).Grows library →
      ∀ region source t, loader.find file = .ok source →
        Template.parse region file source = .ok t →
          ∀ scope, ∃ outcome : Except RenderError String, ∀ depth, limit ≤ depth →
            ((pageWithin depth t).run (.new library scope)).1 = outcome.mapError .error := by
  obtain ⟨H, rfl, rfl⟩ := hdescends.exists_hierarchy hfinite
  refine ⟨Hierarchy.fileNesting H.levels (H.rank file + 1) 0, ?_⟩
  intro functions library hlibrary region source t hfind hparse scope
  obtain ⟨hgives, rfl⟩ := Loader.gives_of_parse hfind hparse
  -- The depth that suffices for a file of this rank, with no slots passed to it.
  let limit := Hierarchy.fileNesting H.levels (H.rank t.file + 1) 0
  have hfits : (Task.template limit t).Fits H [] :=
    ⟨H.rank t.file, 0, H.levels, hgives, Nat.le_refl _, trivial, H.trees t hgives, Nat.le_refl _⟩
  -- With this depth the render never comes to the end of it.
  have hne : ((Task.template limit t).act.run (.new library scope)).1 ≠ .error .depth :=
    hfits.run_ne hlibrary
  have hpage : Law.sufficing.Holds (pageWithin limit t) (pageWithin limit t)
      (.new library scope) :=
    Law.sufficing.seq hne fun roots _ _ => Law.holds_markup roots
  obtain ⟨outcome, houtcome⟩ := exists_outcome hpage
  refine ⟨outcome, fun depth hdepth => ?_⟩
  obtain ⟨k, rfl⟩ : ∃ k, depth = k + limit := ⟨depth - limit, by omega⟩
  have hdeeper : (template (nodes (k + limit)) t).run (.new library scope) =
      (template (nodes limit) t).run (.new library scope) :=
    run_deeper k (.template limit t) (.new library scope) hne
  rw [← houtcome]
  unfold pageWithin
  rw [Act.run_bind, Act.run_bind, hdeeper]

/-! A page that passes the content of a file to a component. -/

/-- The source of the page. -/
def badgePage : String :=
  "<vuego include=badge><template #default><vuego include=name></vuego></template></vuego>"

def badgeFiles : Dict String :=
  [("badge", "<b><slot></slot></b>"), ("name", "Ada"), ("page", badgePage)]

/-- The content that is passed includes a file of greater rank than the component. -/
def badgeRank (file : String) : Nat :=
  if file = "badge" then 0 else if file = "name" then 1 else 2

theorem exists_depth_badge :
    ∃ t, Template.parse 1 "page" badgePage = .ok t ∧
      ∃ limit, ∀ scope, ∃ outcome : Except RenderError String, ∀ depth, limit ≤ depth →
        ((pageWithin depth t).run (.new (Library.new (.memory badgeFiles) []) scope)).1 =
          outcome.mapError .error := by
  have hparse : (Template.parse 1 "page" badgePage).toOption.isSome = true := by decide +kernel
  have hdescends : Loader.descendsIn badgeFiles badgeRank = true := by decide +kernel
  have hfinite : ∀ file source, (Loader.memory badgeFiles).find file = .ok source →
      source ∈ badgeFiles.map (·.2) :=
    fun file source h => List.mem_map_of_mem (Loader.mem_of_find_memory h)
  cases ht : Template.parse 1 "page" badgePage with
  | error e =>
      rw [ht] at hparse
      exact nomatch hparse
  | ok t =>
      obtain ⟨limit, hlimit⟩ := exists_depth hfinite (Loader.descends_memory hdescends) "page"
      exact ⟨t, rfl, limit, hlimit [] _ (.refl _) 1 badgePage t rfl ht⟩

end Render
end Stencil
