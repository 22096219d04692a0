import Stencil.Proofs.Markup.WellFormed
import Stencil.Proofs.Render.Due

/-!
# The templates that a render comes to

## Main definitions

* `Library.Hosts` — a library knows the nodes of a template from those of all that it keeps
* `Library.Home` — a template is a given one, or the one that a library keeps for its file

## Main results

* `Library.Hosts.eq_of_region` — templates at home with a node in common are the same
* `Render.home_of_mem_moments` — a render comes to templates at home alone
* `Render.eq_of_node_key` — an element that is known by itself is known by nothing else

## Design notes

The library meant is that at the end of the render: what was loaded on the way is kept there, so
that templates met at different moments can be compared.
-/

namespace Stencil

open Markup

namespace Library

variable {lib lib' : Library} {t u v : Template} {file file' : String}

/-- A library keeps a template for its file, or it has handed out the region of the template and
keeps no other one with it. -/
def Hosts (lib : Library) (t : Template) : Prop :=
  lib.templates.get? t.file = some t ∨
    t.region ≤ lib.regions ∧ ∀ file u, lib.templates.get? file = some u → u.region ≠ t.region

/-- A template is the given one, or what a library keeps for its file. These are the templates a
rendering can come to. -/
def Home (lib : Library) (t u : Template) : Prop := u = t ∨ lib.templates.get? u.file = some u

theorem file_of_get? (h : lib.templates.get? file = some t) : t.file = file := by
  obtain ⟨source, hparse⟩ := lib.kept.parsed file t h
  obtain ⟨-, -, -, -, hfile, -⟩ := Template.exists_of_parse hparse
  exact hfile

theorem get?_file_of_load (h : (lib.load file).1 = .ok t) :
    (lib.load file).2.templates.get? t.file = some t := by
  have hget := get?_of_load h
  rwa [file_of_get? hget]

theorem eq_of_get?_of_region (hu : lib.templates.get? file = some u)
    (hv : lib.templates.get? file' = some v) (hregion : u.region = v.region) : u = v := by
  obtain rfl := lib.kept.region_inj file file' u v hu hv hregion
  exact Option.some.inj (hu.symm.trans hv)

theorem Hosts.grows (h : lib.Hosts t) (hgrows : lib.Grows lib') : lib'.Hosts t := by
  rcases h with hkept | ⟨hle, happart⟩
  · exact .inl (hgrows.kept t.file t hkept)
  · refine .inr ⟨hle.trans hgrows.regions_le, fun file u hu => ?_⟩
    cases hold : lib.templates.get? file with
    | some w =>
        obtain rfl : w = u := Option.some.inj ((hgrows.kept file w hold).symm.trans hu)
        exact happart file w hold
    | none =>
        have hlt := hgrows.region_lt file u hu hold
        exact Nat.ne_of_gt (Nat.lt_of_le_of_lt hle hlt)

/-- Templates at home with the same region are the same. Each template gets a region of its own when
it is parsed, so the region of a node tells its file. -/
theorem Hosts.eq_of_region (h : lib.Hosts t) (hu : lib.Home t u) (hv : lib.Home t v)
    (hregion : u.region = v.region) : u = v := by
  -- A template that is kept with the region of the given one is the given one.
  have hsame : ∀ w, lib.templates.get? w.file = some w → w.region = t.region → w = t := by
    intro w hw heq
    rcases h with hkept | ⟨-, happart⟩
    · exact eq_of_get?_of_region hw hkept heq
    · exact absurd heq (happart w.file w hw)
  rcases hu with rfl | hu
  · rcases hv with rfl | hv
    · rfl
    · exact (hsame v hv hregion.symm).symm
  · rcases hv with rfl | hv
    · exact hsame u hu hregion
    · exact eq_of_get?_of_region hu hv hregion

end Library

namespace Render

variable {task : Task} {c c' : Context} {m m' : Moment}

/-- The component of an include is kept where it is evaluated. -/
theorem Includes.get?_eq {depth : Nat} {t component : Template} {e : Element}
    {collecting inner : Context} {slots : SlotScope}
    (h : Includes depth t e c collecting slots component inner) :
    inner.library.templates.get? component.file = some component := by
  cases h with
  | @intro _ file _ _ _ _ c₃ c₄ _ _ _ hload =>
      have hfound := of_run_load hload
      rw [run_load, Prod.mk.injEq] at hload
      have hlibrary : c₄.library = (c₃.library.load file).2 := hload.2 ▸ rfl
      show c₄.library.templates.get? component.file = some component
      rw [hlibrary]
      exact Library.get?_file_of_load hfound

/-- The templates of siblings, and those of the content that was passed, are at home. -/
def atHome (lib : Library) (t : Template) : Trait := fun slots _ u _ =>
  lib.Home t u ∧ ∀ own ∈ slots, ∀ name definer id binding,
    Dict.get? own name = some (.scoped definer id binding) → lib.Home t definer

/-- To be at home where a render ends is inherited. It is the last library that counts: what is kept
on the way is still kept there. -/
theorem inherited_atHome (start : Moment) (t : Template) :
    Inherited (atHome start.finished.library t) start.task start.context where
  of_subset hhome _ := hhome
  children hhome _ := hhome
  included := by
    intro depth u e id own component c collecting inner hreaches hincludes _ _ _ hhome
    have hinner : Moment.mk (.siblings depth component component.roots) inner ∈ moments start :=
      mem_moments_iff.2 (hreaches.step hincludes.leads)
    have hlater := (threaded_moments start).later_of_mem hinner
    refine ⟨.inr (hlater.library.kept _ _ hincludes.get?_eq), ?_⟩
    rw [hincludes.slots_eq.2]
    refine List.forall_mem_cons.2 ⟨?_, hhome.2⟩
    -- What the include collects is its own content.
    intro name definer child binding hget
    obtain ⟨_, hslots⟩ := hincludes.exists_run
    obtain ⟨rfl, -, -⟩ := of_includedSlots hslots hget
    exact hhome.1
  passed := by
    intro depth u e id own definer child binding content c inner _ hpasses _ hhome
    have hslots := hhome.2
    rw [hpasses.slots_eq] at hslots
    obtain ⟨hown, houter⟩ := List.forall_mem_cons.1 hslots
    exact ⟨hown _ _ _ _ hpasses.get?_eq, houter⟩

variable {depth : Nat} {t : Template}

/-- A render of a template comes to elements of templates at home alone: its own, and those kept by
the library. Content of a slot is no exception, since it is from a file that the render came to
before. -/
theorem home_of_mem_moments (hslots : c.slots = []) (hm : m ∈ moments ⟨.template depth t, c⟩)
    {d : Nat} {u : Template} {id : NodeId} {e : Element} (htask : m.task = .once d u id e) :
    u.element? id = some e ∧
      (Moment.mk (.template depth t) c).finished.library.Home t u := by
  have hreaches := mem_moments_iff.1 hm
  have hinherited := inherited_atHome ⟨.template depth t, c⟩ t
  have hstart : (Task.template depth t).Has
      (atHome (Moment.mk (.template depth t) c).finished.library t) c.slots := by
    refine ⟨.inl rfl, fun own hown => ?_⟩
    rw [hslots] at hown
    exact nomatch hown
  have hhas := hreaches.has hinherited hstart
  rw [htask] at hhas
  exact ⟨hhas.1, hhas.2.1⟩

theorem of_onceKey?_node {id i : NodeId} {e : Element} (h : onceKey? id e = some (.node i)) :
    id = i := by
  unfold onceKey? at h
  split at h
  · exact nomatch h
  · split at h
    · exact OnceKey.node.inj (Option.some.inj h)
    · exact nomatch h

/-- If two elements that a render comes to are known by the same node, they are one and the same.
This is why an element without a text of its own may be known by its node. -/
theorem eq_of_node_key (hslots : c.slots = []) (hhosts : c.library.Hosts t)
    (hm : m ∈ moments ⟨.template depth t, c⟩) (hm' : m' ∈ moments ⟨.template depth t, c⟩)
    {d d' : Nat} {u v : Template} {id id' i : NodeId} {e e' : Element}
    (htask : m.task = .once d u id e) (htask' : m'.task = .once d' v id' e')
    (hkey : onceKey? id e = some (.node i)) (hkey' : onceKey? id' e' = some (.node i)) :
    u = v ∧ id = id' ∧ e = e' := by
  obtain rfl := of_onceKey?_node hkey
  obtain rfl := of_onceKey?_node hkey'
  obtain ⟨he, hhome⟩ := home_of_mem_moments hslots hm htask
  obtain ⟨he', hhome'⟩ := home_of_mem_moments hslots hm' htask'
  have hgrows := ((threaded_moments ⟨.template depth t, c⟩).later).library
  have hregion : u.region = v.region :=
    (Arena.owns_of_element? he).1.symm.trans (Arena.owns_of_element? he').1
  obtain rfl := (hhosts.grows hgrows).eq_of_region hhome hhome' hregion
  exact ⟨rfl, rfl, Option.some.inj (he.symm.trans he')⟩

end Render
end Stencil
