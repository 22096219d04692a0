import Mathlib.Algebra.Order.BigOperators.Group.List
import Mathlib.Algebra.Order.Ring.Nat
import Stencil.Proofs.Library.Growth
import Stencil.Proofs.Markup.Levels
import Stencil.Proofs.Render.Twin

/-!
# Files that include smaller files

## Main definitions

* `Template.includes` — the files that the elements of a template stand for
* `Loader.Gives` — the templates of the files of a loader
* `Loader.Descends` — files include only files of smaller rank
* `Hierarchy` — files that include only files of smaller rank, with a bound for the levels of each

## Main results

* `Loader.Descends.exists_hierarchy` — finitely many sources have a bound
* `Hierarchy.gives_of_load` — the templates that a library loads are those of the files

## Design notes

The files of a loader are what it finds, under whatever names; only their sources are finite in
number.  Templates of a source differ in their regions alone, so it is enough to speak of one
region.
-/

namespace Stencil

open Markup

/-- The file that an element stands for. -/
def Markup.Element.included? (e : Element) : Option String :=
  if e.tag == "vuego" then e.get? "include" else none

/-- The files that the elements of a template stand for. -/
def Template.includes (t : Template) : List String :=
  t.arena.nodes.toList.filterMap fun node => node.element?.bind Element.included?

theorem Template.mem_includes {t : Template} {id : NodeId} {e : Element} {name : String}
    (he : t.element? id = some e) (htag : e.tag = "vuego") (hname : e.get? "include" = some name) :
    name ∈ t.includes := by
  obtain ⟨node, hget, hnode⟩ := Option.bind_eq_some_iff.1 he
  refine List.mem_filterMap.2 ⟨node, Arena.mem_of_get? hget, ?_⟩
  rw [hnode, Option.bind_some, Element.included?, htag]
  exact hname

/-- Templates that differ in their regions alone include the same files, since these are named by
attributes. -/
theorem Template.Twin.includes_eq {t t' : Template} (h : t.Twin t') : t.includes = t'.includes := by
  have hnodes : List.Forall₂ (Node.Twin (NodeId.Twin t.region t'.region))
      t.arena.nodes.toList t'.arena.nodes.toList := h.arena
  unfold Template.includes
  generalize t.arena.nodes.toList = nodes at hnodes ⊢
  generalize t'.arena.nodes.toList = nodes' at hnodes ⊢
  induction hnodes with
  | nil => rfl
  | @cons node node' nodes nodes' htwin _ ih =>
      have hincluded : node.element?.bind Element.included? =
          node'.element?.bind Element.included? := by
        cases htwin with
        | element he =>
            show Element.included? _ = Element.included? _
            rw [Element.included?, Element.included?, Element.get?, Element.get?, he.tag,
              he.attributes]
        | text s => rfl
        | raw s => rfl
      rw [List.filterMap_cons, List.filterMap_cons, hincluded, ih]

namespace Loader

variable {loader : Loader} {t : Template} {file name source : String}

/-- A template is that of a file. -/
def Gives (loader : Loader) (t : Template) : Prop :=
  ∃ source, loader.find t.file = .ok source ∧ Template.parse t.region t.file source = .ok t

theorem gives_of_parse {region : Nat} (hfile : loader.find file = .ok source)
    (hparse : Template.parse region file source = .ok t) : loader.Gives t ∧ t.file = file := by
  obtain ⟨-, -, -, -, hname, -⟩ := Template.exists_of_parse hparse
  obtain rfl := Template.region_of_parse hparse
  obtain rfl := hname
  exact ⟨⟨source, hfile, hparse⟩, rfl⟩

/-- The files include others under names that are written out, and only files of smaller rank. A
name with an interpolation in it could be that of any file, so no rank would bound it. -/
structure Descends (loader : Loader) (rank : String → Nat) : Prop where
  literal : ∀ file source t, loader.find file = .ok source →
    Template.parse 0 file source = .ok t → ∀ name ∈ t.includes, Interpolation.isIn name = false
  rank_lt : ∀ file source t, loader.find file = .ok source →
    Template.parse 0 file source = .ok t → ∀ name ∈ t.includes, ∀ inner,
      loader.find name = .ok inner → rank name < rank file

/-- What a file includes does not depend on the region. -/
theorem Gives.exists_parse (h : loader.Gives t) :
    ∃ source t₀, loader.find t.file = .ok source ∧ Template.parse 0 t.file source = .ok t₀ ∧
      t₀.includes = t.includes := by
  obtain ⟨source, hfile, hparse⟩ := h
  have htwin := Template.twin_parse 0 t.region t.file source
  rw [hparse] at htwin
  generalize hparse₀ : Template.parse 0 t.file source = parsed at htwin
  cases htwin with
  | ok htwin => exact ⟨source, _, hfile, hparse₀, htwin.includes_eq⟩

theorem mem_of_find_memory {files : Dict String} (h : (memory files).find name = .ok source) :
    (name, source) ∈ files := by
  unfold find memory at h
  dsimp only at h
  split at h
  · split at h
    · rename_i found hfound
      obtain rfl := Except.ok.inj h
      obtain ⟨entry, hentry, rfl⟩ := Option.map_eq_some_iff.1 hfound
      have hkey : entry.1 = name := by simpa using List.find?_some hentry
      exact hkey ▸ List.mem_of_find?_eq_some hentry
    · exact nomatch h
  · exact nomatch h

/-- Whether files in memory include only files of smaller rank can be checked. -/
def descendsIn (files : Dict String) (rank : String → Nat) : Bool :=
  files.all fun (file, source) =>
    (Template.parse 0 file source).toOption.all fun t =>
      t.includes.all fun name =>
        !Interpolation.isIn name && (!Dict.contains files name || decide (rank name < rank file))

theorem descends_memory {files : Dict String} {rank : String → Nat}
    (h : descendsIn files rank = true) : (memory files).Descends rank := by
  have hcheck : ∀ file source t, (memory files).find file = .ok source →
      Template.parse 0 file source = .ok t → ∀ name ∈ t.includes,
        Interpolation.isIn name = false ∧
          (Dict.contains files name = false ∨ rank name < rank file) := by
    intro file source t hfind hparse name hname
    have hfile := List.all_eq_true.1 h _ (mem_of_find_memory hfind)
    simp only [hparse, Except.toOption, Option.all_some] at hfile
    simpa using List.all_eq_true.1 hfile name hname
  constructor
  · exact fun file source t hfind hparse name hname =>
      (hcheck file source t hfind hparse name hname).1
  · intro file source t hfind hparse name hname inner hinner
    refine (hcheck file source t hfind hparse name hname).2.resolve_left fun hmissing => ?_
    rw [find, show (memory files).contains name = false from hmissing] at hinner
    cases hinner

end Loader

/-! ### The levels of a source -/

/-- How many levels of nodes the body of a source has at most. -/
def sourceLevels (source : String) : Nat :=
  match parseDocument (FrontMatter.split source).2 with
  | .ok forest => Tree.forestSize forest
  | .error _ => 0

theorem Template.body_of_settingsOf {file source body : String} {settings : FrontMatter}
    (h : settingsOf file source = .ok (settings, body)) : body = (FrontMatter.split source).2 := by
  unfold settingsOf at h
  split at h
  · rename_i hsplit
    rw [hsplit]
    exact (congrArg Prod.snd (Except.ok.inj h)).symm
  · rename_i hsplit
    rw [hsplit]
    split at h
    · exact (congrArg Prod.snd (Except.ok.inj h)).symm
    · exact nomatch h

/-- The trees of a template are found within the levels of its source. -/
theorem Template.exists_tree_of_parse {region : Nat} {file source : String} {t : Template}
    (h : parse region file source = .ok t) :
    ∀ id ∈ t.roots, ∃ tree, t.arena.treeWithin (sourceLevels source) id = some tree := by
  obtain ⟨body, forest, hsettings, hdocument, -, hplant⟩ := exists_of_parse h
  obtain rfl := body_of_settingsOf hsettings
  have htrees := Arena.treeWithin_plantAll (Arena.empty region) forest
  rw [← hplant] at htrees
  intro id hid
  obtain ⟨tree, -, htree⟩ := Arena.exists_of_forall₂ htrees.flip hid
  rw [sourceLevels, hdocument]
  exact ⟨tree, htree⟩

/-! ### Hierarchies -/

/-- Files that include only files of smaller rank, with a bound for the levels of each. The bound is
a field because infinitely many files may be deeper than any number. -/
structure Hierarchy where
  loader : Loader
  rank : String → Nat
  levels : Nat
  descends : loader.Descends rank
  trees : ∀ t, loader.Gives t → ∀ id ∈ t.roots,
    ∃ tree, t.arena.treeWithin levels id = some tree

/-- Finitely many sources have a bound for their levels. Without it, files of ever deeper markup
could go on and on, though none of them includes itself. -/
theorem Loader.Descends.exists_hierarchy {loader : Loader} {rank : String → Nat}
    (h : loader.Descends rank) {sources : List String}
    (hfinite : ∀ file source, loader.find file = .ok source → source ∈ sources) :
    ∃ H : Hierarchy, H.loader = loader ∧ H.rank = rank := by
  refine ⟨⟨loader, rank, (sources.map sourceLevels).sum, h, fun t ht id hid => ?_⟩, rfl, rfl⟩
  obtain ⟨source, hfile, hparse⟩ := ht
  obtain ⟨tree, htree⟩ := Template.exists_tree_of_parse hparse id hid
  have hle : sourceLevels source ≤ (sources.map sourceLevels).sum :=
    List.le_sum_of_mem (List.mem_map_of_mem (hfinite t.file source hfile))
  exact ⟨tree, Arena.treeWithin_mono (.refl _) hle htree⟩

namespace Hierarchy

variable {H : Hierarchy} {t : Template} {name : String}

theorem literal (ht : H.loader.Gives t) (hname : name ∈ t.includes) :
    Interpolation.isIn name = false := by
  obtain ⟨source, t₀, hfile, hparse, hincludes⟩ := ht.exists_parse
  exact H.descends.literal t.file source t₀ hfile hparse name (hincludes ▸ hname)

theorem rank_lt (ht : H.loader.Gives t) (hname : name ∈ t.includes) {component : Template}
    (hcomponent : H.loader.Gives component) (hfile : component.file = name) :
    H.rank component.file < H.rank t.file := by
  obtain ⟨source, t₀, hfind, hparse, hincludes⟩ := ht.exists_parse
  obtain ⟨inner, hinner, -⟩ := hcomponent
  rw [hfile] at hinner ⊢
  exact H.descends.rank_lt t.file source t₀ hfind hparse name (hincludes ▸ hname) inner hinner

/-- The templates that a library loads are those of the files, if it began without any and its
sources do not change. -/
theorem gives_of_load {functions : FunctionTable} {lib : Library} {file : String}
    (hlib : (Library.new H.loader functions).Grows lib) (h : (lib.load file).1 = .ok t) :
    H.loader.Gives t ∧ t.file = file := by
  have hgrows := hlib.trans (lib.grows_load file)
  rcases hgrows.fetched file t (Library.get?_of_load h) with hkept | ⟨source, hfind, hparse⟩
  · exact absurd hkept (by simp [Library.new])
  · exact Loader.gives_of_parse hfind hparse

end Hierarchy
end Stencil
