import Stencil.Loader
import Stencil.Template

/-!
# Libraries

The templates of an engine.

## Main definitions

* `Library` — a loader, the templates loaded so far, and the evaluator for their expressions
* `Library.parse` — a template of a given source
* `Library.load` — the template of a file

## Design notes

A template is parsed once and then kept; a failure is not kept, so a later call may succeed. Each
template has a region number of its own, so nodes of different templates are never the same. Both
facts are part of the type: `Library.Kept`.

The number of regions handed out is a natural number, where the engine has a counter of 32 bits that
starts again.  Its templates are told apart as long as fewer than 2^32 regions are handed out, over
all libraries together and with the regions of output counted in.
-/

namespace Stencil

/-- What holds of the templates kept when so many regions are handed out: each is the template of a
source, in a region of its own. -/
structure Library.Kept (templates : Cache Template) (regions : Nat) : Prop where
  parsed : ∀ file t, templates.get? file = some t →
    ∃ source, Template.parse t.region file source = .ok t
  region_le : ∀ file t, templates.get? file = some t → t.region ≤ regions
  region_inj : ∀ file file' t t', templates.get? file = some t → templates.get? file' = some t' →
    t.region = t'.region → file = file'

/-- A loader, the templates loaded so far, and the evaluator for their expressions. It only gains
templates: what is kept for a file stays, whatever its loader has later. -/
structure Library where
  loader : Loader
  evaluator : Evaluator
  templates : Cache Template
  /-- The number of the latest region handed out; region zero is for output. -/
  regions : Nat
  kept : Library.Kept templates regions

namespace Library

theorem kept_empty (regions : Nat) : Kept .empty regions where
  parsed file t h := by simp at h
  region_le file t h := by simp at h
  region_inj file file' t t' h := by simp at h

theorem Kept.succ {templates : Cache Template} {regions : Nat} (h : Kept templates regions) :
    Kept templates (regions + 1) :=
  { h with region_le := fun file t ht => Nat.le_succ_of_le (h.region_le file t ht) }

/-- A template in a new region can be kept. The region is one above those handed out, so no template
that is kept shares it. -/
theorem Kept.keep {templates : Cache Template} {regions : Nat} (h : Kept templates regions)
    {file source : String} {t : Template}
    (ht : Template.parse (regions + 1) file source = .ok t) :
    Kept (templates.keep file t) (regions + 1) := by
  have hr : t.region = regions + 1 := Template.region_of_parse ht
  constructor
  · intro name u hu
    rcases Cache.get?_keep_cases hu with hu | ⟨-, rfl, rfl⟩
    · exact h.parsed name u hu
    · exact ⟨source, hr ▸ ht⟩
  · intro name u hu
    rcases Cache.get?_keep_cases hu with hu | ⟨-, rfl, rfl⟩
    · exact Nat.le_succ_of_le (h.region_le name u hu)
    · exact Nat.le_of_eq hr
  · intro name name' u u' hu hu' e
    rcases Cache.get?_keep_cases hu with old | ⟨-, hname, ht⟩
    · rcases Cache.get?_keep_cases hu' with old' | ⟨-, -, ht'⟩
      · exact h.region_inj name name' u u' old old' e
      · have hle := h.region_le name u old
        rw [e, ht', hr] at hle
        omega
    · rcases Cache.get?_keep_cases hu' with old' | ⟨-, hname', -⟩
      · have hle := h.region_le name' u' old'
        rw [← e, ht, hr] at hle
        omega
      · exact hname.trans hname'.symm

/-- A library without templates. -/
def new (loader : Loader) (functions : FunctionTable) : Library :=
  ⟨loader, .ofFunctions functions, .empty, 0, kept_empty 0⟩

/-- The template of a source, in a new region. -/
def parse (lib : Library) (file source : String) : Except TemplateError Template :=
  Template.parse (lib.regions + 1) file source

/-- The template of a file, whatever is kept, in a new region. -/
def fetch (lib : Library) (file : String) : Except Fault Template :=
  match lib.loader.find file with
  | .error e => .error (.io file e)
  | .ok source => (lib.parse file source).mapError fun e => .io file (.invalid e)

theorem fetch_of_error {lib : Library} {file : String} {e : LoadError}
    (h : lib.loader.find file = .error e) : lib.fetch file = .error (.io file e) := by
  rw [fetch, h]

theorem fetch_of_ok {lib : Library} {file source : String}
    (h : lib.loader.find file = .ok source) :
    lib.fetch file = (lib.parse file source).mapError fun e => .io file (.invalid e) := by
  rw [fetch, h]

theorem parse_of_fetch {lib : Library} {file : String} {t : Template}
    (h : lib.fetch file = .ok t) :
    ∃ source, lib.loader.find file = .ok source ∧ lib.parse file source = .ok t := by
  cases hf : lib.loader.find file with
  | error e =>
      rw [fetch_of_error hf] at h
      exact nomatch h
  | ok source =>
      rw [fetch_of_ok hf] at h
      cases hp : lib.parse file source with
      | error e =>
          rw [hp] at h
          exact nomatch h
      | ok u =>
          rw [hp] at h
          have hu : u = t := Except.ok.inj h
          exact ⟨source, rfl, hu ▸ hp⟩

/-- Hands out a region for a template that is not kept. -/
def handOut (lib : Library) : Library :=
  { lib with regions := lib.regions + 1, kept := lib.kept.succ }

/-- Keeps a template that was fetched. -/
def keep (lib : Library) (file : String) (t : Template) (h : lib.fetch file = .ok t) : Library :=
  { lib with
    templates := lib.templates.keep file t
    regions := lib.regions + 1
    kept := by
      obtain ⟨source, -, hp⟩ := parse_of_fetch h
      exact lib.kept.keep hp }

/-- The template of a file. -/
def load (lib : Library) (file : String) : Except Fault Template × Library :=
  match lib.templates.get? file with
  | some t => (.ok t, lib)
  | none =>
    match h : lib.fetch file with
    | .ok t => (.ok t, lib.keep file t h)
    | .error fault => (.error fault, lib)

end Library
end Stencil
