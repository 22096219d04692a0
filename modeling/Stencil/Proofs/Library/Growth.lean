import Stencil.Library

/-!
# Libraries that grow

## Main definitions

* `Library.Gains`, `Library.Grows` — what use does to a library

## Main results

* `Library.grows_load` — looking for a file only adds its template, and only that of its source
* `Library.get?_of_load`, `Library.get?_load_cases` — a template that was found is kept, and nothing
  else is kept for it
* `Library.load_of_error`, `Library.category_of_load` — a file that was not found leaves no trace,
  and is reported as such
-/

namespace Stencil

/-- Templates are added to a library, each that of the source of its file and in a new region, and
those kept stay as they are. -/
structure Library.Gains (lib lib' : Library) : Prop where
  functions : lib'.evaluator.functions = lib.evaluator.functions
  regions_le : lib.regions ≤ lib'.regions
  kept : ∀ file t, lib.templates.get? file = some t → lib'.templates.get? file = some t
  fetched : ∀ file t, lib'.templates.get? file = some t →
    lib.templates.get? file = some t ∨
      ∃ source, lib.loader.find file = .ok source ∧ Template.parse t.region file source = .ok t
  region_lt : ∀ file t, lib'.templates.get? file = some t → lib.templates.get? file = none →
    lib.regions < t.region

/-- What use does to a library: it gains templates, and neither its loader nor its functions change.
-/
structure Library.Grows (lib lib' : Library) : Prop extends lib.Gains lib' where
  loader : lib'.loader = lib.loader

namespace Library

/-- Nothing is gained where the templates are the same. -/
theorem gains_of_eq {lib lib' : Library} (hf : lib'.evaluator.functions = lib.evaluator.functions)
    (hr : lib.regions ≤ lib'.regions) (ht : lib'.templates = lib.templates) : lib.Gains lib' where
  functions := hf
  regions_le := hr
  kept _ _ h := ht.symm ▸ h
  fetched _ _ h := .inl (ht ▸ h)
  region_lt _ _ h hn := absurd (hn.symm.trans (ht ▸ h)) (by simp)

theorem Grows.refl (lib : Library) : lib.Grows lib :=
  ⟨gains_of_eq rfl (Nat.le_refl _) rfl, rfl⟩

theorem Grows.trans {lib lib' lib'' : Library} (h : lib.Grows lib') (h' : lib'.Grows lib'') :
    lib.Grows lib'' where
  loader := h'.loader.trans h.loader
  functions := h'.functions.trans h.functions
  regions_le := Nat.le_trans h.regions_le h'.regions_le
  kept file t ht := h'.kept file t (h.kept file t ht)
  fetched file t ht := by
    rcases h'.fetched file t ht with ht' | hnew
    · exact h.fetched file t ht'
    · exact .inr (h.loader ▸ hnew)
  region_lt file t ht hn := by
    cases hn' : lib'.templates.get? file with
    | some u =>
        obtain rfl : u = t := Option.some.inj ((h'.kept file u hn').symm.trans ht)
        exact h.region_lt file u hn' hn
    | none => exact Nat.lt_of_le_of_lt h.regions_le (h'.region_lt file t ht hn')

theorem grows_handOut (lib : Library) : lib.Grows lib.handOut :=
  ⟨gains_of_eq rfl (Nat.le_succ _) rfl, rfl⟩

theorem grows_keep (lib : Library) {file : String} {t : Template} (h : lib.fetch file = .ok t) :
    lib.Grows (lib.keep file t h) where
  loader := rfl
  functions := rfl
  regions_le := Nat.le_succ _
  kept name u hu := Cache.get?_keep_of_get? hu file t
  fetched name u hu := by
    rcases Cache.get?_keep_cases hu with old | ⟨-, rfl, rfl⟩
    · exact .inl old
    · obtain ⟨source, hs, hp⟩ := parse_of_fetch h
      exact .inr ⟨source, hs, (Template.region_of_parse hp).symm ▸ hp⟩
  region_lt name u hu hn := by
    rcases Cache.get?_keep_cases hu with old | ⟨-, rfl, rfl⟩
    · exact absurd (hn.symm.trans old) (by simp)
    · obtain ⟨source, -, hp⟩ := parse_of_fetch h
      exact (Template.region_of_parse hp).symm ▸ Nat.lt_succ_self _

/-! ### Looking for a file -/

theorem load_of_get? {lib : Library} {file : String} {t : Template}
    (h : lib.templates.get? file = some t) : lib.load file = (.ok t, lib) := by
  rw [load, h]

theorem load_of_ok {lib : Library} {file : String} {t : Template}
    (hn : lib.templates.get? file = none) (h : lib.fetch file = .ok t) :
    lib.load file = (.ok t, lib.keep file t h) := by
  rw [load, hn]
  dsimp only
  split
  · rename_i u hu
    obtain rfl : u = t := Except.ok.inj (hu.symm.trans h)
    rfl
  · rename_i fault hu
    exact absurd (hu.symm.trans h) (by simp)

/-- A file that was not found leaves no trace: neither a template nor a region is used up for it,
and the next look for it asks the loader again. -/
theorem load_of_error {lib : Library} {file : String} {fault : Fault}
    (hn : lib.templates.get? file = none) (h : lib.fetch file = .error fault) :
    lib.load file = (.error fault, lib) := by
  rw [load, hn]
  dsimp only
  split
  · rename_i u hu
    exact absurd (hu.symm.trans h) (by simp)
  · rename_i fault' hu
    obtain rfl : fault' = fault := Except.error.inj (hu.symm.trans h)
    rfl

/-- A file is not found for a reason of its own, whether the loader has no such file, or its front
matter or its markup cannot be read. -/
theorem category_of_load {lib : Library} {file : String} {fault : Fault}
    (h : (lib.load file).1 = .error fault) : fault.category = .io := by
  cases hn : lib.templates.get? file with
  | some t =>
      rw [load_of_get? hn] at h
      exact nomatch h
  | none =>
      cases hf : lib.fetch file with
      | ok t =>
          rw [load_of_ok hn hf] at h
          exact nomatch h
      | error fault' =>
          rw [load_of_error hn hf] at h
          obtain rfl : fault' = fault := Except.error.inj h
          unfold fetch at hf
          split at hf
          · exact Except.error.inj hf ▸ rfl
          · rename_i source _
            cases hp : lib.parse file source with
            | ok t =>
                rw [hp] at hf
                exact nomatch hf
            | error e =>
                rw [hp] at hf
                exact Except.error.inj hf ▸ rfl

/-- Looking for a file only adds its template. What was kept before stays, though the source may
have changed since. -/
theorem grows_load (lib : Library) (file : String) : lib.Grows (lib.load file).2 := by
  cases hn : lib.templates.get? file with
  | some t =>
      rw [load_of_get? hn]
      exact .refl lib
  | none =>
      cases h : lib.fetch file with
      | ok t =>
          rw [load_of_ok hn h]
          exact lib.grows_keep h
      | error fault =>
          rw [load_of_error hn h]
          exact .refl lib

/-- A template that was found is kept, be it that it was there before or that it was parsed just
now. -/
theorem get?_of_load {lib : Library} {file : String} {t : Template}
    (h : (lib.load file).1 = .ok t) : (lib.load file).2.templates.get? file = some t := by
  cases hn : lib.templates.get? file with
  | some u =>
      rw [load_of_get? hn] at h ⊢
      exact hn.trans (congrArg some (Except.ok.inj h))
  | none =>
      cases hf : lib.fetch file with
      | ok u =>
          rw [load_of_ok hn hf] at h ⊢
          obtain rfl : u = t := Except.ok.inj h
          exact Cache.get?_keep_self hn u
      | error fault =>
          rw [load_of_error hn hf] at h
          exact absurd h (by simp)

/-- A template that is kept after a look for a file was kept before, or it is what the look has
found. -/
theorem get?_load_cases {lib : Library} {file name : String} {t : Template}
    (h : (lib.load file).2.templates.get? name = some t) :
    lib.templates.get? name = some t ∨ (name = file ∧ (lib.load file).1 = .ok t) := by
  cases hn : lib.templates.get? file with
  | some u =>
      rw [load_of_get? hn] at h
      exact .inl h
  | none =>
      cases hf : lib.fetch file with
      | ok u =>
          rw [load_of_ok hn hf] at h ⊢
          rcases Cache.get?_keep_cases h with old | ⟨-, rfl, rfl⟩
          · exact .inl old
          · exact .inr ⟨rfl, rfl⟩
      | error fault =>
          rw [load_of_error hn hf] at h
          exact .inl h

end Library
end Stencil
