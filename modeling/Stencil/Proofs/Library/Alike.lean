import Stencil.Proofs.Library.Growth
import Stencil.Proofs.Render.Twin

/-!
# Libraries that give the same templates

Two libraries with different histories, of which the second one is the younger.

## Main definitions

* `Regions` — which regions of the one library stand for which regions of the other
* `Template.TwinIn` — twins whose regions stand for each other
* `Library.Alike` — no look-up tells the libraries apart

## Main results

* `Library.Alike.of_grows` — a library that has grown gives the same templates as before
* `Library.Alike.load` — looking for a file finds twins or fails for the same reason, and keeps the
  libraries alike
* `Library.Alike.handOut` — regions for templates that are not kept can stand for each other

## Design notes

The older library may keep a template that the younger one has yet to find.  Then the source that
the younger one will find is that of the template, and no region of the younger one stands for the
template's region yet; so pairs of regions are only ever added.
-/

namespace Stencil

/-- Pairs of regions that stand for each other. A region is given out when a source is parsed, so
libraries that were used differently give the same file different regions. -/
abbrev Regions := List (Nat × Nat)

/-- A region stands for one region at most, on both sides. -/
def Regions.Matched (w : Regions) : Prop :=
  ∀ p ∈ w, ∀ q ∈ w, p.1 = q.1 ↔ p.2 = q.2

/-- Two regions that stand for nothing yet can stand for each other. -/
theorem Regions.Matched.cons {w : Regions} (h : w.Matched) {r r' : Nat} (hr : ∀ p ∈ w, p.1 ≠ r)
    (hr' : ∀ p ∈ w, p.2 ≠ r') : Regions.Matched ((r, r') :: w) := by
  intro p hp q hq
  rcases List.mem_cons.1 hp with rfl | hp
  · rcases List.mem_cons.1 hq with rfl | hq
    · simp
    · exact ⟨fun e => absurd e.symm (hr q hq), fun e => absurd e.symm (hr' q hq)⟩
  · rcases List.mem_cons.1 hq with rfl | hq
    · exact ⟨fun e => absurd e (hr p hp), fun e => absurd e (hr' p hp)⟩
    · exact h p hp q hq

/-- The regions up to a number stand for themselves. -/
def Regions.upTo (n : Nat) : Regions := (List.range (n + 1)).map fun r => (r, r)

theorem Regions.mem_upTo {n : Nat} {p : Nat × Nat} : p ∈ upTo n ↔ p.1 = p.2 ∧ p.1 ≤ n := by
  obtain ⟨r, r'⟩ := p
  simp only [upTo, List.mem_map, List.mem_range, Prod.mk.injEq]
  constructor
  · rintro ⟨_, hlt, rfl, rfl⟩
    exact ⟨rfl, Nat.le_of_lt_succ hlt⟩
  · rintro ⟨rfl, hle⟩
    exact ⟨r, Nat.lt_succ_of_le hle, rfl, rfl⟩

theorem Regions.matched_upTo (n : Nat) : (upTo n).Matched := by
  intro p hp q hq
  rw [(mem_upTo.1 hp).1, (mem_upTo.1 hq).1]

/-- Twins whose regions stand for each other. -/
structure Template.TwinIn (w : Regions) (t t' : Template) : Prop where
  twin : t.Twin t'
  paired : (t.region, t'.region) ∈ w

theorem Template.TwinIn.mono {w w' : Regions} {t t' : Template} (h : Template.TwinIn w t t')
    (hw : w ⊆ w') : Template.TwinIn w' t t' :=
  ⟨h.twin, hw h.paired⟩

/-- No look-up tells the libraries apart. One may keep what the other has to read again, as long as
the reading gives a twin of what is kept. -/
structure Library.Alike (w : Regions) (lib fresh : Library) : Prop where
  functions : lib.evaluator.functions = fresh.evaluator.functions
  matched : w.Matched
  region_le : ∀ p ∈ w, p.1 ≤ lib.regions ∧ p.2 ≤ fresh.regions
  /-- What the younger library keeps is kept by the older one. -/
  both : ∀ file t', fresh.templates.get? file = some t' →
    ∃ t, lib.templates.get? file = some t ∧ Template.TwinIn w t t'
  /-- What the older library alone keeps is what the younger one would find. -/
  early : ∀ file t, lib.templates.get? file = some t → fresh.templates.get? file = none →
    (∃ source, fresh.loader.find file = .ok source ∧
      Template.parse t.region file source = .ok t) ∧ ∀ p ∈ w, p.1 ≠ t.region
  /-- For a file that neither keeps they would find the same. -/
  neither : ∀ file, lib.templates.get? file = none → fresh.templates.get? file = none →
    lib.loader.find file = fresh.loader.find file

namespace Library

/-- A template that is kept is its own twin. -/
theorem twin_self {lib : Library} {file : String} {t : Template}
    (h : lib.templates.get? file = some t) : t.Twin t := by
  obtain ⟨source, hparse⟩ := lib.kept.parsed file t h
  have htwin := Template.twin_parse t.region t.region file source
  rw [hparse] at htwin
  cases htwin with
  | ok htwin => exact htwin

namespace Alike

/-- A library that has grown gives the same templates as before, and the same regions stand for each
other. This is where a comparison of a used library with a new one begins. -/
theorem of_grows {lib lib' : Library} (h : lib.Grows lib') :
    Alike (.upTo lib.regions) lib' lib where
  functions := h.functions
  matched := Regions.matched_upTo _
  region_le p hp := by
    obtain ⟨heq, hle⟩ := Regions.mem_upTo.1 hp
    exact ⟨Nat.le_trans hle h.regions_le, heq ▸ hle⟩
  both file t ht :=
    ⟨t, h.kept file t ht, twin_self ht, Regions.mem_upTo.2 ⟨rfl, lib.kept.region_le file t ht⟩⟩
  early file t ht hn := by
    have hnew := h.region_lt file t ht hn
    refine ⟨(h.fetched file t ht).resolve_left fun hold => ?_, fun p hp e => ?_⟩
    · exact absurd (hn.symm.trans hold) (by simp)
    · have hle := (Regions.mem_upTo.1 hp).2
      omega
  neither file _ _ := congrArg (·.find file) h.loader

variable {w : Regions} {lib fresh : Library}

/-- A pair of regions of which the second is new is matched to none of the pairs before. -/
theorem ne_new (h : Alike w lib fresh) : ∀ p ∈ w, p.2 ≠ fresh.regions + 1 := by
  intro p hp e
  have hle := (h.region_le p hp).2
  omega

/-- The younger library keeps what the older one kept before. Its new template is a twin of the kept
one, and their regions are paired from now on. -/
theorem keep_early (h : Alike w lib fresh) {file : String} {t t' : Template}
    (ht : lib.templates.get? file = some t) (hn : fresh.templates.get? file = none)
    (hf : fresh.fetch file = .ok t') (htwin : t.Twin t') :
    Alike ((t.region, t'.region) :: w) lib (fresh.keep file t' hf) := by
  obtain ⟨source, -, hp⟩ := parse_of_fetch hf
  have hr : t'.region = fresh.regions + 1 := Template.region_of_parse hp
  obtain ⟨-, hnew⟩ := h.early file t ht hn
  constructor
  · exact h.functions
  · exact h.matched.cons hnew (hr ▸ h.ne_new)
  · intro p hp
    rcases List.mem_cons.1 hp with rfl | hp
    · exact ⟨lib.kept.region_le file t ht, Nat.le_of_eq hr⟩
    · exact ⟨(h.region_le p hp).1, Nat.le_succ_of_le (h.region_le p hp).2⟩
  · intro name u' hu'
    rcases Cache.get?_keep_cases hu' with old | ⟨-, rfl, rfl⟩
    · obtain ⟨u, hu, hin⟩ := h.both name u' old
      exact ⟨u, hu, hin.mono (List.subset_cons_self _ _)⟩
    · exact ⟨t, ht, htwin, List.mem_cons_self⟩
  · intro name u hu hu'
    obtain ⟨hold, hne⟩ := Cache.get?_keep_eq_none hu'
    obtain ⟨hsource, hfree⟩ := h.early name u hu hold
    refine ⟨hsource, fun p hp => ?_⟩
    rcases List.mem_cons.1 hp with rfl | hp
    · exact fun e => hne (lib.kept.region_inj name file u t hu ht e.symm)
    · exact hfree p hp
  · intro name hu hu'
    exact h.neither name hu (Cache.get?_keep_eq_none hu').1

/-- Both libraries keep what neither kept before. The new regions are paired; they are above all
that were handed out, so no pair stands in the way. -/
theorem keep_both (h : Alike w lib fresh) {file : String} {t t' : Template}
    (hn : lib.templates.get? file = none) (hf : lib.fetch file = .ok t)
    (hf' : fresh.fetch file = .ok t') (htwin : t.Twin t') :
    Alike ((t.region, t'.region) :: w) (lib.keep file t hf) (fresh.keep file t' hf') := by
  obtain ⟨source, -, hp⟩ := parse_of_fetch hf
  obtain ⟨source', -, hp'⟩ := parse_of_fetch hf'
  -- The new regions are above all that were handed out on either side.
  have hr : t.region = lib.regions + 1 := Template.region_of_parse hp
  have hr' : t'.region = fresh.regions + 1 := Template.region_of_parse hp'
  have hnew : ∀ p ∈ w, p.1 ≠ t.region := by
    intro p hp e
    have hle := (h.region_le p hp).1
    omega
  constructor
  · exact h.functions
  · exact h.matched.cons hnew (hr' ▸ h.ne_new)
  · intro p hp
    rcases List.mem_cons.1 hp with rfl | hp
    · exact ⟨Nat.le_of_eq hr, Nat.le_of_eq hr'⟩
    · have hle := h.region_le p hp
      exact ⟨Nat.le_succ_of_le hle.1, Nat.le_succ_of_le hle.2⟩
  -- A template of the new library is an old one, or the one that is kept now.
  · intro name u' hu'
    rcases Cache.get?_keep_cases hu' with old | ⟨-, rfl, rfl⟩
    · obtain ⟨u, hu, hin⟩ := h.both name u' old
      exact ⟨u, Cache.get?_keep_of_get? hu file t, hin.mono (List.subset_cons_self _ _)⟩
    · exact ⟨t, Cache.get?_keep_self hn t, htwin, List.mem_cons_self⟩
  -- So is one that only the used library has, and its region is matched with none.
  · intro name u hu hu'
    obtain ⟨hold', hne⟩ := Cache.get?_keep_eq_none hu'
    rcases Cache.get?_keep_cases hu with hold | ⟨-, e, -⟩
    · obtain ⟨hsource, hfree⟩ := h.early name u hold hold'
      refine ⟨hsource, fun p hp => ?_⟩
      rcases List.mem_cons.1 hp with rfl | hp
      · have hle := lib.kept.region_le name u hold
        exact fun e => by omega
      · exact hfree p hp
    · exact absurd e hne
  · intro name hu hu'
    exact h.neither name (Cache.get?_keep_eq_none hu).1 (Cache.get?_keep_eq_none hu').1

/-- A file that only the older library keeps is found by the younger one, too. -/
theorem fetch_early (h : Alike w lib fresh) {file : String} {t : Template}
    (ht : lib.templates.get? file = some t) (hn : fresh.templates.get? file = none) :
    ∃ t', fresh.fetch file = .ok t' ∧ t.Twin t' := by
  obtain ⟨⟨source, hs, hp⟩, -⟩ := h.early file t ht hn
  have htwin := Template.twin_parse t.region (fresh.regions + 1) file source
  rw [hp] at htwin
  rw [fetch_of_ok hs, parse]
  generalize Template.parse (fresh.regions + 1) file source = parsed at htwin ⊢
  cases htwin with
  | ok htwin => exact ⟨_, rfl, htwin⟩

/-- For a file that neither library keeps both find twins, or fail for the same reason. -/
theorem fetch_neither (h : Alike w lib fresh) {file : String}
    (hn : lib.templates.get? file = none) (hn' : fresh.templates.get? file = none) :
    Outcome Template.Twin (lib.fetch file) (fresh.fetch file) := by
  have hfind := h.neither file hn hn'
  cases hs : lib.loader.find file with
  | error e =>
      rw [fetch_of_error hs, fetch_of_error (hfind.symm.trans hs)]
      exact .error _
  | ok source =>
      rw [fetch_of_ok hs, fetch_of_ok (hfind.symm.trans hs)]
      exact (Template.twin_parse _ _ file source).mapError _

/-- Looking for a file finds twins or fails for the same reason. A template that only one side has
kept is parsed on the other, and then differs in its region alone. -/
theorem load (h : Alike w lib fresh) (file : String) :
    ∃ w', w ⊆ w' ∧ Alike w' (lib.load file).2 (fresh.load file).2 ∧
      Outcome (Template.TwinIn w') (lib.load file).1 (fresh.load file).1 := by
  -- Both libraries have the file, only the used one has it, or neither does.
  cases hn' : fresh.templates.get? file with
  | some t' =>
      obtain ⟨t, ht, hin⟩ := h.both file t' hn'
      rw [load_of_get? ht, load_of_get? hn']
      exact ⟨w, List.Subset.refl w, h, .ok hin⟩
  | none =>
      cases hn : lib.templates.get? file with
      | some t =>
          obtain ⟨t', hf, htwin⟩ := h.fetch_early hn hn'
          rw [load_of_get? hn, load_of_ok hn' hf]
          exact ⟨_, List.subset_cons_self _ _, h.keep_early hn hn' hf htwin,
            .ok ⟨htwin, List.mem_cons_self⟩⟩
      | none =>
          -- The used one has it only if both look for it now, with the same outcome.
          have hfetch := h.fetch_neither hn hn'
          cases hf : lib.fetch file with
          | error fault =>
              rw [hf] at hfetch
              generalize hf' : fresh.fetch file = found at hfetch
              cases hfetch
              rw [load_of_error hn hf, load_of_error hn' hf']
              exact ⟨w, List.Subset.refl w, h, .error fault⟩
          | ok t =>
              rw [hf] at hfetch
              generalize hf' : fresh.fetch file = found at hfetch
              cases hfetch with
              | ok htwin =>
                  rw [load_of_ok hn hf, load_of_ok hn' hf']
                  exact ⟨_, List.subset_cons_self _ _, h.keep_both hn hf hf' htwin,
                    .ok ⟨htwin, List.mem_cons_self⟩⟩

/-- Regions handed out on both sides can stand for each other: neither has been in use, so nothing
that was matched before is touched. -/
theorem handOut (h : Alike w lib fresh) :
    Alike ((lib.regions + 1, fresh.regions + 1) :: w) lib.handOut fresh.handOut := by
  have hnew : ∀ p ∈ w, p.1 ≠ lib.regions + 1 := by
    intro p hp e
    have hle := (h.region_le p hp).1
    omega
  constructor
  · exact h.functions
  · exact h.matched.cons hnew h.ne_new
  · intro p hp
    rcases List.mem_cons.1 hp with rfl | hp
    · exact ⟨Nat.le_refl _, Nat.le_refl _⟩
    · have hle := h.region_le p hp
      exact ⟨Nat.le_succ_of_le hle.1, Nat.le_succ_of_le hle.2⟩
  · intro name u' hu'
    obtain ⟨u, hu, hin⟩ := h.both name u' hu'
    exact ⟨u, hu, hin.mono (List.subset_cons_self _ _)⟩
  · intro name u hu hu'
    obtain ⟨hsource, hfree⟩ := h.early name u hu hu'
    refine ⟨hsource, fun p hp => ?_⟩
    rcases List.mem_cons.1 hp with rfl | hp
    · have hle := lib.kept.region_le name u hu
      exact fun e => by omega
    · exact hfree p hp
  · exact h.neither

end Alike
end Library
end Stencil
