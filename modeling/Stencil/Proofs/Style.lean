import Mathlib
import Stencil.Attribute.Eval
import Stencil.Proofs.Text

/-!
# The declaration that counts

What a merged style value means, where of several declarations of a property the last one counts.

## Main definitions

* `Style.valuesOf`, `Style.effective?` — the values that declarations give a property, and the one
  of them that counts
* `Style.Declaration.Proper` — declarations that can be read from a text

## Main results

* `Style.parse_write` — declarations that can be read are read back from their text
* `Style.valuesOf_merge` — the values of a property in a merged style
* `Style.effective?_merge_hide` — which of two style values decides on a property, and what an
  element that is hidden displays

## Design notes

Declarations are merged by writing over the first one of a property, while the last one counts. The
two are the same declaration only where a property is declared at most once, which is what the
results turn on.
-/

namespace Stencil

open Text

namespace Style

variable {property : String} {d : Declaration} {ds : List Declaration}

/-- The values that declarations give a property, in order. -/
def valuesOf (property : String) (ds : List Declaration) : List String :=
  (ds.filter (·.1 = property)).map (·.2)

/-- The value that counts: that of the last declaration of a property. Declarations in front of it
have no effect, whoever made them. -/
def effective? (property : String) (ds : List Declaration) : Option String :=
  (valuesOf property ds).getLast?

/-! ### Declarations and their text -/

/-- A property and a value as they are read from a text: without outer blanks and without the
characters that would end them. -/
structure Declaration.Proper (d : Declaration) : Prop where
  property_ne_nil : d.1.toList ≠ []
  isTrimmed_property : IsTrimmed d.1.toList
  isTrimmed_value : IsTrimmed d.2.toList
  colon : ':' ∉ d.1.toList
  semicolon_property : ';' ∉ d.1.toList
  semicolon_value : ';' ∉ d.2.toList

/-- The text of a declaration up to the semicolon. -/
def Declaration.chars (d : Declaration) : List Char := d.1.toList ++ ':' :: d.2.toList

theorem proper_of_declaration? {cs : List Char} (hcs : ';' ∉ cs) (h : declaration? cs = some d) :
    d.Proper := by
  obtain ⟨⟨property, value⟩, hsplit, h⟩ := Option.bind_eq_some_iff.1 h
  obtain ⟨hne, rfl⟩ : trim property ≠ [] ∧
      (String.ofList (trim property), String.ofList (trim value)) = d := by
    dsimp only at h
    split at h
    · exact nomatch h
    · rename_i hne
      exact ⟨fun he => hne (List.isEmpty_iff.2 he), Option.some.inj h⟩
  have htext := eq_of_splitOnce? hsplit
  have hin : ∀ {c}, c ∈ property ∨ c ∈ value → c ∈ cs := by
    rintro c (hc | hc)
    · rw [htext]
      exact List.mem_append_left _ (List.mem_append_left _ hc)
    · rw [htext]
      exact List.mem_append_right _ hc
  constructor
  · rwa [String.toList_ofList]
  · rw [String.toList_ofList]
    exact isTrimmed_trim property
  · rw [String.toList_ofList]
    exact isTrimmed_trim value
  · rw [String.toList_ofList]
    exact fun hc => notMem_of_splitOnce? hsplit (mem_of_mem_trim hc)
  · rw [String.toList_ofList]
    exact fun hc => hcs (hin (.inl (mem_of_mem_trim hc)))
  · rw [String.toList_ofList]
    exact fun hc => hcs (hin (.inr (mem_of_mem_trim hc)))

theorem declaration?_chars (h : d.Proper) : declaration? d.chars = some d := by
  have hsplit : splitOnce? [':'] d.chars = some (d.1.toList, d.2.toList) :=
    splitOnce?_of_notMem h.colon d.2.toList
  have hne : (trim d.1.toList).isEmpty = false := by
    rw [trim_of_isTrimmed h.isTrimmed_property, List.isEmpty_eq_false_iff]
    exact h.property_ne_nil
  simp only [declaration?, hsplit, Option.bind_eq_bind, Option.bind_some, hne, Bool.false_eq_true,
    if_false]
  rw [trim_of_isTrimmed h.isTrimmed_property, trim_of_isTrimmed h.isTrimmed_value,
    String.ofList_toList, String.ofList_toList]

/-- No piece between separators holds one. Pieces may be empty, where separators stand side by side.
-/
theorem notMem_of_mem_splitOnChar {sep : Char} {cs piece : List Char}
    (h : piece ∈ splitOnChar sep cs) : sep ∉ piece := by
  induction cs generalizing piece with
  | nil =>
      obtain rfl := List.mem_singleton.1 h
      exact List.not_mem_nil
  | cons c cs ih =>
      rw [splitOnChar, List.splitOnP_cons_eq_if_modifyHead] at h
      split at h
      · rcases List.mem_cons.1 h with rfl | h
        · exact List.not_mem_nil
        · exact ih h
      · rename_i hc
        rcases hpieces : cs.splitOnP (· == sep) with _ | ⟨first, others⟩
        · exact absurd hpieces (List.splitOnP_ne_nil _ cs)
        · rw [hpieces] at h
          have hmem : ∀ piece ∈ first :: others, sep ∉ piece := by
            rw [← hpieces]
            exact fun piece hpiece => ih hpiece
          rcases List.mem_cons.1 h with rfl | h
          · rw [List.mem_cons, not_or]
            refine ⟨?_, hmem first List.mem_cons_self⟩
            rintro rfl
            exact hc (beq_self_eq_true sep)
          · exact hmem piece (List.mem_cons_of_mem first h)

theorem proper_of_mem_parse {s : String} (h : d ∈ parse s) : d.Proper := by
  obtain ⟨piece, hpiece, hd⟩ := List.mem_filterMap.1 h
  exact proper_of_declaration? (notMem_of_mem_splitOnChar hpiece) hd

theorem write_cons (d : Declaration) (ds : List Declaration) :
    (write (d :: ds)).toList = d.chars ++ ';' :: (write ds).toList := by
  rw [write, List.map_cons, String.join_cons, String.toList_append, ← write]
  simp only [String.toList_append, Declaration.chars, List.append_assoc]
  rfl

/-- Declarations that can be read are read back from their text: their names have no colon, and
neither name nor value has a semicolon or blanks around it. -/
theorem parse_write (h : ∀ d ∈ ds, d.Proper) : parse (write ds) = ds := by
  induction ds with
  | nil => rfl
  | cons d ds ih =>
      obtain ⟨hd, hds⟩ := List.forall_mem_cons.1 h
      have hsemicolon : ∀ c ∈ d.chars, (c == ';') = false := by
        intro c hc
        rw [beq_eq_false_iff_ne]
        rintro rfl
        rcases List.mem_append.1 hc with hc | hc
        · exact hd.semicolon_property hc
        · rcases List.mem_cons.1 hc with hc | hc
          · exact absurd hc (by decide)
          · exact hd.semicolon_value hc
      have hsplit : splitOnChar ';' (write (d :: ds)).toList =
          d.chars :: splitOnChar ';' (write ds).toList := by
        rw [write_cons]
        exact List.splitOnP_append_cons_of_forall_mem hsemicolon ';' rfl _
      rw [parse, hsplit, List.filterMap_cons_some (declaration?_chars hd)]
      exact congrArg (d :: ·) (ih hds)

/-! ### Merging -/

theorem valuesOf_cons (property : String) (d : Declaration) (ds : List Declaration) :
    valuesOf property (d :: ds) =
      if d.1 = property then d.2 :: valuesOf property ds else valuesOf property ds := by
  unfold valuesOf
  rw [List.filter_cons]
  by_cases h : d.1 = property
  · simp [h]
  · simp [h]

/-- A declaration takes the place of the first one of its property. -/
theorem valuesOf_override (property : String) (ds : List Declaration) (d : Declaration) :
    valuesOf property (override ds d) =
      if d.1 = property then d.2 :: (valuesOf property ds).tail else valuesOf property ds := by
  induction ds with
  | nil => rw [override, valuesOf_cons]; rfl
  | cons e ds ih =>
      rw [override]
      by_cases he : e.1 = d.1
      · rw [if_pos he, valuesOf_cons, valuesOf_cons, he]
        by_cases hd : d.1 = property
        · simp [hd]
        · simp [hd]
      · rw [if_neg he, valuesOf_cons, valuesOf_cons, ih]
        by_cases hproperty : e.1 = property
        · have hd : d.1 ≠ property := fun hd => he (hproperty.trans hd.symm)
          simp [hproperty, hd]
        · simp [hproperty]

theorem proper_override (hds : ∀ e ∈ ds, e.Proper) (hd : d.Proper) :
    ∀ e ∈ override ds d, e.Proper := by
  induction ds with
  | nil => exact List.forall_mem_singleton.2 hd
  | cons e ds ih =>
      obtain ⟨he, hds⟩ := List.forall_mem_cons.1 hds
      rw [override]
      split
      · rename_i hsame
        have hd' : Declaration.Proper (e.1, d.2) := by
          rw [hsame]
          exact hd
        exact List.forall_mem_cons.2 ⟨hd', hds⟩
      · exact List.forall_mem_cons.2 ⟨he, ih hds⟩

/-- Of declarations that are put over others, the last one of a property decides on the value that
takes the place of the first. -/
theorem valuesOf_foldl_override (property : String) (ds bound : List Declaration) :
    valuesOf property (bound.foldl override ds) =
      match effective? property bound with
      | none => valuesOf property ds
      | some v => v :: (valuesOf property ds).tail := by
  induction bound generalizing ds with
  | nil => rfl
  | cons d bound ih =>
      rw [List.foldl_cons, ih, valuesOf_override, effective?, effective?, valuesOf_cons]
      by_cases hd : d.1 = property
      · rw [if_pos hd, if_pos hd, List.getLast?_cons]
        cases (valuesOf property bound).getLast? with
        | none => rfl
        | some v => rfl
      · rw [if_neg hd, if_neg hd]

theorem proper_foldl_override {bound : List Declaration} (hds : ∀ d ∈ ds, d.Proper)
    (hbound : ∀ d ∈ bound, d.Proper) : ∀ d ∈ bound.foldl override ds, d.Proper := by
  induction bound generalizing ds with
  | nil => exact hds
  | cons d bound ih =>
      obtain ⟨hd, hbound⟩ := List.forall_mem_cons.1 hbound
      exact ih (proper_override hds hd) hbound

/-- The values of a property in a merged style: those of the static one, the first of them
replaced. -/
theorem valuesOf_merge (property static bound : String) :
    valuesOf property (parse (merge static bound)) =
      match effective? property (parse bound) with
      | none => valuesOf property (parse static)
      | some v => v :: (valuesOf property (parse static)).tail := by
  have hproper := proper_foldl_override (fun d hd => proper_of_mem_parse (s := static) hd)
    (fun d hd => proper_of_mem_parse (s := bound) hd)
  rw [merge, parse_write hproper, valuesOf_foldl_override]

/-- A bound style decides on the properties that it declares, unless the static one declares them
several times. -/
theorem effective?_merge (property static bound : String) :
    effective? property (parse (merge static bound)) =
      if (valuesOf property (parse static)).length ≤ 1 then
        (effective? property (parse bound)).or (effective? property (parse static))
      else effective? property (parse static) := by
  rw [effective?, valuesOf_merge]
  rcases effective? property (parse bound) with _ | v
  · exact (ite_self _).symm
  · unfold effective?
    rcases valuesOf property (parse static) with _ | ⟨first, _ | ⟨second, others⟩⟩
    · rfl
    · rfl
    · rw [if_neg (by simp)]
      rfl

end Style

open Style

/-- The style of an element, empty where it has none. -/
def Attributes.style (attributes : Attributes) : String := (attributes.lookup "style").getD ""

/-- The style of a hidden element is its style with a declaration that hides it. -/
theorem style_hide (attributes : Attributes) :
    Attributes.style (hide attributes) = merge (Attributes.style attributes) "display:none;" := by
  unfold Attributes.style
  induction attributes with
  | nil => cbv
  | cons a attributes ih =>
      obtain ⟨key, value⟩ := a
      rw [hide]
      by_cases hkey : key = "style"
      · subst hkey
        rw [if_pos rfl, List.lookup_cons_self, List.lookup_cons_self]
        rfl
      · have hne : ("style" == key) = false := beq_eq_false_iff_ne.2 (Ne.symm hkey)
        rw [if_neg hkey, List.lookup_cons, hne, List.lookup_cons, hne]
        exact ih

namespace Style

/-- Whatever the two styles are, a property has the value of the bound one if that declares it and
the static one declares it at most once, and else that of the static one; and an element that is
hidden displays nothing if its style says at most once what it displays. -/
theorem effective?_merge_hide (property static bound : String) (attributes : Attributes) :
    effective? property (parse (merge static bound)) =
        (if (valuesOf property (parse static)).length ≤ 1 then
          (effective? property (parse bound)).or (effective? property (parse static))
        else effective? property (parse static)) ∧
      effective? "display" (parse (Attributes.style (hide attributes))) =
        if (valuesOf "display" (parse attributes.style)).length ≤ 1 then some "none"
        else effective? "display" (parse attributes.style) := by
  refine ⟨effective?_merge property static bound, ?_⟩
  have hbound : effective? "display" (parse "display:none;") = some "none" := by cbv
  rw [style_hide, effective?_merge, hbound, Option.some_or]

/-- Of two static declarations of a property the second one stays in force. -/
theorem not_effective?_merge :
    ¬ ∀ property static bound : String,
      effective? property (parse (merge static bound)) =
        (effective? property (parse bound)).or (effective? property (parse static)) := by
  intro h
  have hcolor := h "color" "color:red;color:blue" "color:green"
  have hleft : effective? "color" (parse (merge "color:red;color:blue" "color:green")) =
      some "blue" := by cbv
  have hright : (effective? "color" (parse "color:green")).or
      (effective? "color" (parse "color:red;color:blue")) = some "green" := by cbv
  rw [hleft, hright] at hcolor
  exact absurd hcolor (by decide)

end Style
end Stencil
