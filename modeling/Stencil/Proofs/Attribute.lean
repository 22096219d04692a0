import Stencil.Attribute.Eval
import Stencil.Proofs.Markup.StartTag

/-!
# Names of evaluated attributes

## Main results

* `isAttributeName_of_evalAttributes` — evaluation names attributes after parts of the names that
  were read, so that they can be read again
* `isAttributeName_hide` — as can those of a hidden element
-/

namespace Stencil

open Markup Text

namespace Attribute

/-- Whatever is evaluated, the names are those of attributes. -/
def Named (attributes : Attributes) : Prop := ∀ a ∈ attributes, IsAttributeName a.1

/-! ### Names within names -/

theorem IsAttributeName.of_subset {name part : String} (h : IsAttributeName name)
    (hsub : part.toList ⊆ name.toList) : IsAttributeName part :=
  fun c hc => h c (hsub hc)

theorem subset_of_stripPrefix? {start cs rest : List Char}
    (h : stripPrefix? start cs = some rest) : rest ⊆ cs := by
  rw [stripPrefix?_eq_some_iff.1 h]
  exact List.subset_append_right start rest

theorem subset_of_stripSuffix? {ending cs rest : List Char}
    (h : stripSuffix? ending cs = some rest) : rest ⊆ cs := by
  obtain ⟨reversed, hstrip, rfl⟩ := Option.map_eq_some_iff.1 h
  intro c hc
  exact List.mem_reverse.1 (subset_of_stripPrefix? hstrip (List.mem_reverse.1 hc))

theorem subset_of_nameAfter? {start name rest : String} (h : nameAfter? start name = some rest) :
    rest.toList ⊆ name.toList := by
  obtain ⟨cs, hstrip, rfl⟩ := Option.map_eq_some_iff.1 h
  rw [String.toList_ofList]
  exact subset_of_stripPrefix? hstrip

theorem isAttributeName_of_literalName? {name literal : String} (hname : IsAttributeName name)
    (h : literalName? name = some literal) : IsAttributeName literal := by
  refine IsAttributeName.of_subset hname ?_
  rcases Option.or_eq_some_iff.1 h with h | ⟨-, h⟩
  · exact subset_of_nameAfter? h
  · obtain ⟨rest, hstart, h⟩ := Option.bind_eq_some_iff.1 h
    obtain ⟨cs, hend, rfl⟩ := Option.map_eq_some_iff.1 h
    rw [String.toList_ofList]
    exact List.Subset.trans (subset_of_stripSuffix? hend) (subset_of_stripPrefix? hstart)

theorem isAttributeName_of_bindingName? {name bound : String} (hname : IsAttributeName name)
    (h : bindingName? name = some bound) : IsAttributeName bound := by
  refine IsAttributeName.of_subset hname ?_
  rcases Option.or_eq_some_iff.1 (Option.eq_some_of_filter_eq_some h) with h | ⟨-, h⟩
  · exact subset_of_nameAfter? h
  · exact subset_of_nameAfter? h

/-! ### Attributes -/

variable {scope : Scope} {functions : FunctionTable} {attributes out : Attributes}

theorem named_of_evalStatic {name value : String} (hname : IsAttributeName name)
    (h : (evalStatic scope name value).value functions = .ok out) : Named out := by
  unfold evalStatic at h
  split at h
  · rename_i literal hliteral
    obtain rfl : [(literal, value)] = out := Except.ok.inj h
    simpa [Named] using isAttributeName_of_literalName? hname hliteral
  · split at h
    · obtain rfl : [] = out := Except.ok.inj h
      simp [Named]
    · split at h
      · obtain ⟨s, -, h⟩ := Evaluation.exists_of_value_bind functions h
        obtain rfl : [(name, s)] = out := Except.ok.inj h
        simpa [Named] using hname
      · obtain rfl : [(name, value)] = out := Except.ok.inj h
        simpa [Named] using hname

theorem named_of_evalStatics (hnames : Named attributes)
    (h : (evalStatics scope attributes).value functions = .ok out) : Named out := by
  induction attributes generalizing out with
  | nil =>
      obtain rfl : [] = out := Except.ok.inj h
      simp [Named]
  | cons a rest ih =>
      obtain ⟨ha, hrest⟩ := List.forall_mem_cons.1 hnames
      obtain ⟨here, hhere, h⟩ := Evaluation.exists_of_value_bind functions h
      obtain ⟨others, hothers, h⟩ := Evaluation.exists_of_value_bind functions h
      obtain rfl : here ++ others = out := Except.ok.inj h
      exact List.forall_mem_append.2 ⟨named_of_evalStatic ha hhere, ih hrest hothers⟩

theorem named_addBinding {name : String} (hname : IsAttributeName name) (bound : String)
    (truthy : Bool) (h : Named attributes) : Named (addBinding name bound truthy attributes) := by
  induction attributes with
  | nil =>
      unfold addBinding
      split
      · simpa [Named] using hname
      · exact h
  | cons a rest ih =>
      obtain ⟨ha, hrest⟩ := List.forall_mem_cons.1 h
      unfold addBinding
      split
      · split
        · exact h
        · exact List.forall_mem_cons.2 ⟨ha, hrest⟩
      · exact List.forall_mem_cons.2 ⟨ha, ih hrest⟩

theorem named_of_evalBindings (hnames : Named attributes) :
    ∀ {before}, Named before →
      (evalBindings scope before attributes).value functions = .ok out → Named out := by
  induction attributes with
  | nil =>
      intro before hbefore h
      exact Except.ok.inj h ▸ hbefore
  | cons a rest ih =>
      obtain ⟨ha, hrest⟩ := List.forall_mem_cons.1 hnames
      intro before hbefore h
      unfold evalBindings at h
      split at h
      · exact ih hrest hbefore h
      · rename_i name hname
        obtain ⟨found, -, h⟩ := Evaluation.exists_of_value_bind functions h
        have hadded := named_addBinding (isAttributeName_of_bindingName? ha hname) found.1
          found.2 hbefore
        exact ih hrest hadded h

end Attribute

open Attribute

/-- The names of evaluated attributes are names as they are read. They are the names of static
attributes, those that literal escapes escape, and those that bindings bind, all of them parts of
names that were read. -/
theorem isAttributeName_of_evalAttributes {scope : Scope} {functions : FunctionTable}
    {attributes out : Attributes} (hnames : Named attributes)
    (h : (evalAttributes scope attributes).value functions = .ok out) : Named out := by
  obtain ⟨before, hstatic, h⟩ := Evaluation.exists_of_value_bind functions h
  exact named_of_evalBindings hnames (named_of_evalStatics hnames hstatic) h

/-- So are those of a hidden element. Hiding adds a `style` if there is none, and that is such a
name. -/
theorem isAttributeName_hide {attributes : Attributes} (h : Named attributes) :
    Named (hide attributes) := by
  induction attributes with
  | nil =>
      have hall : "style".toList.all isAttributeChar = true := by decide
      have hstyle : IsAttributeName "style" := List.all_eq_true.1 hall
      simpa [hide, Named] using hstyle
  | cons a rest ih =>
      obtain ⟨ha, hrest⟩ := List.forall_mem_cons.1 h
      unfold hide
      split
      · exact List.forall_mem_cons.2 ⟨ha, hrest⟩
      · exact List.forall_mem_cons.2 ⟨ha, ih hrest⟩

end Stencil
