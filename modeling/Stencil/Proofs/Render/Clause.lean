import Stencil.Proofs.Pipe.Path
import Stencil.Render.Loop

/-!
# Loops over a variable

What `item in items` says when both are names.

## Main results

* `LoopClause.parse?_of_isName` — the clause of two names
* `Render.run_collection?_of_isName` — its collection is the value of the variable
-/

namespace Stencil

open Text

/-- A name does not stand between parentheses. -/
theorem LoopClause.betweenParentheses?_of_isName {cs : List Char} (h : isName cs = true) :
    betweenParentheses? cs = none := by
  rcases cs with _ | ⟨c, cs⟩
  · rfl
  · have hne : '(' ≠ c := by
      rintro rfl
      exact nomatch h
    rw [betweenParentheses?, stripPrefix?, if_neg hne]
    rfl

/-- The clause of two names has no variable for the key. Names hold no blanks, so the word between
them is found where it is written. -/
theorem LoopClause.parse?_of_isName {item collection : String}
    (hitem : isName item.toList = true) (hcollection : isName collection.toList = true) :
    LoopClause.parse? (item ++ " in " ++ collection) = some ⟨none, item, collection⟩ := by
  have htext : (item ++ " in " ++ collection).toList =
      item.toList ++ ([' ', 'i', 'n', ' '] ++ collection.toList) := by
    rw [String.toList_append, String.toList_append, List.append_assoc]
    rfl
  have hblank : ' ' ∉ item.toList := fun hmem =>
    absurd (isNameChar_of_mem hitem hmem) (by decide)
  have hne : collection.toList.isEmpty = false := by
    cases hnil : collection.toList with
    | nil =>
        rw [hnil] at hcollection
        exact nomatch hcollection
    | cons c cs => rfl
  unfold LoopClause.parse?
  rw [htext, splitOnce?_of_notMem hblank]
  simp only [Option.bind_eq_bind, Option.bind_some, trim_of_isTrimmed (isTrimmed_of_isName hitem),
    trim_of_isTrimmed (isTrimmed_of_isName hcollection), splitVariables?,
    betweenParentheses?_of_isName hitem, hne, hitem, Option.map_none, Option.getD_none,
    String.ofList_toList]
  rfl

/-- A name is a path without steps. -/
theorem Path.parse?_of_isName {s : String} (h : isName s.toList = true) :
    Path.parse? s = some ⟨s, []⟩ := by
  have hwritten : Path.Written ⟨s, []⟩ (s.toList ++ [].flatten) := .intro h .nil
  rw [List.flatten_nil, List.append_nil] at hwritten
  rw [Path.parse?, trim_of_isTrimmed (isTrimmed_of_isName h), hwritten.ofChars?]

theorem Scope.resolve?_of_isName (scope : Scope) {name : String} (h : isName name.toList = true) :
    scope.resolve? name = scope.lookup? name := by
  rw [Scope.resolve?, Path.parse?_of_isName h, Option.bind_some, Scope.resolvePath?]
  show (scope.lookup? name).bind some = _
  rw [Option.bind_fun_some]

/-- The collection that a name stands for is the value of the variable, and looking it up changes
nothing. -/
theorem Render.run_collection?_of_isName (c : Context) {name : String}
    (h : isName name.toList = true) :
    (Render.collection? name).run c = (.ok (c.scope.lookup? name), c) := by
  rw [Render.collection?, Path.parse?_of_isName h]
  show (get >>= fun c => pure (c.scope.resolve? name) : Render _).run c = _
  rw [Act.run_get_bind, c.scope.resolve?_of_isName h]
  rfl

end Stencil
