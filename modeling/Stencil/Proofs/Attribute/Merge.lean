import Stencil.Proofs.Attribute.Literal
import Stencil.Proofs.Fault
import Stencil.Proofs.Interpolation

/-!
# Merged attributes

No attribute is lost or doubled when bindings are merged into static attributes.

## Main definitions

* `Attribute.staticName?` — the name an attribute stands under in the output by itself
* `Attribute.bindings`, `Attribute.Bound` — the bindings of an element, and what they come to
* `Attribute.Merged` — static attributes and bindings as one list

## Main results

* `Attribute.exists_statics`, `Attribute.exists_bound` — an evaluation that succeeds has a value for
  each static attribute and for each binding
* `Attribute.merged_foldl` — adding the bindings one by one merges them
* `exists_merged_of_evalAttributes` — what the attributes of an element are evaluated to

## Design notes

What the output is made of is told in two steps: the evaluated attributes and bindings, one for
each that is written, and how they are merged. Only the second one depends on their order and their
names.
-/

namespace Stencil.Attribute

open Text Markup

/-! ### Attributes and bindings -/

/-- The name that an attribute stands under in the output by itself: that of a literal escape, or
its own if it steers nothing. -/
def staticName? (name : String) : Option String :=
  (literalName? name).or
    (if (bindingName? name).isSome || isDirectiveAttribute name || isControl name then none
    else some name)

/-- The attributes that are not bound, behind the names they stand under. -/
def statics (attributes : Attributes) : List (String × String × String) :=
  attributes.filterMap fun a => (staticName? a.1).map (·, a)

/-- The bindings, under the names that they bind. -/
def bindings (attributes : Attributes) : Attributes :=
  attributes.filterMap fun a => (bindingName? a.1).map (·, a.2)

/-- A binding with its value. -/
structure Bound where
  name : String
  text : String
  truthy : Bool

section Evaluation

variable (scope : Scope) (functions : FunctionTable)

/-- A static attribute is evaluated: an escape stands for its value, any other text is interpolated.
-/
def IsStatic (written : String × String × String) (entry : String × String) : Prop :=
  entry.1 = written.1 ∧
    if (literalName? written.2.1).isSome then entry.2 = written.2.2
    else (Interpolation.interpolate scope written.2.2 false).value functions = .ok entry.2

/-- A binding is evaluated. -/
def IsBound (binding : String × String) (bound : Bound) : Prop :=
  bound.name = binding.1 ∧
    (evalBinding scope binding.1 binding.2).value functions = .ok (bound.text, bound.truthy)

variable {scope functions}

/-- What binds is a directive, so that it does not stand in the output by itself. -/
theorem isDirectiveAttribute_of_bindingName? {name bound : String}
    (h : bindingName? name = some bound) : isDirectiveAttribute name = true := by
  have hbegins {start : String} (h : nameAfter? start name = some bound) :
      hasPrefix start name = true := by
    obtain ⟨rest, hstrip, -⟩ := Option.map_eq_some_iff.1 h
    rw [hasPrefix, startsWith, hstrip]
    rfl
  rw [isDirectiveAttribute, Bool.or_eq_true, Bool.or_eq_true]
  rcases Option.or_eq_some_iff.1 (Option.eq_some_of_filter_eq_some h) with h | ⟨-, h⟩
  · exact .inl (.inr (hbegins h))
  · exact .inr (hbegins h)

/-- A literal escape stands under the name that it escapes. -/
theorem staticName?_of_literalName? {name literal : String} (h : literalName? name = some literal) :
    staticName? name = some literal := by
  rw [staticName?, h, Option.some_or]

/-- Any other attribute stands under its own name, or under none if it steers the rendering. -/
theorem staticName?_of_not_literal {name : String} (h : literalName? name = none) :
    staticName? name =
      if isDirectiveAttribute name || isControl name then none else some name := by
  rw [staticName?, h, Option.none_or]
  rcases hbinding : bindingName? name with _ | bound
  · rfl
  · rw [isDirectiveAttribute_of_bindingName? hbinding]
    rfl

/-- An attribute that stands for itself is the only one of its list. -/
theorem statics_singleton_of_some {a : String × String} {name : String}
    (h : staticName? a.1 = some name) : statics [a] = [(name, a)] := by
  rw [statics, List.filterMap_cons, h]
  rfl

/-- One that does not leaves no attribute. -/
theorem statics_singleton_of_none {a : String × String} (h : staticName? a.1 = none) :
    statics [a] = [] := by
  rw [statics, List.filterMap_cons, h]
  rfl

/-- A static attribute gives the entry of its name, any other attribute none. What is static is told
by the name; what its value becomes is told by the delimiters in it. -/
theorem exists_static {a : String × String} {out : Attributes}
    (h : (evalStatic scope a.1 a.2).value functions = .ok out) :
    List.Forall₂ (IsStatic scope functions) (statics [a]) out := by
  unfold evalStatic at h
  split at h
  -- A literal escape, an attribute that steers the rendering, and any other one.
  · rename_i literal hliteral
    obtain rfl : [(literal, a.2)] = out := Except.ok.inj h
    rw [statics_singleton_of_some (staticName?_of_literalName? hliteral)]
    refine .cons ⟨rfl, ?_⟩ .nil
    rw [hliteral]
    rfl
  · rename_i hliteral
    have hname := staticName?_of_not_literal hliteral
    split at h
    · rename_i hsteers
      obtain rfl : [] = out := Except.ok.inj h
      rw [statics_singleton_of_none (hname.trans (if_pos hsteers))]
      exact .nil
    · rename_i hsteers
      have hentry {v : String} (hv : (Interpolation.interpolate scope a.2 false).value functions =
          .ok v) : List.Forall₂ (IsStatic scope functions) [(a.1, a)] [(a.1, v)] := by
        refine .cons ⟨rfl, ?_⟩ .nil
        rw [hliteral]
        exact hv
      rw [statics_singleton_of_some (hname.trans (if_neg hsteers))]
      split at h
      · obtain ⟨v, hv, h⟩ := Evaluation.exists_of_value_bind functions h
        obtain rfl : [(a.1, v)] = out := Except.ok.inj h
        exact hentry hv
      -- Without delimiters the text is not interpolated, which would leave it as it is.
      · rename_i hin
        obtain rfl : [(a.1, a.2)] = out := Except.ok.inj h
        refine hentry ?_
        rw [Interpolation.interpolate,
          Interpolation.split_of_not_isIn (Bool.not_eq_true _ ▸ hin)]
        show Except.ok (String.ofList (a.2.toList ++ [])) = _
        rw [List.append_nil, String.ofList_toList]

/-- The attributes that stand for themselves are found one by one. -/
theorem statics_cons (a : String × String) (rest : Attributes) :
    statics (a :: rest) = statics [a] ++ statics rest :=
  List.filterMap_append (l := [a])

/-- If evaluation succeeds, the output has an entry for each attribute that stands for itself, in
order. -/
theorem exists_statics {attributes out : Attributes}
    (h : (evalStatics scope attributes).value functions = .ok out) :
    List.Forall₂ (IsStatic scope functions) (statics attributes) out := by
  induction attributes generalizing out with
  | nil =>
      obtain rfl : [] = out := Except.ok.inj h
      exact .nil
  | cons a rest ih =>
      obtain ⟨here, hhere, h⟩ := Evaluation.exists_of_value_bind functions h
      obtain ⟨others, hothers, h⟩ := Evaluation.exists_of_value_bind functions h
      obtain rfl : here ++ others = out := Except.ok.inj h
      rw [statics_cons]
      exact List.rel_append (exists_static hhere) (ih hothers)

/-- The entries have the names that the attributes stand under. -/
theorem names_of_isStatic {written : List (String × String × String)} {static : Attributes}
    (h : List.Forall₂ (IsStatic scope functions) written static) :
    static.map Prod.fst = written.map Prod.fst := by
  induction h with
  | nil => rfl
  | cons hentry _ ih => rw [List.map_cons, List.map_cons, ih, hentry.1]

/-- Those names are read off the written ones. -/
theorem names_statics (attributes : Attributes) :
    (statics attributes).map Prod.fst = attributes.filterMap (staticName? ·.1) := by
  rw [statics, List.map_filterMap]
  simp only [Option.map_map, Function.comp_def, Option.map_id']

end Evaluation

/-! ### Merging -/

/-- Adds a binding to the output. -/
def Bound.addTo (out : Attributes) (b : Bound) : Attributes := addBinding b.name b.text b.truthy out

/-- The bindings are evaluated and added one by one. What a binding is evaluated to does not depend
on what was added before, so that all values may be had first and the adding is a fold over them. -/
theorem exists_bound {scope : Scope} {functions : FunctionTable}
    {attributes before out : Attributes}
    (h : (evalBindings scope before attributes).value functions = .ok out) :
    ∃ bound, List.Forall₂ (IsBound scope functions) (bindings attributes) bound ∧
      out = bound.foldl Bound.addTo before := by
  induction attributes generalizing before with
  | nil =>
      obtain rfl : before = out := Except.ok.inj h
      exact ⟨[], .nil, rfl⟩
  | cons a rest ih =>
      unfold evalBindings at h
      rw [bindings, List.filterMap_cons]
      split at h
      · rename_i hname
        rw [hname]
        exact ih h
      · rename_i name hname
        obtain ⟨⟨text, truthy⟩, hvalue, h⟩ := Evaluation.exists_of_value_bind functions h
        obtain ⟨bound, hbound, hout⟩ := ih h
        rw [hname]
        exact ⟨⟨name, text, truthy⟩ :: bound, .cons ⟨rfl, hvalue⟩ hbound, hout⟩

/-- The words of the first `class` attribute. -/
def classes (attributes : Attributes) : List (List Char) :=
  words ((attributes.lookup "class").getD "").toList

/-- The words that a binding of `class` adds. -/
def Bound.classes (b : Bound) : List (List Char) :=
  if b.name = "class" ∧ b.truthy = true then words b.text.toList else []

/-- The names that bindings add to some names: those of bindings that count as true, in the order in
which they come up first. -/
def added (names : List String) (bound : List Bound) : List String :=
  (((bound.filter (·.truthy)).map (·.name)).filter (· ∉ names)).eraseDups

/-- Static attributes and bindings in one list: a binding that counts as true adds its name if there
is no such attribute, no other entry than the first of a name is changed, and classes add up. -/
structure Merged (static : Attributes) (bound : List Bound) (out : Attributes) : Prop where
  names : out.map Prod.fst = static.map Prod.fst ++ added (static.map Prod.fst) bound
  kept : ∀ i a, static[i]? = some a →
    (a.1 ∉ bound.map (·.name) ∨ a.1 ∈ (static.take i).map Prod.fst) → out[i]? = some a
  classes : classes out = classes static ++ bound.flatMap (·.classes)

section Step

variable {name text : String} {truthy : Bool}

/-- A binding passes over an entry of another name. -/
theorem addBinding_cons_of_ne {a : String × String} (h : a.1 ≠ name) (out : Attributes) :
    addBinding name text truthy (a :: out) = a :: addBinding name text truthy out := by
  rw [addBinding, if_neg h]

/-- A name that there is, is not added once more. -/
theorem names_addBinding (out : Attributes) :
    (addBinding name text truthy out).map Prod.fst = out.map Prod.fst ++
      if truthy = true ∧ name ∉ out.map Prod.fst then [name] else [] := by
  induction out with
  | nil => cases truthy <;> rfl
  | cons a rest ih =>
      by_cases ha : a.1 = name
      · have hmem : name ∈ (a :: rest).map Prod.fst := ha ▸ List.mem_cons_self
        rw [if_neg fun h => h.2 hmem, List.append_nil, addBinding, if_pos ha]
        split <;> rfl
      · have hmem : name ∉ (a :: rest).map Prod.fst ↔ name ∉ rest.map Prod.fst := by
          simp [Ne.symm ha]
        rw [addBinding_cons_of_ne ha, List.map_cons, ih]
        simp only [hmem]
        rfl

/-- Only the first entry of the name is changed. Entries keep their positions, so those in front of
it and those behind it are told by their index alone. -/
theorem getElem?_addBinding {out : Attributes} {i : Nat} {a : String × String}
    (hi : out[i]? = some a) (h : a.1 ≠ name ∨ a.1 ∈ (out.take i).map Prod.fst) :
    (addBinding name text truthy out)[i]? = some a := by
  induction out generalizing i with
  | nil => exact nomatch hi
  | cons b rest ih =>
      by_cases hb : b.1 = name
      · rw [addBinding, if_pos hb]
        cases i with
        | zero =>
            obtain rfl := Option.some.inj hi
            exact absurd h (by simp [hb])
        | succ i => split <;> exact hi
      · rw [addBinding_cons_of_ne hb]
        cases i with
        | zero => exact hi
        | succ i =>
            refine ih hi ?_
            rw [List.take_succ_cons, List.map_cons, List.mem_cons] at h
            rcases h with h | h | h
            · exact .inl h
            · exact .inl (h ▸ hb)
            · exact .inr h

end Step

/-- The words of texts joined with blanks are those of the texts in turn. -/
theorem words_joined (texts : List String) :
    words (" ".intercalate texts).toList = texts.flatMap fun text => words text.toList := by
  rw [String.toList_intercalate]
  show words ([' '].intercalate _) = _
  rw [words_intercalate, List.flatMap_map]

/-- The words of a class value over another one are those of both. -/
theorem words_mergeValue (static bound : String) :
    words (mergeValue "class" static bound).toList = words static.toList ++ words bound.toList := by
  have hempty (texts : List String) : (texts.filter (!·.isEmpty)).flatMap (words ·.toList) =
      texts.flatMap (words ·.toList) := by
    induction texts with
    | nil => rfl
    | cons text rest ih =>
        rw [List.filter_cons, List.flatMap_cons]
        split
        · rw [List.flatMap_cons, ih]
        · rename_i htext
          have hnil : text = "" := by simpa using htext
          rw [ih, hnil]
          rfl
  rw [mergeValue, if_pos (beq_self_eq_true "class"), words_joined, hempty]
  simp only [List.flatMap_cons, List.flatMap_nil, List.append_nil, trimmed, String.toList_ofList,
    words_trim]

/-- The first `class` counts, and no other attribute does. -/
theorem classes_cons (a : String × String) (rest : Attributes) :
    classes (a :: rest) = if a.1 = "class" then words a.2.toList else classes rest := by
  rw [classes, List.lookup_cons]
  by_cases h : a.1 = "class"
  · rw [if_pos h, h]
    rfl
  · have hkey : ("class" == a.1) = false := beq_eq_false_iff_ne.2 (Ne.symm h)
    rw [if_neg h, hkey]
    rfl

/-- Only a binding of `class` adds words to it. -/
theorem Bound.classes_of_ne {b : Bound} (h : b.name ≠ "class") : b.classes = [] :=
  if_neg fun hclass => h hclass.1

/-- A binding adds its words behind those that are there. It does so for a first `class` too, whose
words are none before. -/
theorem classes_addTo (b : Bound) (out : Attributes) :
    classes (b.addTo out) = classes out ++ b.classes := by
  induction out with
  | nil =>
      rw [Bound.addTo, addBinding]
      split
      · rename_i htruthy
        rw [classes_cons, Bound.classes, htruthy]
        simp only [and_true]
        rfl
      · rename_i hfalsy
        rw [Bound.classes, if_neg fun h => hfalsy h.2]
        rfl
  | cons a rest ih =>
      by_cases ha : a.1 = b.name
      -- The binding meets an entry of its own name.
      · -- A binding of `class` that does not count as true leaves the entry as it is.
        rw [Bound.addTo, addBinding, if_pos ha, classes_cons]
        by_cases hclass : a.1 = "class"
        · have hname : b.name = "class" := ha.symm.trans hclass
          rw [if_pos hclass, Bound.classes, hname]
          cases hb : b.truthy with
          | true =>
              rw [if_neg (by decide), if_pos ⟨rfl, rfl⟩, classes_cons, if_pos hclass]
              dsimp only
              rw [words_mergeValue]
          | false =>
              rw [if_pos (by decide), if_neg (by decide), classes_cons, if_pos hclass,
                List.append_nil]
        · rw [if_neg hclass, Bound.classes_of_ne (ha ▸ hclass), List.append_nil]
          split <;> rw [classes_cons, if_neg hclass]
      -- The binding passes over the entry.
      · rw [Bound.addTo, addBinding_cons_of_ne ha, classes_cons, classes_cons, ← Bound.addTo, ih]
        split
        · rename_i hclass
          rw [Bound.classes_of_ne fun h => ha (hclass.trans h.symm), List.append_nil]
        · rfl

/-- A binding that counts as true, under a new name, adds the name. -/
theorem added_cons_of_adds {b : Bound} {names : List String}
    (h : b.truthy = true ∧ b.name ∉ names) (bound : List Bound) :
    added names (b :: bound) = b.name :: added (names ++ [b.name]) bound := by
  have hfilter (others : List String) :
      (others.filter (· ∉ names)).filter (fun name => !name == b.name) =
        others.filter (· ∉ names ++ [b.name]) := by
    rw [List.filter_filter]
    refine List.filter_congr fun name _ => ?_
    by_cases hname : name = b.name <;> simp [hname]
  rw [added, List.filter_cons, if_pos h.1, List.map_cons, List.filter_cons,
    if_pos (decide_eq_true h.2), List.eraseDups_cons, hfilter, added]

/-- Any other binding adds no name. -/
theorem added_cons_of_not_adds {b : Bound} {names : List String}
    (h : ¬(b.truthy = true ∧ b.name ∉ names)) (bound : List Bound) :
    added names (b :: bound) = added names bound := by
  rw [added, List.filter_cons]
  split
  · rename_i htruthy
    rw [List.map_cons, List.filter_cons, if_neg, added]
    simpa [htruthy] using h
  · rfl

/-- Without bindings the static attributes stay as they are. -/
theorem merged_nil (static : Attributes) : Merged static [] static where
  names := (List.append_nil _).symm
  kept _ _ h _ := h
  classes := (List.append_nil _).symm

/-- Adding a binding first merges it in front of the others. The specification is about all bindings
at once, so this is the step of the induction over them. -/
theorem Merged.cons {static out : Attributes} {b : Bound} {bound : List Bound}
    (h : Merged (b.addTo static) bound out) : Merged static (b :: bound) out where
  names := by
    have hnames : (b.addTo static).map Prod.fst = static.map Prod.fst ++
        if b.truthy = true ∧ b.name ∉ static.map Prod.fst then [b.name] else [] :=
      names_addBinding static
    rw [h.names, hnames]
    split
    · rename_i hadds
      rw [added_cons_of_adds hadds, List.append_assoc, List.singleton_append]
    · rename_i hadds
      rw [added_cons_of_not_adds hadds, List.append_nil]
  kept i a hi ha := by
    have hlt := (List.getElem?_eq_some_iff.1 hi).1
    have htake : ((b.addTo static).take i).map Prod.fst = (static.take i).map Prod.fst := by
      rw [List.map_take, List.map_take, Bound.addTo, names_addBinding,
        List.take_append_of_le_length (List.length_map (f := Prod.fst) ▸ hlt.le)]
    refine h.kept i a (getElem?_addBinding hi ?_) ?_
    · exact ha.imp_left fun hnot => fun he => hnot (List.mem_cons.2 (.inl he))
    · rw [htake]
      exact ha.imp_left fun hnot hmem => hnot (List.mem_cons_of_mem _ hmem)
  classes := by
    rw [h.classes, classes_addTo, List.append_assoc]
    rfl

/-- Adding the bindings one by one merges them. This is the run lemma for `Merged`: the induction is
on the bindings, and `Merged.cons` adds one more. -/
theorem merged_foldl (static : Attributes) (bound : List Bound) :
    Merged static bound (bound.foldl Bound.addTo static) := by
  induction bound generalizing static with
  | nil => exact merged_nil static
  | cons b bound ih => exact (ih (b.addTo static)).cons

/-! ### Object literals -/

/-- An entry of an object literal is evaluated. -/
def IsEntry (scope : Scope) (functions : FunctionTable) (entry : String × String)
    (value : String × Value) : Prop :=
  value.1 = entry.1 ∧ (objectValue scope entry.2).value functions = .ok value.2

/-- The values of an object literal stand under its keys, each evaluated. -/
theorem forall₂_of_objectValues {scope : Scope} {functions : FunctionTable}
    {entries : List (String × String)} {values : List (String × Value)}
    (h : (objectValues scope entries).value functions = .ok values) :
    List.Forall₂ (IsEntry scope functions) entries values := by
  induction entries generalizing values with
  | nil =>
      obtain rfl : [] = values := Except.ok.inj h
      exact .nil
  | cons entry entries ih =>
      obtain ⟨v, hv, h⟩ := Evaluation.exists_of_value_bind functions h
      obtain ⟨others, hothers, h⟩ := Evaluation.exists_of_value_bind functions h
      obtain rfl : (entry.1, v) :: others = values := Except.ok.inj h
      exact .cons ⟨rfl, hv⟩ (ih hothers)

/-- Classes written as an object literal are the words of the keys whose values count as true. A key
may hold several words. -/
theorem classes_of_objectLiteral? {scope : Scope} {functions : FunctionTable} {source : String}
    {entries : List (String × String)} {b : Bound} (hliteral : objectLiteral? source = some entries)
    (h : IsBound scope functions ("class", source) b) :
    ∃ values, List.Forall₂ (IsEntry scope functions) entries values ∧
      b.classes = (values.filter (·.2.truthy)).flatMap (words ·.1.toList) := by
  obtain ⟨hname, hvalue⟩ := h
  unfold evalBinding at hvalue
  rw [hliteral] at hvalue
  obtain ⟨values, hvalues, hvalue⟩ := Evaluation.exists_of_value_bind functions hvalue
  obtain ⟨htext, htruthy⟩ := Prod.mk.inj (Except.ok.inj hvalue)
  have hwords : words b.text.toList = (values.filter (·.2.truthy)).flatMap (words ·.1.toList) := by
    rw [← htext]
    show words (" ".intercalate _).toList = _
    rw [words_joined, List.flatMap_map]
  refine ⟨values, forall₂_of_objectValues hvalues, ?_⟩
  rw [← hwords, Bound.classes]
  split
  · rfl
  · -- What counts as false is empty here, and has no words.
    rename_i hfalsy
    have hempty : b.text = "" := by
      have hfalse : b.truthy = false := by simpa [hname] using hfalsy
      simpa [htext, hfalse] using htruthy
    rw [hempty]
    rfl

end Stencil.Attribute

namespace Stencil

open Attribute Text

/-- The attributes of an element are its static attributes, with their values, and its bindings,
with theirs, merged. The classes that an object literal adds are the words of its keys with values
that count as true, and those are the keys it is written with. -/
theorem exists_merged_of_evalAttributes {scope : Scope} {functions : FunctionTable}
    {attributes out : Attributes}
    (h : (evalAttributes scope attributes).value functions = .ok out) :
    ∃ static bound, List.Forall₂ (IsStatic scope functions) (statics attributes) static ∧
      static.map Prod.fst = attributes.filterMap (staticName? ·.1) ∧
      List.Forall₂ (IsBound scope functions) (bindings attributes) bound ∧
      Merged static bound out ∧
      (∀ source entries b, objectLiteral? source = some entries →
        IsBound scope functions ("class", source) b →
        ∃ values, List.Forall₂ (IsEntry scope functions) entries values ∧
          b.classes = (values.filter (·.2.truthy)).flatMap (words ·.1.toList)) ∧
      ∀ texts entries, List.Forall₂ Written texts entries →
        objectLiteral? (String.ofList ('\x7b' :: ([',', ' '].intercalate texts ++ ['\x7d']))) =
          some entries := by
  obtain ⟨static, hstatic, h⟩ := Evaluation.exists_of_value_bind functions h
  obtain ⟨bound, hbound, rfl⟩ := exists_bound h
  exact ⟨static, bound, exists_statics hstatic,
    (names_of_isStatic (exists_statics hstatic)).trans (names_statics attributes), hbound,
    merged_foldl static bound, fun _ _ _ hliteral hb => classes_of_objectLiteral? hliteral hb,
    fun _ _ hwritten => objectLiteral?_of_written hwritten⟩

/-- An escape keeps its braces, and of an object literal the keys with values are added to the
static classes. -/
theorem exists_merged_of_evalAttributes_classes :
    ∃ static bound, List.Forall₂ (IsStatic (.ofData (.map [])) [])
        [("class", "class", "a"), ("x", "[x]", "\x7b\x7b y \x7d\x7d")] static ∧
      List.Forall₂ (IsBound (.ofData (.map [])) []) [("class", "\x7bb: 1, 'c d': 0\x7d")] bound ∧
      Merged static bound [("class", "a b"), ("x", "\x7b\x7b y \x7d\x7d")] := by
  have hout : (evalAttributes (.ofData (.map [])) [("class", "a"),
      (":class", "\x7bb: 1, 'c d': 0\x7d"), ("[x]", "\x7b\x7b y \x7d\x7d")]).value [] =
      .ok [("class", "a b"), ("x", "\x7b\x7b y \x7d\x7d")] := eq_ok_of_toOption (by decide +kernel)
  obtain ⟨static, bound, hstatic, -, hvalues, hmerged, -⟩ := exists_merged_of_evalAttributes hout
  have hstatics : statics [("class", "a"), (":class", "\x7bb: 1, 'c d': 0\x7d"),
      ("[x]", "\x7b\x7b y \x7d\x7d")] =
      [("class", "class", "a"), ("x", "[x]", "\x7b\x7b y \x7d\x7d")] := by decide +kernel
  have hbindings : bindings [("class", "a"), (":class", "\x7bb: 1, 'c d': 0\x7d"),
      ("[x]", "\x7b\x7b y \x7d\x7d")] = [("class", "\x7bb: 1, 'c d': 0\x7d")] := by
    decide +kernel
  rw [hstatics] at hstatic
  rw [hbindings] at hvalues
  exact ⟨static, bound, hstatic, hvalues, hmerged⟩

end Stencil
