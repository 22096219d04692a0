import Stencil.Proofs.Attribute.Literal
import Stencil.Proofs.Path.Segment
import Stencil.Proofs.Pipe.Agreement
import Stencil.Proofs.Pipe.Place

/-!
# Interpolated bindings

Bindings that begin and end with an interpolation, which are read as object literals first.

## Main definitions

* `Attribute.interpolations` — interpolations with literal text between them
* `Attribute.Interpolates` — a binding has the value of its text with its expressions filled in

## Main results

* `Attribute.evalBinding_interpolations` — a text of interpolations is filled in if it has no colon
  outside of quotes, and empty otherwise

## Design notes

The outermost braces are taken for those of an object literal, so that what is left stands in braces
itself.  With plain text between the interpolations a scan meets no comma at the top level of it,
and it is one item; what comes after a colon in it ends with a brace that it does not begin, which
makes it neither an expression nor a path.
-/

namespace Stencil.Attribute

open Text Pipe Stencil.Expr

/-! ### Colons -/

section Colon

variable {quote : Option Char} {cs key value : List Char}

theorem eq_of_splitColon? (h : splitColon? quote cs = some (key, value)) :
    cs = key ++ ':' :: value := by
  induction cs generalizing quote key with
  | nil => exact nomatch h
  | cons c cs ih =>
      rcases quote with _ | q
      · rw [splitColon?] at h
        split at h
        · rename_i hc
          obtain ⟨rfl, rfl⟩ := Prod.mk.inj (Option.some.inj h)
          rw [eq_of_beq hc]
          rfl
        · obtain ⟨⟨key', value'⟩, hread, he⟩ := Option.map_eq_some_iff.1 h
          obtain ⟨rfl, rfl⟩ := Prod.mk.inj he
          rw [ih hread]
          rfl
      · obtain ⟨⟨key', value'⟩, hread, he⟩ := Option.map_eq_some_iff.1 h
        obtain ⟨rfl, rfl⟩ := Prod.mk.inj he
        rw [ih hread]
        rfl

/-- A last character that is no colon adds none. -/
theorem isSome_splitColon?_concat {c : Char} (hc : c ≠ ':') (quote : Option Char)
    (cs : List Char) :
    (splitColon? quote (cs ++ [c])).isSome = (splitColon? quote cs).isSome := by
  induction cs generalizing quote with
  | nil =>
      rcases quote with _ | q
      · simp [splitColon?, hc]
      · simp [splitColon?]
  | cons d cs ih =>
      rcases quote with _ | q
      · rw [List.cons_append, splitColon?, splitColon?]
        split
        · rfl
        · rw [Option.isSome_map, Option.isSome_map, ih]
      · rw [List.cons_append, splitColon?, splitColon?, Option.isSome_map, Option.isSome_map, ih]

end Colon

/-! ### Texts in braces -/

/-- A text without a brace at one of its ends is no object literal. -/
theorem objectLiteral?_of_isTrimmed {s : String} (h : IsTrimmed s.toList)
    (hends : s.toList.head? ≠ some '\x7b' ∨ s.toList.getLast? ≠ some '\x7d') :
    objectLiteral? s = none := by
  rcases hbraces : betweenBraces? s.toList with _ | inner
  · rw [objectLiteral?, trim_of_isTrimmed h, hbraces]
    rfl
  · obtain ⟨rest, hrest, hinner⟩ := Option.bind_eq_some_iff.1 hbraces
    obtain ⟨back, hback, rfl⟩ := Option.map_eq_some_iff.1 hinner
    have hs : s.toList = '\x7b' :: rest := stripPrefix?_eq_some_iff.1 hrest
    have hreverse : rest.reverse = '\x7d' :: back := stripPrefix?_eq_some_iff.1 hback
    rw [hs, ← List.reverse_reverse rest, hreverse, List.reverse_cons, ← List.cons_append,
      List.getLast?_concat] at hends
    exact absurd hends (by simp)

/-! ### Interpolations -/

/-- Literal text that means nothing to the scans of an object literal: without quotes, brackets and
backslashes. -/
def IsPlain (text : String) : Prop := ∀ c ∈ text.toList, isInert c = true

/-- Interpolations, each but the first one with the literal text in front of it. -/
def interpolationChars : (first : String) → (others : List (String × String)) → List Char
  | first, [] => Interpolation.opening ++ first.toList ++ Interpolation.closing
  | first, (text, source) :: others =>
    Interpolation.opening ++ first.toList ++ Interpolation.closing ++ text.toList ++
      interpolationChars source others

/-- Interpolations, each but the first one with the literal text in front of it. -/
def interpolations (first : String) (others : List (String × String)) : String :=
  String.ofList (interpolationChars first others)

/-- What stands between the outermost braces of some interpolations. -/
def innerChars : (first : String) → (others : List (String × String)) → List Char
  | first, [] => '\x7b' :: (first.toList ++ ['\x7d'])
  | first, (text, source) :: others =>
    '\x7b' :: (first.toList ++ ['\x7d']) ++
      '\x7d' :: (text.toList ++ '\x7b' :: innerChars source others)

theorem toList_interpolations (first : String) (others : List (String × String)) :
    (interpolations first others).toList = '\x7b' :: (innerChars first others ++ ['\x7d']) := by
  rw [interpolations, String.toList_ofList]
  induction others generalizing first with
  | nil =>
      simp only [interpolationChars, innerChars, Interpolation.opening, Interpolation.closing,
        List.append_assoc, List.cons_append, List.nil_append]
  | cons other others ih =>
      simp only [interpolationChars, innerChars, ih, Interpolation.opening, Interpolation.closing,
        List.append_assoc, List.cons_append, List.nil_append]

/-- A text that begins and ends with a brace. -/
structure IsBraced (inner : List Char) : Prop where
  head : inner.head? = some '\x7b'
  last : inner.getLast? = some '\x7d'

theorem isBraced_innerChars (first : String) (others : List (String × String)) :
    IsBraced (innerChars first others) := by
  induction others generalizing first with
  | nil =>
      refine ⟨rfl, ?_⟩
      rw [innerChars, ← List.cons_append, List.getLast?_concat]
  | cons other others ih =>
      refine ⟨rfl, ?_⟩
      rw [innerChars, List.getLast?_append, List.getLast?_cons, List.getLast?_append,
        List.getLast?_cons, (ih other.2).last]
      rfl

theorem IsBraced.ne_nil {inner : List Char} (h : IsBraced inner) : inner ≠ [] := by
  rintro rfl
  exact Option.some_ne_none _ h.head.symm

theorem IsBraced.isTrimmed {inner : List Char} (h : IsBraced inner) : IsTrimmed inner := by
  refine ⟨fun c hc => ?_, fun c hc => ?_⟩
  · rw [h.head] at hc
    exact Option.some.inj hc ▸ rfl
  · rw [h.last] at hc
    exact Option.some.inj hc ▸ rfl

/-- A text that leaves a scan where it is and in which it meets no separator at its top level. -/
structure IsPassed (inner : List Char) : Prop where
  clear : ∀ sep, isInert sep = true → Clear sep (.outside 0) inner
  run : (Place.outside 0).run inner = .outside 0

/-- A brace is no separator. -/
theorem clear_brace {sep c : Char} (hsep : isInert sep = true) (hc : isInert c = false)
    (hbackslash : c ≠ '\\') (d : Int) : Clear sep (.outside d) [c] := by
  refine ⟨fun _ he => ?_, fun he => absurd he hbackslash, trivial⟩
  rw [he, hsep] at hc
  exact Bool.noConfusion hc

/-- An expression in braces is passed. -/
theorem isPassed_of_compile {source : String} {p : Program} (hp : Program.compile source = .ok p) :
    IsPassed ('\x7b' :: (source.toList ++ ['\x7d'])) := by
  obtain ⟨e, h, -⟩ := Program.compile_eq_ok_iff.1 hp
  have hopen : (Place.outside 0).step '\x7b' = .outside 1 := step_opening rfl 0
  refine ⟨fun sep hsep => ?_, ?_⟩
  · obtain ⟨hrun, hclear⟩ := run_of_parse sep h 1
    rw [← List.singleton_append, clear_append, clear_append, run_cons, hopen, run_nil, hrun]
    exact ⟨clear_brace hsep rfl (by decide) 0, hclear (by decide),
      clear_brace hsep rfl (by decide) 1⟩
  · rw [run_cons, hopen, run_append, (run_of_parse ',' h 1).1]
    exact step_closing (c := '\x7d') rfl 1

/-- Between two interpolations plain text is passed: with the braces around it, it stands outside of
all. -/
theorem IsPassed.append {inner inner' : List Char} {text : String} (h : IsPassed inner)
    (htext : IsPlain text) (h' : IsPassed inner') :
    IsPassed (inner ++ '\x7d' :: (text.toList ++ '\x7b' :: inner')) := by
  have hclose : (Place.outside 0).step '\x7d' = .outside (-1) := step_closing rfl 0
  have hopen : (Place.outside (-1)).step '\x7b' = .outside 0 := step_opening rfl (-1)
  have hplain : (Place.outside (-1)).run text.toList = .outside (-1) := run_inert htext (-1)
  refine ⟨fun sep hsep => ?_, ?_⟩
  · rw [clear_append, h.run]
    refine ⟨h.clear sep hsep, ?_⟩
    rw [← List.singleton_append, clear_append, clear_append, run_cons, hclose, run_nil, hplain]
    refine ⟨clear_brace hsep rfl (by decide) 0, clear_inert htext (by decide), ?_⟩
    rw [← List.singleton_append, clear_append, run_cons, hopen, run_nil]
    exact ⟨clear_brace hsep rfl (by decide) (-1), h'.clear sep hsep⟩
  · rw [run_append, h.run, run_cons, hclose, run_append, hplain, run_cons, hopen, h'.run]

theorem isPassed_innerChars {first : String} {others : List (String × String)}
    (hfirst : ∃ p, Program.compile first = .ok p)
    (hothers : ∀ other ∈ others, ∃ p, Program.compile other.2 = .ok p)
    (hplain : ∀ other ∈ others, IsPlain other.1) : IsPassed (innerChars first others) := by
  induction others generalizing first with
  | nil =>
      obtain ⟨p, hp⟩ := hfirst
      exact isPassed_of_compile hp
  | cons other others ih =>
      obtain ⟨p, hp⟩ := hfirst
      obtain ⟨hnext, hothers⟩ := List.forall_mem_cons.1 hothers
      obtain ⟨htext, hplain⟩ := List.forall_mem_cons.1 hplain
      exact (isPassed_of_compile hp).append htext (ih hnext hothers hplain)

/-! ### Interpolations as object literals -/

section Literal

variable {s : String} {inner : List Char}

theorem splitArgs_of_braced (hinner : IsBraced inner) :
    splitArgs inner = (splitTopLevel ',' inner).map trim := by
  have hblank : isBlankText inner = false := by
    rw [Bool.eq_false_iff, Ne, isBlankText_iff_trim, trim_of_isTrimmed hinner.isTrimmed]
    exact hinner.ne_nil
  rw [splitArgs, hblank]
  rfl

/-- Without a comma at the top level there is one item. -/
theorem objectLiteral?_of_clear (hs : s.toList = '\x7b' :: (inner ++ ['\x7d']))
    (hinner : IsBraced inner) (hclear : Clear ',' (.outside 0) inner) :
    objectLiteral? s = [inner].mapM objectEntry? := by
  have hargs : splitArgs inner = [inner] := by
    rw [splitArgs_of_braced hinner]
    show (splitFrom ',' ⟨0, none⟩ inner).map trim = [inner]
    rw [splitFrom_of_clear hclear, List.map_singleton, trim_of_isTrimmed hinner.isTrimmed]
  have hfilter : [inner].filter (!·.isEmpty) = [inner] := by
    rw [List.filter_singleton, List.isEmpty_eq_false_iff.2 hinner.ne_nil]
    rfl
  rw [objectLiteral?_enclosed hs, hargs, hfilter]

/-- Without any colon the first item has none, and the text is no object literal. -/
theorem objectLiteral?_of_notMem (hs : s.toList = '\x7b' :: (inner ++ ['\x7d']))
    (hinner : IsBraced inner) (hcolon : ':' ∉ inner) : objectLiteral? s = none := by
  obtain ⟨rest, hrest⟩ := List.head?_eq_some_iff.1 hinner.head
  obtain ⟨piece, pieces, hpieces, hprefix⟩ :=
    exists_first_piece ',' (Nesting.top.after '\x7b') rest
  have hsplit : splitTopLevel ',' inner = ('\x7b' :: piece) :: pieces := by
    rw [hrest, splitTopLevel, splitFrom_cons (.inr (by decide)) (.inl rfl), hpieces]
    rfl
  have hitem : ':' ∉ trim ('\x7b' :: piece) := by
    intro hmem
    rw [hrest] at hcolon
    exact hcolon ((List.cons_prefix_cons.2 ⟨rfl, hprefix⟩).subset (mem_of_mem_trim hmem))
  have hfirst : splitColon? none (trim ('\x7b' :: piece)) = none := by
    rw [Option.eq_none_iff_forall_ne_some]
    rintro ⟨key, value⟩ hread
    rw [eq_of_splitColon? hread] at hitem
    exact hitem (List.mem_append_right key List.mem_cons_self)
  have hne : (trim ('\x7b' :: piece)).isEmpty = false := by
    rw [List.isEmpty_eq_false_iff, Ne, ← isBlankText_iff_trim]
    exact fun hblank => Bool.noConfusion hblank
  rw [objectLiteral?_enclosed hs, splitArgs_of_braced hinner, hsplit, List.map_cons,
    List.filter_cons, hne]
  simp [hfirst, objectEntry?]

/-- Whether a text has a colon outside of quotes. -/
def hasColon (s : String) : Bool := (splitColon? none s.toList).isSome

theorem hasColon_enclosed (hs : s.toList = '\x7b' :: (inner ++ ['\x7d'])) :
    hasColon s = (splitColon? none inner).isSome := by
  have hskip : (splitColon? none s.toList).isSome =
      (splitColon? none (inner ++ ['\x7d'])).isSome := by
    rw [hs]
    exact Option.isSome_map
  rw [hasColon, hskip, isSome_splitColon?_concat (c := '\x7d') (by decide)]

end Literal

/-! ### Values -/

section Value

variable (scope : Scope) (ev : Evaluator) (name : String)

/-- A binding has the value of its text with its expressions filled in, and counts as true unless
that is empty. -/
def Interpolates (source : String) : Prop :=
  ((evalBinding scope name source).run ev).1 =
    ((Interpolation.interpolate scope source false).run ev).1.map fun text => (text, !text.isEmpty)

variable {s : String} {inner : List Char}

/-- A text with an opening pair of braces is filled in if it is no object literal. -/
theorem interpolates_of_isIn (hliteral : objectLiteral? s = none)
    (hin : Interpolation.isIn s = true) : Interpolates scope ev name s := by
  rw [Interpolates, Evaluation.run_fst, Evaluation.run_fst, evalBinding, hliteral]
  simp only [hin, if_true, Evaluation.value_bind]
  rfl

/-- Interpolations begin with an opening pair of braces, whatever stands around them. -/
theorem isIn_of_braced (hinner : IsBraced inner) (before after : List Char)
    (hs : s.toList = before ++ '\x7b' :: (inner ++ ['\x7d']) ++ after) :
    Interpolation.isIn s = true := by
  obtain ⟨rest, rfl⟩ := List.head?_eq_some_iff.1 hinner.head
  refine hasInfix_of_isInfix ⟨before, rest ++ '\x7d' :: after, ?_⟩
  rw [hs]
  simp only [Interpolation.opening, List.append_assoc, List.cons_append, List.nil_append]

/-- The value of a text that is neither an expression nor a path is nil. -/
theorem value_objectValue_of_rejected (functions : FunctionTable) {source : String}
    (hparse : ∀ e, Expr.parse source ≠ .ok e) (hpath : Path.parse? source = none) :
    (objectValue scope source).value functions = .ok .nil := by
  obtain ⟨fault, hfault⟩ : ∃ fault, compiled source = .error fault := by
    rw [compiled]
    rcases hcompile : Program.compile source with fault | p
    · exact ⟨_, rfl⟩
    · obtain ⟨e, he, -⟩ := Program.compile_eq_ok_iff.1 hcompile
      exact absurd he (hparse e)
  have hresolve : scope.resolve? source = none := by
    rw [Scope.resolve?, hpath]
    rfl
  simp only [objectValue, Evaluation.value_bind, Evaluation.value_attempt, Scope.evalExpr,
    Evaluation.value_program, hfault, Except.bind, hresolve]
  rfl

theorem objectText_nil (key : String) : objectText name [(key, .nil)] = "" := by
  unfold objectText
  split
  · rfl
  split
  · rfl
  · rfl

/-- With a colon in it a text of interpolations is read as one property, the value of which is
nothing. -/
theorem value_evalBinding_of_hasColon (functions : FunctionTable)
    (hs : s.toList = '\x7b' :: (inner ++ ['\x7d'])) (hinner : IsBraced inner)
    (hpassed : IsPassed inner) (hcolon : hasColon s = true) :
    (evalBinding scope name s).value functions = .ok ("", false) := by
  rw [hasColon_enclosed hs, Option.isSome_iff_exists] at hcolon
  obtain ⟨⟨key, value⟩, hsplit⟩ := hcolon
  have htext := eq_of_splitColon? hsplit
  -- What stands behind the first colon outside of quotes ends with a brace, so it is neither an
  -- expression nor a path.
  have hclear := hpassed.clear ':' rfl
  have hrun := hpassed.run
  have hlast : (trim value).getLast? = some '\x7d' := by
    refine getLast?_trim (by decide) ?_
    have hinnerLast := hinner.last
    rw [htext, List.getLast?_append, List.getLast?_cons, Option.some_or,
      Option.some.injEq] at hinnerLast
    rcases hvalue : value.getLast? with _ | c
    · rw [hvalue] at hinnerLast
      exact absurd hinnerLast (by decide)
    · rw [hvalue] at hinnerLast
      exact congrArg some hinnerLast
  rw [htext] at hclear hrun
  have hparse : ∀ e, Expr.parse (String.ofList (trim value)) ≠ .ok e :=
    not_parse_of_clear rfl hclear hrun
  have hpath : Path.parse? (String.ofList (trim value)) = none := by
    rw [Option.eq_none_iff_forall_ne_some]
    intro path hpath
    have hname := Path.last_of_parse? hpath '\x7d'
    rw [String.toList_ofList, trim_trim, hlast] at hname
    exact absurd (hname rfl) (by decide)
  -- The whole is an object literal with a single entry then.
  have hliteral : objectLiteral? s = some [(String.ofList ((unquote? (trim key)).getD (trim key)),
      String.ofList (trim value))] := by
    rw [objectLiteral?_of_clear hs hinner (hpassed.clear ',' rfl)]
    simp [hsplit, objectEntry?]
  have hvalue := value_objectValue_of_rejected scope functions hparse hpath
  rw [evalBinding, hliteral]
  simp only [objectValues, Evaluation.value_bind, Evaluation.value_pure, hvalue, Except.bind,
    objectText_nil]
  rfl

/-- With another character than a brace in front or behind a text is no object literal, for such a
literal begins and ends with a brace. -/
theorem interpolates_of_adjacent (hs : s.toList = '\x7b' :: (inner ++ ['\x7d']))
    (hinner : IsBraced inner) {c : Char} (hc : isBlank c = false) :
    (c ≠ '\x7b' → Interpolates scope ev name (String.ofList (c :: s.toList))) ∧
      (c ≠ '\x7d' → Interpolates scope ev name (String.ofList (s.toList ++ [c]))) := by
  refine ⟨fun hopen => ?_, fun hclose => ?_⟩
  · refine interpolates_of_isIn scope ev name (objectLiteral?_of_isTrimmed ?_ (.inl ?_))
      (isIn_of_braced hinner [c] [] ?_)
    · rw [String.toList_ofList, hs, ← List.cons_append]
      exact isTrimmed_between hc (by decide) _
    · rw [String.toList_ofList]
      exact fun he => hopen (Option.some.inj he)
    · rw [String.toList_ofList, hs, List.append_nil]
      rfl
  · refine interpolates_of_isIn scope ev name (objectLiteral?_of_isTrimmed ?_ (.inr ?_))
      (isIn_of_braced hinner [] [c] ?_)
    · rw [String.toList_ofList, hs, List.cons_append]
      exact isTrimmed_between (by decide) hc _
    · rw [String.toList_ofList, List.getLast?_concat]
      exact fun he => hclose (Option.some.inj he)
    · rw [String.toList_ofList, hs]
      rfl

/-- Interpolations without a colon are filled in, and so they are with another character in front or
behind.  With plain text between them they are filled in unless there is a colon outside of quotes:
then the whole is taken for an object literal, and is empty. -/
theorem evalBinding_interpolations {first : String} {others : List (String × String)}
    (hfirst : ∃ p, Program.compile first = .ok p)
    (hothers : ∀ other ∈ others, ∃ p, Program.compile other.2 = .ok p) :
    (':' ∉ (interpolations first others).toList →
        Interpolates scope ev name (interpolations first others)) ∧
      (∀ c, isBlank c = false →
        (c ≠ '\x7b' → Interpolates scope ev name
          (String.ofList (c :: (interpolations first others).toList))) ∧
        (c ≠ '\x7d' → Interpolates scope ev name
          (String.ofList ((interpolations first others).toList ++ [c])))) ∧
      ((∀ other ∈ others, IsPlain other.1) →
        if hasColon (interpolations first others) then
          ((evalBinding scope name (interpolations first others)).run ev).1 = .ok ("", false)
        else Interpolates scope ev name (interpolations first others)) := by
  have hs := toList_interpolations first others
  have hinner := isBraced_innerChars first others
  have hin : Interpolation.isIn (interpolations first others) = true :=
    isIn_of_braced hinner [] [] (by rw [hs, List.nil_append, List.append_nil])
  refine ⟨fun hcolon => ?_, fun c hc => interpolates_of_adjacent scope ev name hs hinner hc,
    fun hplain => ?_⟩
  -- Without any colon inside, it is no object literal.
  · have hinside : ':' ∉ innerChars first others := fun hmem => by
      rw [hs] at hcolon
      exact hcolon (List.mem_cons_of_mem _ (List.mem_append_left _ hmem))
    exact interpolates_of_isIn scope ev name (objectLiteral?_of_notMem hs hinner hinside) hin
  · have hpassed := isPassed_innerChars hfirst hothers hplain
    -- With a colon outside of quotes it is one, and without it is none.
    by_cases hcolon : hasColon (interpolations first others) = true
    · rw [if_pos hcolon, Evaluation.run_fst]
      exact value_evalBinding_of_hasColon scope name ev.functions hs hinner hpassed hcolon
    · rw [if_neg hcolon]
      refine interpolates_of_isIn scope ev name ?_ hin
      rw [hasColon_enclosed hs, Option.not_isSome_iff_eq_none] at hcolon
      rw [objectLiteral?_of_clear hs hinner (hpassed.clear ',' rfl)]
      simp [hcolon, objectEntry?]

end Value

theorem evalBinding_interpolations_two :
    (Program.compile "a" = .ok ⟨"a", .name "a"⟩ ∧ Program.compile "b" = .ok ⟨"b", .name "b"⟩ ∧
        IsPlain " and ") ∧
      ((evalBinding (.ofData (.map [("a", .str "x"), ("b", .str "y")])) "title"
          "\x7b\x7ba\x7d\x7d and \x7b\x7bb\x7d\x7d").run (.ofFunctions [])).1 =
        .ok ("x and y", true) := by
  have hfirst : Program.compile "a" = .ok ⟨"a", .name "a"⟩ := by cbv
  have hsecond : Program.compile "b" = .ok ⟨"b", .name "b"⟩ := by cbv
  have hplain : IsPlain " and " := by
    refine List.all_eq_true.1 ?_
    cbv
  have hsource : interpolations "a" [(" and ", "b")] =
      "\x7b\x7ba\x7d\x7d and \x7b\x7bb\x7d\x7d" := by cbv
  have hcolon : hasColon "\x7b\x7ba\x7d\x7d and \x7b\x7bb\x7d\x7d" = false := by cbv
  have hothers : ∀ other ∈ [(" and ", "b")], ∃ p, Program.compile other.2 = .ok p :=
    List.forall_mem_singleton.2 ⟨_, hsecond⟩
  have hfilled := (evalBinding_interpolations
    (.ofData (.map [("a", .str "x"), ("b", .str "y")])) (.ofFunctions []) "title"
    ⟨_, hfirst⟩ hothers).2.2 (List.forall_mem_singleton.2 hplain)
  rw [hsource, hcolon, if_neg Bool.false_ne_true, Interpolates] at hfilled
  refine ⟨⟨hfirst, hsecond, hplain⟩, hfilled.trans ?_⟩
  cbv

/-- A choice between two values has a colon. -/
theorem not_interpolates :
    ¬ ∀ (first : String) (p : Program), Program.compile first = .ok p →
      ∀ (scope : Scope) (ev : Evaluator) (name : String),
        Interpolates scope ev name (interpolations first []) := by
  intro hall
  have hcompile : Program.compile " ok ? 'yes' : 'no' " = .ok ⟨" ok ? 'yes' : 'no' ",
      .choice (.name "ok") (.literal (.str "yes")) (.literal (.str "no"))⟩ := by cbv
  have hsame := hall _ _ hcompile (.ofData (.map [("ok", .bool true)])) (.ofFunctions []) "title"
  rw [Interpolates] at hsame
  have hempty : ((evalBinding (.ofData (.map [("ok", .bool true)])) "title"
      (interpolations " ok ? 'yes' : 'no' " [])).run (.ofFunctions [])).1 = .ok ("", false) := by
    cbv
  have hfilled : ((Interpolation.interpolate (.ofData (.map [("ok", .bool true)]))
      (interpolations " ok ? 'yes' : 'no' " []) false).run (.ofFunctions [])).1 = .ok "yes" := by
    cbv
  rw [hempty, hfilled] at hsame
  exact absurd (congrArg Prod.snd (Except.ok.inj hsame)) (by decide)

end Stencil.Attribute
