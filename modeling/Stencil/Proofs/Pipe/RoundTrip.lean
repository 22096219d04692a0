import Stencil.Proofs.Pipe.Print

/-!
# Pipes read back

A printed pipe is parsed as that pipe.

## Main results

* `Pipe.Arg.Printable.argOf`, `Pipe.Stage.Printable.stageOf` — printed arguments and stages are read
  as themselves
* `Pipe.Closed.passes` — a text that closes what it opens is one piece
* `Pipe.parse_text` — parsing undoes printing
-/

namespace Stencil

open Text Stencil.Expr

namespace Pipe

/-- A text without the characters of operators has no operator in it. -/
theorem hasOperator_eq_false {cs : List Char} (h : cs.Disjoint Path.operatorChars) :
    hasOperator cs = false := by
  have hchars : operatorTexts.all (fun sub => sub.any Path.operatorChars.contains) = true := rfl
  refine List.any_eq_false.2 fun sub hsub hinfix => ?_
  obtain ⟨c, hc, hoperator⟩ := List.any_eq_true.1 (List.all_eq_true.1 hchars sub hsub)
  obtain ⟨⟨before, after⟩, hsplit⟩ := Option.isSome_iff_exists.1 hinfix
  have hmem : c ∈ cs := by
    rw [eq_of_splitOnce? hsplit]
    exact List.mem_append_left _ (List.mem_append_right _ hc)
  exact h hmem (List.contains_iff_mem.1 hoperator)

/-- A path in front of a pipe is read as itself. -/
theorem startOf_of_written {initial : Initial} (h : initial.path.Written initial.source.toList)
    (isOnly : Bool) : startOf isOnly initial.source.toList = (some initial, []) := by
  unfold startOf
  simp only [trim_of_isTrimmed h.isTrimmed, h.asCall?, h.ofChars?,
    hasOperator_eq_false h.disjoint_operatorChars, String.ofList_toList, Bool.and_false,
    Bool.false_eq_true, if_false]

/-! ### Arguments -/

theorem Dotted.isPlain {cs : List Char} (h : Dotted cs) : ∀ c ∈ cs, isPlain c = true := by
  induction h with
  | name hword => exact isPlain_of_isName hword
  | point hword _ ih =>
      exact List.forall_mem_append.2 ⟨isPlain_of_isName hword, List.forall_mem_cons.2 ⟨rfl, ih⟩⟩

/-- Names with points between them begin as a name. -/
theorem Dotted.exists_cons {cs : List Char} (h : Dotted cs) :
    ∃ c rest, cs = c :: rest ∧ isNameStart c = true := by
  cases h with
  | name hword =>
      obtain ⟨c, rest, hcons, hc, -⟩ := exists_cons_of_isName hword
      exact ⟨c, rest, hcons, hc⟩
  | point hword _ =>
      obtain ⟨c, rest, rfl, hc, -⟩ := exists_cons_of_isName hword
      exact ⟨c, _, rfl, hc⟩

theorem readInt64?_of_isNameStart {c : Char} (hc : isNameStart c = true) (cs : List Char) :
    Decimal.readInt64? (c :: cs) = none := by
  have hsign : Decimal.splitSign (c :: cs) = (false, c :: cs) := by
    unfold Decimal.splitSign
    split
    · rename_i heq
      obtain ⟨rfl, -⟩ := List.cons.inj heq
      exact absurd hc (by decide)
    · rename_i heq
      obtain ⟨rfl, -⟩ := List.cons.inj heq
      exact absurd hc (by decide)
    · rfl
  have hdigits : Decimal.readNat? (c :: cs) = none := by
    rw [Decimal.readNat?, List.all_cons, isDigit_of_isNameStart hc, Bool.false_and, Bool.and_false]
    rfl
  rw [Decimal.readInt64?, Decimal.readInt?, hsign]
  simp only [hdigits]
  rfl

/-- Integers are written in digits, with a sign in front if they are negative. -/
theorem isPlain_toString (z : Int) : ∀ c ∈ (toString z).toList, isPlain c = true := by
  have hdigits : ∀ (n : Nat), ∀ c ∈ Nat.toDigits 10 n, isPlain c = true := fun n c hc =>
    isPlain_of_isDigit (Decimal.isDigit_of_mem_toDigits c hc)
  cases z with
  | ofNat n =>
      rw [Decimal.toList_toString_ofNat]
      exact hdigits n
  | negSucc n =>
      rw [Decimal.toList_toString_negSucc]
      exact List.forall_mem_cons.2 ⟨rfl, hdigits _⟩

/-- A printed argument is one word. -/
theorem Arg.Printable.isWord {a : Arg} (h : a.Printable) : IsWord a.chars := by
  cases h with
  | str hchars => exact .quoted rfl hchars
  | int i =>
      refine .plain (fun hnil => ?_) (isPlain_toString i.toInt)
      have hread := Decimal.readInt?_toString i.toInt
      rw [show (toString i.toInt).toList = [] from hnil] at hread
      cases hread
  | bool b =>
      cases b with
      | true => exact .plain (List.cons_ne_nil _ _) (List.all_eq_true.1 rfl)
      | false => exact .plain (List.cons_ne_nil _ _) (List.all_eq_true.1 rfl)
  | token hdotted _ _ =>
      refine .plain (fun hnil => ?_) hdotted.isPlain
      obtain ⟨c, rest, hcons, -⟩ := hdotted.exists_cons
      exact List.cons_ne_nil c rest (hcons.symm.trans hnil)

/-- A printed argument is read as itself: in quotes if it is a string, and without any if it is a
source. -/
theorem Arg.Printable.argOf {a : Arg} (h : a.Printable) : Pipe.argOf a.chars = a := by
  cases h with
  | @str s _ =>
      rw [Arg.chars, Pipe.argOf, unquote?_quoted rfl]
      simp only [String.ofList_toList]
  | int i =>
      have hint : Decimal.readInt64? (toString i.toInt).toList = some i := by
        rw [Decimal.readInt64?, Decimal.readInt?_toString]
        exact Decimal.int64?_toInt i
      show Pipe.argOf (toString i.toInt).toList = _
      rw [Pipe.argOf, unquote?_of_isPlain (isPlain_toString i.toInt)]
      simp only [hint]
  | bool b =>
      cases b with
      | true => rfl
      | false => rfl
  | @token text hdotted hbool hfloat =>
      -- That a name is no integer is told by its first character, since integers begin otherwise;
      -- some names are floats and truth values.
      obtain ⟨c, rest, hcons, hc⟩ := hdotted.exists_cons
      have hint : Decimal.readInt64? text.toList = none := hcons ▸ readInt64?_of_isNameStart hc rest
      rw [Arg.chars, Pipe.argOf, unquote?_of_isPlain hdotted.isPlain]
      simp only [hint, hfloat, hbool, String.ofList_toList]

/-! ### Calls -/

theorem isTrimmed_callChars {name : String} (args : List Arg)
    (hname : isName name.toList = true) : IsTrimmed (callChars name args) :=
  isTrimmed_call hname (argsChars args)

section Calls

variable {name : String} {args : List Arg} (hargs : ∀ a ∈ args, a.Printable)

include hargs

theorem isWord_of_mem_chars : ∀ text ∈ args.map Arg.chars, IsWord text := by
  intro text htext
  obtain ⟨a, ha, rfl⟩ := List.mem_map.1 htext
  exact (hargs a ha).isWord

/-- Printed arguments are read as themselves. -/
theorem map_argOf_splitArgs : (splitArgs (argsChars args)).map argOf = args := by
  rw [argsChars, splitArgs_intercalate (isWord_of_mem_chars hargs), List.map_map]
  exact (List.map_congr_left fun a ha => (hargs a ha).argOf).trans (List.map_id args)

theorem asCall?_callChars (hname : isName name.toList = true) :
    asCall? (callChars name args) = some (name.toList, argsChars args) :=
  asCall?_intercalate hname (isWord_of_mem_chars hargs)

/-- A scan for bars reads over a call. -/
theorem passes_callChars (hname : isName name.toList = true) :
    Passes '|' .top (callChars name args) .top :=
  passes_call hname (isWord_of_mem_chars hargs)

end Calls

/-! ### Stages -/

/-- A text that closes what it opens, without a single bar, is one piece. Two bars in a row are an
operator and do not separate. -/
theorem Closed.passes {depth : Nat} {quote : Option Char} {cs : List Char}
    (h : Closed depth quote cs) (hquote : ∀ q ∈ quote, isQuote q = true) :
    Passes '|' ⟨depth, quote⟩ cs .top := by
  have hbar : ∀ {c : Char} {p : Char → Bool}, p c = true → p '|' = false → c ≠ '|' := by
    rintro c p hc hp rfl
    exact Bool.false_ne_true (hp.symm.trans hc)
  -- The scan stands where the rules do: at the same depth, and within the same quote.
  induction h with
  | nil => exact .nil
  | ordinary hno hopens hcloses hne _ ih =>
      exact .cons (after_ordinary hno hopens hcloses _) (.inr hne) (.inl rfl) (ih hquote)
  | opening hopens _ ih =>
      exact .cons (after_opening hopens _) (.inr (hbar hopens rfl)) (.inl rfl) (ih hquote)
  | @closing depth c cs hcloses _ ih =>
      exact .cons (after_closing hcloses depth) (.inr (hbar hcloses rfl)) (.inl rfl) (ih hquote)
  | @bar depth cs _ ih =>
      -- Within brackets a bar is like any other character.
      have hdepth : ((depth + 1 : Nat) : Int) ≠ 0 := by omega
      have hwithin : Nesting.isTop ⟨(depth + 1 : Nat), none⟩ = false :=
        Bool.and_eq_false_iff.2 (.inl (beq_eq_false_iff_ne.2 hdepth))
      exact .cons (after_ordinary rfl rfl rfl _) (.inl hwithin) (.inl rfl) (ih hquote)
  | bars _ ih => exact (ih hquote).bars rfl
  | @quoting depth q cs hq _ ih =>
      have hrest := ih fun c hc => Option.some.inj hc ▸ hq
      exact .cons (after_quoting hq _) (.inr (hbar hq rfl)) (.inl rfl) hrest
  | quoted hne hescape _ ih =>
      exact .cons (after_quoted hne _) (.inl (Bool.and_false _)) (.inr hescape) (ih hquote)
  | escaped _ ih => exact (ih hquote).escaped rfl
  | @unquoting depth q cs _ ih =>
      have hescape : q ≠ '\\' := by
        rintro rfl
        exact absurd (hquote '\\' rfl) (by decide)
      exact .cons (after_unquoting q _) (.inl (Bool.and_false _)) (.inr hescape) (ih nofun)

/-- A printed stage is one piece, whatever is in the strings of its arguments: bars and commas in
quotes separate nothing. -/
theorem Stage.Printable.passes {stage : Stage} (h : stage.Printable) :
    Passes '|' .top stage.chars .top := by
  cases h with
  | @filter name args hname hargs =>
      rcases args with _ | ⟨a, args⟩
      · exact (isWord_of_isName hname).passes rfl rfl 0
      · exact passes_callChars hargs hname
  | expression _ _ _ hclosed => exact hclosed.passes nofun

theorem Stage.Printable.isTrimmed {stage : Stage} (h : stage.Printable) :
    IsTrimmed stage.chars := by
  cases h with
  | @filter name args hname hargs =>
      rcases args with _ | ⟨a, args⟩
      · exact isTrimmed_of_isName hname
      · exact isTrimmed_callChars _ hname
  | expression htrimmed _ _ _ => exact htrimmed

theorem filterStage_of_splitArgs {name : String} {text : List Char} {args : List Arg}
    (h : (splitArgs text).map argOf = args) : filterStage name.toList text = .filter name args := by
  rw [filterStage, String.ofList_toList, h]

/-- A printed stage is read as itself. An expression is printed as its source, and it must not have
the shape of a call. -/
theorem Stage.Printable.stageOf {stage : Stage} (h : stage.Printable) :
    Pipe.stageOf stage.chars = stage := by
  unfold Pipe.stageOf
  rw [trim_of_isTrimmed h.isTrimmed]
  cases h with
  | @filter name args hname hargs =>
      rcases args with _ | ⟨a, args⟩
      · rw [Stage.chars, if_pos hname]
        exact filterStage_of_splitArgs rfl
      · -- With its parentheses a call is no name.
        have hparen : isName (callChars name (a :: args)) = false := by
          rw [Bool.eq_false_iff]
          intro h
          have hmem : '(' ∈ callChars name (a :: args) := by simp [callChars]
          exact absurd (isNameChar_of_mem h hmem) (by decide)
        have hcall := asCall?_callChars hargs hname
        simp only [Stage.chars, hparen, hcall, Bool.false_eq_true, if_false]
        exact filterStage_of_splitArgs (map_argOf_splitArgs hargs)
  | @expression source htrimmed hname hcall hclosed =>
      simp only [Stage.chars, hname, hcall, Bool.false_eq_true, if_false, String.ofList_toList]

/-! ### Pipes -/

/-- A call in front of a pipe is its first stage. -/
theorem startOf_callChars {name : String} {args : List Arg} (hname : isName name.toList = true)
    (hargs : ∀ a ∈ args, a.Printable) (isOnly : Bool) :
    startOf isOnly (callChars name args) = (none, [.filter name args]) := by
  unfold startOf
  simp only [trim_of_isTrimmed (isTrimmed_callChars args hname), asCall?_callChars hargs hname,
    filterStage_of_splitArgs (map_argOf_splitArgs hargs)]

theorem startOf_trim (isOnly : Bool) (piece : List Char) :
    startOf isOnly (trim piece) = startOf isOnly piece := by
  rw [startOf, trim_trim, startOf]

theorem stageOf_trim (piece : List Char) : stageOf (trim piece) = stageOf piece := by
  rw [stageOf, trim_trim, stageOf]

/-- The blanks around bars mean nothing. -/
theorem ofPieces_map_trim (texts : List (List Char)) :
    ofPieces (texts.map trim) = ofPieces texts := by
  rcases texts with _ | ⟨first, others⟩
  · rfl
  · have hothers : (others.map trim).map stageOf = others.map stageOf := by
      rw [List.map_map]
      exact List.map_congr_left fun piece _ => stageOf_trim piece
    rw [List.map_cons, ofPieces, ofPieces, List.isEmpty_map, startOf_trim, hothers]

theorem map_stageOf_chars {stages : List Stage} (h : ∀ stage ∈ stages, stage.Printable) :
    (stages.map Stage.chars).map stageOf = stages := by
  have hread := List.map_congr_left fun stage hstage => (h stage hstage).stageOf
  rw [List.map_map]
  exact hread.trans (List.map_id stages)

namespace Printable

variable {p : Pipe}

theorem ne_nil (h : Printable p) : p.pieces ≠ [] := by
  cases h with
  | path _ _ => exact List.cons_ne_nil _ _
  | call _ _ => exact List.cons_ne_nil _ _

/-- The texts between the bars have no bars of their own and no blanks around them. -/
theorem of_mem_pieces (h : Printable p) :
    ∀ text ∈ p.pieces, IsTrimmed text ∧ Passes '|' .top text .top := by
  have hrest : ∀ {stages : List Stage}, (∀ stage ∈ stages, stage.Printable) →
      ∀ text ∈ stages.map Stage.chars, IsTrimmed text ∧ Passes '|' .top text .top := by
    intro stages hstages text htext
    obtain ⟨stage, hstage, rfl⟩ := List.mem_map.1 htext
    exact ⟨(hstages stage hstage).isTrimmed, (hstages stage hstage).passes⟩
  cases h with
  | path hinitial hstages =>
      exact List.forall_mem_cons.2 ⟨⟨hinitial.isTrimmed, hinitial.passes⟩, hrest hstages⟩
  | call hname hargs hstages =>
      exact List.forall_mem_cons.2
        ⟨⟨isTrimmed_callChars _ hname, passes_callChars hargs hname⟩, hrest hstages⟩

/-- The texts between the bars are read as the parts of the pipe. -/
theorem ofPieces (h : Printable p) : Pipe.ofPieces p.pieces = p := by
  cases h with
  | path hinitial hstages =>
      rw [pieces, Pipe.ofPieces, startOf_of_written hinitial, map_stageOf_chars hstages]
      rfl
  | call hname hargs hstages =>
      rw [pieces, Pipe.ofPieces, startOf_callChars hname hargs, map_stageOf_chars hstages]
      rfl

end Printable

/-- Parsing undoes printing, whatever separators stand in the strings and keys of a pipe. The pieces
of a printed pipe are its stages, each of which is read as itself. -/
theorem parse_text {p : Pipe} (h : Printable p) : Pipe.parse p.text = p := by
  have hblank : isBlankText [' '] = true := rfl
  have hsplit : (splitTopLevel '|' ([' ', '|', ' '].intercalate p.pieces)).map trim = p.pieces :=
    map_trim_splitTopLevel hblank (by decide) h.ne_nil h.of_mem_pieces
  rw [Pipe.parse, text, String.toList_ofList, ← ofPieces_map_trim, hsplit, h.ofPieces]

/-- Bars, commas and parentheses in strings and keys, and an operator of two bars. -/
theorem parse_text_separators :
    Pipe.parse "a.b['x, (y)'][0][i] | f | g('|, (', -7, c.d, true) | . == '|' || x" =
      ⟨some ⟨"a.b['x, (y)'][0][i]", "a", [.key "b", .key "x, (y)", .key "0", .variable "i"]⟩,
        [.filter "f" [],
          .filter "g" [.literal (.str "|, ("), .literal (.int (-7)), .token "c.d",
            .literal (.bool true)],
          .expression ". == '|' || x"]⟩ := by
  have hkey : Path.Step.Written (.key "x, (y)") "['x, (y)']".toList :=
    .quoted (q := '\'') rfl (by simp [Path.reserved, Path.operatorChars])
  have hinitial : Path.Written ⟨"a", [.key "b", .key "x, (y)", .key "0", .variable "i"]⟩
      "a.b['x, (y)'][0][i]".toList :=
    .intro (by decide) (.cons (.dot (by decide)) (.cons hkey
      (.cons (.index (by decide) (List.all_eq_true.1 rfl)) (.cons (.var (by decide)) .nil))))
  have hdotted : Dotted "c.d".toList :=
    .point (show isName ['c'] = true by decide) (.name (show isName ['d'] = true by decide))
  have hargs : ∀ a ∈ [Arg.literal (.str "|, ("), .literal (.int (-7)), .token "c.d",
      .literal (.bool true)], a.Printable := by
    simp only [List.forall_mem_cons]
    exact ⟨.str (by simp), .int _, .token hdotted (by decide) rfl, .bool _, List.forall_mem_nil _⟩
  have hequal : Closed 0 none ". == '|' || x".toList :=
    .ordinary rfl rfl rfl (by decide) <| .ordinary rfl rfl rfl (by decide) <|
    .ordinary rfl rfl rfl (by decide) <| .ordinary rfl rfl rfl (by decide) <|
    .ordinary rfl rfl rfl (by decide) <| .quoting rfl <| .quoted (by decide) (by decide) <|
    .unquoting <| .ordinary rfl rfl rfl (by decide) <| .bars <|
    .ordinary rfl rfl rfl (by decide) <| .ordinary rfl rfl rfl (by decide) .nil
  refine (congrArg Pipe.parse ?_).trans (parse_text (.path hinitial ?_))
  · cbv
  · simp only [List.forall_mem_cons]
    refine ⟨.filter (by decide) (List.forall_mem_nil _), .filter (by decide) hargs, ?_,
      List.forall_mem_nil _⟩
    refine .expression ⟨fun c hc => ?_, fun c hc => ?_⟩ (by decide) rfl hequal
    · exact Option.some.inj hc ▸ rfl
    · exact Option.some.inj hc ▸ rfl

end Pipe
end Stencil
