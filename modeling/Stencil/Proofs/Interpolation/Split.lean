import Mathlib
import Stencil.Interpolation
import Stencil.Proofs.Expr.Lexeme

/-!
# Where expressions stand in a text

Which parts of a text interpolation takes for expressions.

## Main definitions

* `Interpolation.IsStatic`, `Interpolation.IsCode`, `Interpolation.IsRest` — what can stand in front
  of an expression, in one, and behind the last one
* `Interpolation.textOf` — a text with expressions between pairs of braces

## Main results

* `Interpolation.takeCode?_eq_some_iff` — an expression ends at the first closing pair of braces
  outside of its string literals
* `Interpolation.exists_textOf` — every text is made of static text and expressions
* `Interpolation.splitUpTo_textOf` — those are its pieces, whatever the static text holds
* `Interpolation.interpolate_textOf` — interpolation puts the values of the expressions in their
  places, or fails as the first one does that fails
-/

namespace Stencil.Interpolation

open Text Stencil.Expr

/-- Text in front of an opening pair of braces: none stands in it, and none begins at its end.
Without the second part a brace at the end would form a pair with the first one after it. -/
def IsStatic (text : List Char) : Prop := ¬ opening <:+: text ∧ text.getLast? ≠ some '\x7b'

instance : DecidablePred IsStatic := fun text =>
  inferInstanceAs (Decidable (¬ opening <:+: text ∧ text.getLast? ≠ some '\x7b'))

/-- Text between an opening pair of braces and the closing pair that belongs to it. Outside of its
string literals it holds no closing pair, and none begins at its end. -/
inductive IsCode : List Char → Prop where
  | nil : IsCode []
  | literal {q : Char} {body content code : List Char} : isQuote q = true →
      StringBody q body content → IsCode code → IsCode (q :: body ++ code)
  | plain {c : Char} {code : List Char} : isQuote c = false →
      (c = '\x7d' → ∃ d ∈ code.head?, d ≠ '\x7d') → IsCode code → IsCode (c :: code)

/-- Text behind the last expression: the first opening pair of braces in it, if there is one, is
never closed. -/
def IsRest (text : List Char) : Prop :=
  ∀ before code after, text = before ++ opening ++ (code ++ closing ++ after) →
    IsStatic before → ¬ IsCode code

/-- A text made of pieces, each of them static text and an expression, and of text behind them.
Nothing is asked of the last text: it may hold braces that are never closed. -/
def textOf : (pieces : List (List Char × List Char)) → (last : List Char) → List Char
  | [], last => last
  | (text, code) :: pieces, last => text ++ opening ++ (code ++ closing ++ textOf pieces last)

/-! ### Opening pairs -/

section Opening

variable {cs before after : List Char}

/-- An opening pair of braces ends at a brace if there is a brace in front of that. -/
theorem opening_isSuffix_concat : opening <:+ cs ++ ['\x7b'] ↔ cs.getLast? = some '\x7b' := by
  rw [List.getLast?_eq_some_iff]
  constructor
  · rintro ⟨init, h⟩
    refine ⟨init, List.append_cancel_right (?_ : cs ++ ['\x7b'] = init ++ ['\x7b'] ++ ['\x7b'])⟩
    rw [← h, List.append_assoc]
    rfl
  · rintro ⟨init, rfl⟩
    exact ⟨init, (List.append_assoc init ['\x7b'] ['\x7b']).symm⟩

theorem isStatic_iff : IsStatic cs ↔ ¬ opening <:+: cs ++ ['\x7b'] := by
  rw [IsStatic, List.infix_concat_iff, opening_isSuffix_concat, not_or, and_comm]

theorem isStatic_nil : IsStatic [] := isStatic_iff.2 (by decide)

theorem isStatic_cons {c : Char} :
    IsStatic (c :: cs) ↔ ¬ opening <+: c :: (cs ++ ['\x7b']) ∧ IsStatic cs := by
  rw [isStatic_iff, isStatic_iff, List.cons_append, List.infix_cons_iff, not_or]

/-- Whether a text in front of an opening pair of braces begins with such a pair is told without
what follows the brace behind it. -/
theorem startsWith_opening_iff {c : Char} (after : List Char) :
    startsWith opening (c :: (cs ++ opening ++ after)) = true ↔
      opening <+: c :: (cs ++ ['\x7b']) := by
  have hbegins : c :: (cs ++ ['\x7b']) <+: c :: (cs ++ opening ++ after) := by
    refine List.cons_prefix_cons.2 ⟨rfl, '\x7b' :: after, ?_⟩
    simp only [opening, List.append_assoc, List.cons_append, List.nil_append]
  rw [startsWith_iff]
  refine ⟨fun h => List.prefix_of_prefix_length_le h hbegins ?_, fun h => h.trans hbegins⟩
  simp [opening]

/-- A text is split at the first opening pair of braces. That it is the first says two things: no
pair stands in front of it, and none is made with the brace before it. -/
theorem splitOnce?_opening_iff : splitOnce? opening cs = some (before, after) ↔
    cs = before ++ opening ++ after ∧ IsStatic before := by
  refine ⟨fun h => ⟨eq_of_splitOnce? h, ?_⟩, ?_⟩
  · induction cs generalizing before with
    | nil => exact nomatch h
    | cons c cs ih =>
        unfold splitOnce? at h
        split at h
        · obtain ⟨rfl, -⟩ := Prod.mk.inj (Option.some.inj h)
          exact isStatic_nil
        · rename_i hstrip
          obtain ⟨⟨before', after'⟩, hsplit, he⟩ := Option.map_eq_some_iff.1 h
          obtain ⟨rfl, rfl⟩ := Prod.mk.inj he
          refine isStatic_cons.2 ⟨fun hbegins => ?_, ih hsplit⟩
          rw [← startsWith_opening_iff after', ← eq_of_splitOnce? hsplit, startsWith,
            hstrip] at hbegins
          exact Bool.noConfusion hbegins
  · rintro ⟨rfl, h⟩
    induction before with
    | nil =>
        have hstrip : stripPrefix? opening (opening ++ after) = some after :=
          stripPrefix?_eq_some_iff.2 rfl
        show splitOnce? opening ('\x7b' :: '\x7b' :: after) = _
        rw [splitOnce?]
        exact hstrip ▸ rfl
    | cons c before ih =>
        obtain ⟨hbegins, hbefore⟩ := isStatic_cons.1 h
        rw [← startsWith_opening_iff after, startsWith, Bool.not_eq_true,
          Option.isSome_eq_false_iff, Option.isNone_iff_eq_none] at hbegins
        rw [List.cons_append, List.cons_append, splitOnce?, hbegins, ih hbefore]
        rfl

end Opening

/-! ### Closing pairs -/

section Closing

variable {cs code rest : List Char}

theorem takeCode?_cons {q c : Char} (hc : c ≠ '\\') (cs : List Char) :
    takeCode? (some q) (c :: cs) = (takeCode? (if c == q then none else some q) cs).map
      fun (code, rest) => (c :: code, rest) := by
  rw [takeCode?]
  · exact fun h => absurd h hc
  · exact fun _ _ h => absurd h hc

/-- A string literal in an expression is read over. -/
theorem takeCode?_body {q : Char} {body content : List Char} (h : StringBody q body content)
    (cs : List Char) : takeCode? (some q) (body ++ cs) =
      (takeCode? none cs).map fun (code, rest) => (body ++ code, rest) := by
  induction h with
  | closing hq =>
      rw [List.singleton_append, takeCode?_cons hq, beq_self_eq_true, if_pos rfl]
      rfl
  | escaped c _ ih =>
      rw [List.cons_append, List.cons_append, takeCode?, ih, Option.map_map]
      rfl
  | plain hbackslash hc _ ih =>
      rw [List.cons_append, takeCode?_cons hbackslash, beq_false_of_ne hc, if_neg Bool.noConfusion,
        ih, Option.map_map]
      rfl

theorem takeCode?_literal {q : Char} (hq : isQuote q = true) {body content : List Char}
    (h : StringBody q body content) (cs : List Char) : takeCode? none (q :: body ++ cs) =
      (takeCode? none cs).map fun (code, rest) => (q :: body ++ code, rest) := by
  rw [List.cons_append, takeCode?]
  · rw [hq, if_pos rfl, takeCode?_body h, Option.map_map]
    rfl
  · rintro _ rfl
    exact absurd hq (by decide)

theorem takeCode?_plain {c : Char} (hc : isQuote c = false)
    (hnext : c = '\x7d' → ∃ d ∈ cs.head?, d ≠ '\x7d') : takeCode? none (c :: cs) =
      (takeCode? none cs).map fun (code, rest) => (c :: code, rest) := by
  rw [takeCode?]
  · rw [hc, if_neg Bool.noConfusion]
  · rintro cs rfl rfl
    obtain ⟨d, hd, hne⟩ := hnext rfl
    exact hne (Option.some.inj hd).symm

/-- An expression ends at the first closing pair of braces outside of its string literals. -/
theorem takeCode?_append (h : IsCode code) (rest : List Char) :
    takeCode? none (code ++ closing ++ rest) = some (code, rest) := by
  induction h with
  | nil => rfl
  | literal hq hbody _ ih =>
      rw [List.append_assoc, List.append_assoc, takeCode?_literal hq hbody, ← List.append_assoc, ih]
      rfl
  | plain hc hnext _ ih =>
      rw [List.cons_append, List.cons_append, takeCode?_plain hc, ih]
      · rfl
      · intro hbrace
        obtain ⟨d, hd, hne⟩ := hnext hbrace
        refine ⟨d, ?_, hne⟩
        rw [List.append_assoc, List.head?_append, Option.mem_def.1 hd]
        rfl

/-- What is left of the text of an expression, from within a string literal or outside of one. -/
def IsCodeFrom : (quote : Option Char) → List Char → Prop
  | none, code => IsCode code
  | some q, code =>
    ∃ body content rest, code = body ++ rest ∧ StringBody q body content ∧ IsCode rest

theorem isCodeFrom_of_takeCode? {quote : Option Char} (h : takeCode? quote cs = some (code, rest)) :
    cs = code ++ closing ++ rest ∧ IsCodeFrom quote code := by
  fun_induction takeCode? quote cs generalizing code with
  | case1 => exact nomatch h
  -- A closing pair of braces ends the expression.
  | case2 cs =>
      obtain ⟨rfl, rfl⟩ := Prod.mk.inj (Option.some.inj h)
      exact ⟨rfl, .nil⟩
  -- Outside of a literal, the character may be a quote, which begins one, or a brace that is not
  -- the first of a closing pair.
  | case3 c cs hclosing ih =>
      obtain ⟨⟨code', rest'⟩, hread, he⟩ := Option.map_eq_some_iff.1 h
      obtain ⟨rfl, rfl⟩ := Prod.mk.inj he
      obtain ⟨rfl, hcode⟩ := ih hread
      refine ⟨rfl, ?_⟩
      cases hc : isQuote c with
      | true =>
          rw [hc] at hcode
          obtain ⟨body, content, after, rfl, hbody, hafter⟩ := hcode
          exact .literal hc hbody hafter
      | false =>
          rw [hc] at hcode
          refine .plain hc (fun hbrace => ?_) hcode
          rcases code' with _ | ⟨d, code'⟩
          · exact (hclosing _ hbrace rfl).elim
          · refine ⟨d, rfl, ?_⟩
            rintro rfl
            exact hclosing _ hbrace rfl
  | case4 => exact nomatch h
  -- Within a literal, a character behind a backslash.
  | case5 q c cs ih =>
      obtain ⟨⟨code', rest'⟩, hread, he⟩ := Option.map_eq_some_iff.1 h
      obtain ⟨rfl, rfl⟩ := Prod.mk.inj he
      obtain ⟨rfl, body, content, after, rfl, hbody, hafter⟩ := ih hread
      exact ⟨rfl, _, _, after, rfl, hbody.escaped c, hafter⟩
  -- Within a literal, its closing quote or any other character.
  | case6 q c cs hlast hescape ih =>
      obtain ⟨⟨code', rest'⟩, hread, he⟩ := Option.map_eq_some_iff.1 h
      obtain ⟨rfl, rfl⟩ := Prod.mk.inj he
      obtain ⟨rfl, hcode⟩ := ih hread
      have hbackslash := ne_backslash hlast hescape
      refine ⟨rfl, ?_⟩
      by_cases hc : c = q
      · subst hc
        rw [beq_self_eq_true] at hcode
        exact ⟨[c], [], code', rfl, .closing hbackslash, hcode⟩
      · rw [beq_false_of_ne hc] at hcode
        obtain ⟨body, content, after, rfl, hbody, hafter⟩ := hcode
        exact ⟨c :: body, _, after, rfl, .plain hbackslash hc hbody, hafter⟩

/-- What is taken for an expression is what stands before the first closing pair of braces outside
of its string literals. -/
theorem takeCode?_eq_some_iff :
    takeCode? none cs = some (code, rest) ↔ cs = code ++ closing ++ rest ∧ IsCode code := by
  refine ⟨isCodeFrom_of_takeCode?, ?_⟩
  rintro ⟨rfl, h⟩
  exact takeCode?_append h rest

theorem isCode_iff : IsCode code ↔ takeCode? none (code ++ closing) = some (code, []) := by
  rw [takeCode?_eq_some_iff, List.append_nil]
  exact (and_iff_right rfl).symm

instance : DecidablePred IsCode := fun _ => decidable_of_iff' _ isCode_iff

end Closing

/-! ### Pieces -/

section Pieces

variable {last : List Char} {pieces : List (List Char × List Char)}

/-- Static text and an expression are split off from what follows them. -/
theorem splitUpTo_piece {text code : List Char} (htext : IsStatic text) (hcode : IsCode code)
    (bound : Nat) (after : List Char) :
    splitUpTo (bound + 1) (text ++ opening ++ (code ++ closing ++ after)) =
      .static text :: .code (trim code) :: splitUpTo bound after := by
  rw [splitUpTo, splitOnce?_opening_iff.2 ⟨rfl, htext⟩]
  dsimp only
  rw [takeCode?_append hcode]

/-- Nothing is split off from text without an expression. -/
theorem splitUpTo_of_isRest (h : IsRest last) (bound : Nat) :
    splitUpTo bound last = [.static last] := by
  cases bound with
  | zero => rfl
  | succ bound =>
      unfold splitUpTo
      split
      · rfl
      · rename_i before after hsplit
        obtain ⟨rfl, hbefore⟩ := splitOnce?_opening_iff.1 hsplit
        split
        · rfl
        · rename_i code rest hread
          obtain ⟨rfl, hcode⟩ := takeCode?_eq_some_iff.1 hread
          exact (h before code rest rfl hbefore hcode).elim

theorem isRest_iff : IsRest last ↔
    ((splitOnce? opening last).bind fun parts => takeCode? none parts.2) = none := by
  rw [Option.eq_none_iff_forall_ne_some]
  constructor
  · rintro h ⟨code, after⟩ hread
    obtain ⟨⟨before, rest⟩, hsplit, htake⟩ := Option.bind_eq_some_iff.1 hread
    obtain ⟨rfl, hbefore⟩ := splitOnce?_opening_iff.1 hsplit
    obtain ⟨rfl, hcode⟩ := takeCode?_eq_some_iff.1 htake
    exact h before code after rfl hbefore hcode
  · rintro h before code after rfl hbefore hcode
    have hsplit : splitOnce? opening (before ++ opening ++ (code ++ closing ++ after)) =
        some (before, code ++ closing ++ after) := splitOnce?_opening_iff.2 ⟨rfl, hbefore⟩
    refine h (code, after) ?_
    rw [hsplit]
    exact takeCode?_append hcode after

instance : DecidablePred IsRest := fun _ => decidable_of_iff' _ isRest_iff

/-- Every text is made of pieces and of text behind them, so that what is said about texts made so
is said about all texts. Where an opening pair of braces is never closed, it belongs to the text
behind. -/
theorem exists_textOf (cs : List Char) : ∃ pieces last, cs = textOf pieces last ∧
    (∀ piece ∈ pieces, IsStatic piece.1 ∧ IsCode piece.2) ∧ IsRest last := by
  by_cases h : IsRest cs
  · exact ⟨[], cs, rfl, List.forall_mem_nil _, h⟩
  · simp only [IsRest, not_forall, not_not] at h
    obtain ⟨before, code, after, hcs, hbefore, hcode⟩ := h
    have hlength : after.length < cs.length := by
      rw [hcs]
      simp [opening]
      omega
    obtain ⟨pieces, last, rfl, hpieces, hlast⟩ := exists_textOf after
    exact ⟨(before, code) :: pieces, last, hcs,
      List.forall_mem_cons.2 ⟨⟨hbefore, hcode⟩, hpieces⟩, hlast⟩
termination_by cs.length

/-- The pieces of a text are those that it is made of. With `exists_textOf` it makes the splitting
and the putting together inverse. -/
theorem splitUpTo_textOf (hpieces : ∀ piece ∈ pieces, IsStatic piece.1 ∧ IsCode piece.2)
    (hlast : IsRest last) {bound : Nat} (hbound : pieces.length ≤ bound) :
    splitUpTo bound (textOf pieces last) =
      pieces.flatMap (fun piece => [.static piece.1, .code (trim piece.2)]) ++ [.static last] := by
  induction pieces generalizing bound with
  | nil => exact splitUpTo_of_isRest hlast bound
  | cons piece pieces ih =>
      obtain ⟨⟨htext, hcode⟩, hpieces⟩ := List.forall_mem_cons.1 hpieces
      obtain ⟨bound, rfl⟩ := Nat.exists_eq_add_of_lt (Nat.lt_of_lt_of_le (Nat.succ_pos _) hbound)
      rw [Nat.zero_add, List.length_cons, Nat.add_le_add_iff_right] at hbound
      rw [Nat.zero_add, textOf, splitUpTo_piece htext hcode, ih hpieces hbound]
      rfl

theorem length_le_textOf (pieces : List (List Char × List Char)) (last : List Char) :
    pieces.length ≤ (textOf pieces last).length := by
  induction pieces with
  | nil => exact Nat.zero_le _
  | cons piece pieces ih =>
      simp only [textOf, List.length_append, List.length_cons, opening]
      omega

theorem split_textOf (hpieces : ∀ piece ∈ pieces, IsStatic piece.1 ∧ IsCode piece.2)
    (hlast : IsRest last) : split (String.ofList (textOf pieces last)) =
      pieces.flatMap (fun piece => [.static piece.1, .code (trim piece.2)]) ++ [.static last] := by
  rw [split, String.toList_ofList]
  exact splitUpTo_textOf hpieces hlast (length_le_textOf pieces last)

end Pieces

/-! ### Values -/

section Values

variable (scope : Scope) (escaped : Bool) (ev : Evaluator)

/-- What static text and the expression behind it come to. -/
def evalPiece (piece : List Char × List Char) : Except Fault (List Char) :=
  ((scope.evalPipe (String.ofList (trim piece.2))).run ev).1.map fun v =>
    piece.1 ++ valueText escaped v

theorem value_evalPieces (pieces : List (List Char × List Char)) (last : List Char) :
    (evalPieces scope escaped
      (pieces.flatMap (fun piece => [.static piece.1, .code (trim piece.2)]) ++
        [.static last])).value ev.functions =
      (pieces.mapM (evalPiece scope escaped ev)).map fun texts => texts.flatten ++ last := by
  induction pieces with
  | nil =>
      show Except.ok (last ++ []) = Except.ok last
      rw [List.append_nil]
  | cons piece pieces ih =>
      rw [List.flatMap_cons, List.append_assoc, List.cons_append, List.singleton_append, evalPieces,
        evalPieces, List.mapM_cons]
      simp only [Evaluation.value_bind, ih, evalPiece, Evaluation.run_fst, Evaluation.value_pure]
      rcases (scope.evalPipe (String.ofList (trim piece.2))).value ev.functions with fault | v
      · rfl
      · rcases pieces.mapM (evalPiece scope escaped ev) with fault | texts
        · rfl
        · show Except.ok (piece.1 ++ (valueText escaped v ++ (texts.flatten ++ last))) =
            Except.ok ((piece.1 ++ valueText escaped v) ++ texts.flatten ++ last)
          simp only [List.append_assoc]

/-- A text with expressions comes to its static text with the values of the expressions in between,
or to the fault of the first expression that fails. -/
theorem interpolate_textOf (pieces : List (List Char × List Char)) (last : List Char)
    (hpieces : ∀ piece ∈ pieces, IsStatic piece.1 ∧ IsCode piece.2) (hlast : IsRest last) :
    ((interpolate scope (String.ofList (textOf pieces last)) escaped).run ev).1 =
      (pieces.mapM (evalPiece scope escaped ev)).map fun texts =>
        String.ofList (texts.flatten ++ last) := by
  rw [Evaluation.run_fst, interpolate, Evaluation.value_bind, split_textOf hpieces hlast,
    value_evalPieces]
  rcases pieces.mapM (evalPiece scope escaped ev) with fault | texts
  · rfl
  · rfl

end Values

/-- Quotes and closing pairs of braces in static text begin and end nothing, nor do pairs of braces
in a string literal. -/
theorem interpolate_textOf_quotes :
    ((interpolate (Scope.ofData (.map [("name", .str "<Ann>")]))
      (String.ofList (textOf [("Hi ".toList, " name ".toList),
        ("'\x7d\x7d ".toList, " 'a\x7d\x7d\\'\x7b\x7b' ".toList)] " a \x7b\x7b b".toList))
      true).run (.ofFunctions [])).1 =
      .ok "Hi &lt;Ann&gt;'\x7d\x7d a\x7d\x7d&#39;\x7b\x7b a \x7b\x7b b" := by
  have hpieces : [("Hi ".toList, " name ".toList),
      ("'\x7d\x7d ".toList, " 'a\x7d\x7d\\'\x7b\x7b' ".toList)].mapM
        (evalPiece (Scope.ofData (.map [("name", .str "<Ann>")])) true (.ofFunctions [])) =
      .ok ["Hi &lt;Ann&gt;".toList, "'\x7d\x7d a\x7d\x7d&#39;\x7b\x7b".toList] := by cbv
  rw [interpolate_textOf _ _ _ _ _ (by decide) (by decide), hpieces]
  rfl

end Stencil.Interpolation
