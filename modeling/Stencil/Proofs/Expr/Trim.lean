import Stencil.Proofs.Expr.Lexeme

/-!
# Blanks around expressions

The blanks before and after an expression mean nothing.

## Main results

* `takeToken_append_blanks` — blanks at the end of a text change no token
* `tokenizeFrom_append_blanks` — nor the list of its tokens
* `parse_trimmed` — an expression is the same without the blanks around it
-/

namespace Stencil.Expr

open Text

/-! ### Blanks -/

/-- A beginning without a character is not lengthened by it. -/
theorem stripPrefix?_append_singleton {w : Char} {start : List Char} (hstart : w ∉ start)
    (cs : List Char) :
    stripPrefix? start (cs ++ [w]) = (stripPrefix? start cs).map (· ++ [w]) := by
  induction start generalizing cs with
  | nil => rfl
  | cons s start ih =>
      rw [List.mem_cons, not_or] at hstart
      rcases cs with _ | ⟨c, cs⟩
      · exact if_neg (Ne.symm hstart.1)
      · simp only [List.cons_append, stripPrefix?, ih hstart.2]
        split
        · rfl
        · rfl

section Blank

variable {w : Char} (hw : isBlank w = true)

include hw

/-- A blank is of no class that has no blanks. -/
theorem eq_false_of_isBlank {p : Char → Bool} (hp : ∀ c, p c = true → isBlank c = false) :
    p w = false := by
  rw [Bool.eq_false_iff]
  exact fun h => Bool.false_ne_true ((hp w h).symm.trans hw)

theorem isWordChar_of_isBlank : isWordChar w = false := by
  refine eq_false_of_isBlank hw fun c hc => ?_
  simp only [isWordChar, Bool.or_eq_true, beq_iff_eq] at hc
  rcases hc with ((hc | rfl) | rfl) | rfl
  · exact isBlank_of_isNameChar hc
  · rfl
  · rfl
  · rfl

theorem cuts_of_isBlank (rest : List Char) : Cuts (w :: rest) :=
  cuts_of_isWordChar (isWordChar_of_isBlank hw) rest

theorem isNameChar_of_isBlank : isNameChar w = false :=
  (cuts_of_isBlank hw []).isNameChar w rfl

theorem isQuote_of_isBlank : isQuote w = false :=
  eq_false_of_isBlank hw fun _ h => (quote_classes h).1

/-! ### Tokens -/

theorem takeString?_append_blank {q : Char} (hq : isQuote q = true) (cs : List Char) :
    takeString? q (cs ++ [w]) =
      (takeString? q cs).map fun (content, rest) => (content, rest ++ [w]) := by
  have hquote : w ≠ q := by
    rintro rfl
    exact Bool.false_ne_true ((isQuote_of_isBlank hw).symm.trans hq)
  have hbackslash : w ≠ '\\' := by
    rintro rfl
    exact absurd hw (by decide)
  have hlone : takeString? q [w] = none := by
    rw [takeString?_cons hbackslash, if_neg hquote]
    rfl
  fun_induction takeString? q cs with
  | case1 => exact hlone
  | case2 => rfl
  | case3 c cs ih =>
      show (takeString? q (cs ++ [w])).map _ = _
      rw [ih, Option.map_map, Option.map_map]
      rfl
  | case4 cs hlast hescape =>
      rw [List.cons_append, takeString?_cons (ne_backslash hlast hescape), if_pos rfl]
      rfl
  | case5 c cs hlast hescape hc ih =>
      rw [List.cons_append, takeString?_cons (ne_backslash hlast hescape), if_neg hc, ih,
        Option.map_map, Option.map_map]
      rfl

theorem symbolTake?_append_blank (cs : List Char) :
    Symbol.take? (cs ++ [w]) = (Symbol.take? cs).map fun (s, rest) => (s, rest ++ [w]) := by
  have hspellings : (Symbol.spellings.all fun entry => entry.1.all (!isBlank ·)) = true := by
    decide
  have hnone : ∀ entry ∈ Symbol.spellings, w ∉ entry.1 := by
    intro entry hentry hmem
    have hblank := List.all_eq_true.1 (List.all_eq_true.1 hspellings entry hentry) w hmem
    rw [hw] at hblank
    exact Bool.false_ne_true hblank
  unfold Symbol.take?
  generalize Symbol.spellings = spellings at hnone
  induction spellings with
  | nil => rfl
  | cons entry spellings ih =>
      have htail := ih fun entry hentry => hnone entry (List.mem_cons_of_mem _ hentry)
      obtain ⟨spelling, s⟩ := entry
      have hfirst : w ∉ spelling := hnone (spelling, s) List.mem_cons_self
      rw [List.findSome?_cons, List.findSome?_cons, htail]
      simp only [stripPrefix?_append_singleton hfirst]
      rcases stripPrefix? spelling cs with _ | rest
      · rfl
      · rfl

/-- A blank at the end of a text changes no token. A token that goes on to the end of the text ends
in front of the blank all the same. -/
theorem takeToken_append_blank (position : Nat) (c : Char) (cs : List Char) :
    takeToken position c (cs ++ [w]) =
      (takeToken position c cs).map fun (token, rest) => (token, rest ++ [w]) := by
  have hcuts := cuts_of_isBlank hw []
  obtain ⟨htake, hdrop⟩ := takeWhile_append_of_head hcuts.isNameChar cs
  unfold takeToken
  split
  · rw [← List.cons_append, takeNumber_append hcuts]
    rfl
  split
  · rw [htake, hdrop]
    rfl
  split
  · rename_i hquote
    rw [takeString?_append_blank hw hquote]
    rcases takeString? c cs with _ | ⟨content, rest⟩
    · rfl
    · rfl
  · rw [← List.cons_append, symbolTake?_append_blank hw]
    rcases Symbol.take? (c :: cs) with _ | ⟨s, rest⟩
    · rfl
    · rfl

end Blank

section Blanks

variable {ws : List Char} (hws : ∀ c ∈ ws, isBlank c = true)

include hws

/-- Blanks behind a text do not change the token that is taken off it, and are left over with the
rest. -/
theorem takeToken_append_blanks (position : Nat) (c : Char) (cs : List Char) :
    takeToken position c (cs ++ ws) =
      (takeToken position c cs).map fun (token, rest) => (token, rest ++ ws) := by
  induction ws generalizing cs with
  | nil =>
      rw [List.append_nil]
      rcases takeToken position c cs with e | ⟨token, rest⟩
      · rfl
      · exact congrArg (fun cs => Except.ok (token, cs)) (List.append_nil rest).symm
  | cons w ws ih =>
      have hfirst := takeToken_append_blank (hws w List.mem_cons_self) position c cs
      have hrest := ih (fun d hd => hws d (List.mem_cons_of_mem w hd)) (cs ++ [w])
      rw [List.append_assoc, List.singleton_append] at hrest
      rw [hrest, hfirst]
      rcases takeToken position c cs with e | ⟨token, rest⟩
      · rfl
      · exact congrArg (fun cs => Except.ok (token, cs)) (List.append_assoc rest [w] ws)

/-! ### Token lists -/

theorem tokenizeFrom_blanks (bound position : Nat) : tokenizeFrom bound position ws = .ok [] := by
  induction bound generalizing position ws with
  | zero => cases ws <;> rfl
  | succ bound ih =>
      rcases ws with _ | ⟨w, ws⟩
      · rfl
      · exact (if_pos (hws w List.mem_cons_self)).trans
          (ih (fun d hd => hws d (List.mem_cons_of_mem w hd)) _)

end Blanks

/-- Neither blanks at the end of a text nor its position nor a higher bound changes its tokens.
Positions do change, which is why the tokens are compared without them. -/
theorem tokenizeFrom_append_blanks {ws : List Char} (hws : ∀ c ∈ ws, isBlank c = true)
    {bound bound' : Nat} {cs : List Char} (hbound : cs.length ≤ bound)
    (hbound' : cs.length ≤ bound')
    (position position' : Nat) {ts : Tokens}
    (h : tokenizeFrom bound position (cs ++ ws) = .ok ts) :
    ∃ ts', tokenizeFrom bound' position' cs = .ok ts' ∧ Moved ts ts' := by
  induction bound generalizing bound' position position' cs ts with
  | zero =>
      obtain rfl := List.length_eq_zero_iff.1 (Nat.le_zero.1 hbound)
      obtain rfl := Except.ok.inj ((tokenizeFrom_blanks hws 0 position).symm.trans h)
      exact ⟨[], tokenizeFrom_blanks (List.forall_mem_nil _) _ _, .nil⟩
  | succ bound ih =>
      rcases cs with _ | ⟨c, cs⟩
      · obtain rfl := Except.ok.inj ((tokenizeFrom_blanks hws (bound + 1) position).symm.trans h)
        exact ⟨[], tokenizeFrom_blanks (List.forall_mem_nil _) _ _, .nil⟩
      rw [List.length_cons] at hbound hbound'
      obtain ⟨bound', rfl⟩ : ∃ n, bound' = n + 1 := ⟨bound' - 1, by omega⟩
      rw [List.cons_append] at h
      cases hc : isBlank c with
      | true =>
          rw [tokenizeFrom_blank hc] at h ⊢
          exact ih (by omega) (by omega) _ _ h
      | false =>
          obtain ⟨token, rest, others, htake, hothers, rfl⟩ := (tokenizeFrom_cons hc).1 h
          -- The token is the same without the blanks, and the rest has them behind it.
          rw [takeToken_append_blanks hws] at htake
          generalize hread : takeToken position c cs = found at htake
          rcases found with e | ⟨token', rest'⟩
          · exact nomatch htake
          obtain ⟨rfl, rfl⟩ := Prod.mk.inj (Except.ok.inj htake)
          have hlength := length_of_takeToken hread
          obtain ⟨others', hothers', hmoved⟩ := ih (show _ ≤ bound by omega)
            (show _ ≤ bound' by omega) _
            (position' + (byteLength (c :: cs) - byteLength rest')) hothers
          refine ⟨(position', token') :: others', ?_, .cons rfl hmoved⟩
          exact (tokenizeFrom_cons hc).2
            ⟨token', rest', others', takeToken_position hread position', hothers', rfl⟩

/-- The tokens between blanks are those of the text there. -/
theorem tokenize_between {pre cs post : List Char} (hpre : ∀ c ∈ pre, isBlank c = true)
    (hpost : ∀ c ∈ post, isBlank c = true) {bound : Nat}
    (hbound : (pre ++ cs ++ post).length ≤ bound) (position : Nat) {ts : Tokens}
    (h : tokenizeFrom bound position (pre ++ cs ++ post) = .ok ts) :
    ∃ ts', tokenizeFrom cs.length 0 cs = .ok ts' ∧ Moved ts ts' := by
  induction pre generalizing bound position with
  | nil =>
      rw [List.nil_append] at hbound h
      rw [List.length_append] at hbound
      exact tokenizeFrom_append_blanks hpost (by omega) (Nat.le_refl _) position 0 h
  | cons c pre ih =>
      rw [List.cons_append, List.cons_append, List.length_cons] at hbound
      obtain ⟨bound, rfl⟩ : ∃ n, bound = n + 1 := ⟨bound - 1, by omega⟩
      rw [List.cons_append, List.cons_append,
        tokenizeFrom_blank (hpre c List.mem_cons_self)] at h
      exact ih (fun d hd => hpre d (List.mem_cons_of_mem c hd)) (by omega) _ h

/-- An expression is the same without the blanks around it. Programs are kept under trimmed texts,
so that this is what a look into the cache needs. -/
theorem parse_trimmed {source : String} {e : Expr} (h : parse source = .ok e) :
    parse (trimmed source) = .ok e := by
  obtain ⟨pre, post, htext, hpre, hpost⟩ := exists_trim source.toList
  unfold parse at h
  split at h
  · rename_i ts hts
    rw [tokenize, htext] at hts
    obtain ⟨ts', hts', hmoved⟩ := tokenize_between hpre hpost (Nat.le_refl _) 0 hts
    have htrimmed : tokenize (trimmed source) = .ok ts' := by
      rw [tokenize, trimmed, String.toList_ofList, hts']
    rw [parse, htrimmed]
    exact ofTokens_of_moved hmoved h
  · exact nomatch h

end Stencil.Expr
