import Mathlib
import Stencil.Proofs.Expr.Lexeme

/-!
# Extents of tokens

Which bytes of a text its tokens take up.

## Main definitions

* `IsSlice` — what stands in a text from one byte position up to another
* `Extent` — a token and the bytes that its text takes up

## Main results

* `Spells.tokenize` — the text of a token, by itself, is that token and nothing else
* `exists_extents` — tokens take up slices of their text, one after another, and blanks remain

## Design notes

An extent ends where the next character begins, so that one token can end where the next one starts.
-/

namespace Stencil.Expr

open Text

/-- From one byte position of a text up to another stands `text`. -/
def IsSlice (cs : List Char) (start stop : Nat) (text : List Char) : Prop :=
  ∃ before after, cs = before ++ text ++ after ∧ byteLength before = start ∧
    byteLength (before ++ text) = stop

/-- A token and the bytes that its text takes up, from `start` up to `stop`. Positions count bytes
and not characters, as those of errors do. -/
structure Extent where
  start : Nat
  stop : Nat
  token : Token

namespace Extent

/-- The token where it is found. -/
def found (e : Extent) : Nat × Token := (e.start, e.token)

/-- A byte position belongs to an extent. -/
def Holds (e : Extent) (position : Nat) : Prop := e.start ≤ position ∧ position < e.stop

/-- The slice of an extent, by itself, is its token and nothing else. -/
def Reads (e : Extent) (cs : List Char) : Prop :=
  ∃ text, IsSlice cs e.start e.stop text ∧ tokenize (String.ofList text) = .ok [(0, e.token)]

end Extent

variable {pre cs : List Char} {ts : Tokens} {extents : List Extent} {e : Extent}

/-! ### Single tokens -/

theorem byteLength_pos {text : List Char} (h : text ≠ []) : 0 < byteLength text := by
  rcases text with _ | ⟨c, text⟩
  · exact absurd rfl h
  · exact Nat.lt_of_lt_of_le c.utf8Size_pos (Nat.le_add_right _ _)

/-- The text of a token, by itself, is that token and nothing else. A token may have looked at what
follows it, but it ends where it does at the end of a text too. -/
theorem Spells.tokenize {token : Token} {text rest : List Char} (h : Spells token text rest) :
    Expr.tokenize (String.ofList text) = .ok [(0, token)] := by
  have hcuts : Cuts [] := ⟨nofun, nofun, nofun⟩
  have hapart : Apart ([] ++ []) := nofun
  have hfront : Spells token text ([] ++ rest) := h
  have halone : Spells token text ([] ++ []) := hfront.of_cuts hcuts (.inr hapart)
  obtain ⟨c, cs, rfl, hblank, htake⟩ := halone
  rw [Expr.tokenize, String.toList_ofList]
  refine (tokenizeFrom_cons hblank).2 ⟨token, [], [], ?_, ?_, rfl⟩
  · simpa using htake 0
  · cases cs <;> rfl

theorem Extent.Reads.start_lt_stop (h : e.Reads cs) : e.start < e.stop := by
  obtain ⟨text, ⟨before, after, -, hstart, hstop⟩, hread⟩ := h
  have hne : text ≠ [] := by
    rintro rfl
    exact nomatch Except.ok.inj hread
  have hpos := byteLength_pos hne
  rw [byteLength_append] at hstop
  omega

/-! ### Token lists -/

/-- Extents account for a text that stands after `pre`: they stand in it one after another, the
slice of each is read as its token, and blanks remain. -/
structure Accounted (pre cs : List Char) (extents : List Extent) : Prop where
  le_start : ∀ e ∈ extents, byteLength pre ≤ e.start
  ordered : extents.Pairwise fun e e' => e.stop ≤ e'.start
  reads : ∀ e ∈ extents, e.Reads (pre ++ cs)
  rest : ∀ before c after, cs = before ++ c :: after →
    isBlank c = true ∨ ∃ e ∈ extents, e.Holds (byteLength (pre ++ before))

theorem accounted_nil (pre : List Char) : Accounted pre [] [] where
  le_start := List.forall_mem_nil _
  ordered := .nil
  reads := List.forall_mem_nil _
  rest before c after h := absurd h (by simp)

theorem Accounted.blank {c : Char} (hc : isBlank c = true)
    (h : Accounted (pre ++ [c]) cs extents) : Accounted pre (c :: cs) extents where
  le_start e he := by
    have hstart := h.le_start e he
    rw [byteLength_append] at hstart
    omega
  ordered := h.ordered
  reads e he := by
    have hreads := h.reads e he
    rwa [List.append_assoc] at hreads
  rest before d after hd := by
    rcases before with _ | ⟨b, before⟩
    · obtain ⟨rfl, -⟩ := List.cons.inj hd
      exact .inl hc
    · obtain ⟨rfl, hcs⟩ := List.cons.inj hd
      have hrest := h.rest before d after hcs
      rwa [List.append_assoc] at hrest

/-- A token takes up its text, and the extents of what follows stand after it. What is in front of
the token is part of the statement, since extents are positions in the whole text. -/
theorem Accounted.cons {token : Token} {text : List Char}
    (hread : tokenize (String.ofList text) = .ok [(0, token)])
    (h : Accounted (pre ++ text) cs extents) :
    Accounted pre (text ++ cs)
      (⟨byteLength pre, byteLength (pre ++ text), token⟩ :: extents) where
  le_start := by
    refine List.forall_mem_cons.2 ⟨Nat.le_refl _, fun e he => ?_⟩
    have hstart := h.le_start e he
    rw [byteLength_append] at hstart
    omega
  ordered := List.pairwise_cons.2 ⟨h.le_start, h.ordered⟩
  reads := by
    refine List.forall_mem_cons.2 ⟨⟨text, ⟨pre, cs, ?_, rfl, rfl⟩, hread⟩, fun e he => ?_⟩
    · rw [List.append_assoc]
    · have hreads := h.reads e he
      rwa [List.append_assoc] at hreads
  rest before c after hc := by
    -- Behind the token the other extents decide.
    have hbehind : ∀ more, before = text ++ more → cs = more ++ c :: after → isBlank c = true ∨
        ∃ e ∈ (⟨byteLength pre, byteLength (pre ++ text), token⟩ : Extent) :: extents,
          e.Holds (byteLength (pre ++ before)) := by
      rintro more rfl hcs
      rw [← List.append_assoc]
      exact (h.rest more c after hcs).imp_right fun ⟨e, he, hholds⟩ =>
        ⟨e, List.mem_cons_of_mem _ he, hholds⟩
    rcases List.append_eq_append_iff.1 hc with ⟨more, hbefore, hcs⟩ | ⟨within, htext, hwithin⟩
    · exact hbehind more hbefore hcs
    rcases within with _ | ⟨d, within⟩
    · exact hbehind [] (by rw [htext, List.append_nil, List.append_nil]) hwithin.symm
    · -- The character stands in the text of the token.
      have hpos := byteLength_pos (List.cons_ne_nil d within)
      refine .inr ⟨_, List.mem_cons_self, ?_, ?_⟩
      · show byteLength pre ≤ byteLength (pre ++ before)
        rw [byteLength_append]
        exact Nat.le_add_right _ _
      · show byteLength (pre ++ before) < byteLength (pre ++ text)
        rw [htext, byteLength_append, byteLength_append, byteLength_append]
        omega

theorem LexesAt.exists_accounted (h : LexesAt (byteLength pre) cs ts) :
    ∃ extents, extents.map Extent.found = ts ∧ Accounted pre cs extents := by
  generalize hposition : byteLength pre = position at h
  induction h generalizing pre with
  | nil => exact ⟨[], rfl, accounted_nil pre⟩
  | @blank position c cs ts hc _ ih =>
      have hnext : byteLength (pre ++ [c]) = position + c.utf8Size := by
        rw [byteLength_append, hposition]
        rfl
      obtain ⟨extents, hfound, haccounted⟩ := ih hnext
      exact ⟨extents, hfound, haccounted.blank hc⟩
  | @token position token text cs ts hspells _ ih =>
      have hnext : byteLength (pre ++ text) = position + byteLength text := by
        rw [byteLength_append, hposition]
      obtain ⟨extents, hfound, haccounted⟩ := ih hnext
      refine ⟨_, ?_, haccounted.cons hspells.tokenize⟩
      rw [List.map_cons, hfound, Extent.found, hposition]

/-- Of extents that stand one after another at most one holds a position. -/
theorem eq_of_holds (h : extents.Pairwise fun e e' => e.stop ≤ e'.start) {e e' : Extent}
    (he : e ∈ extents) (he' : e' ∈ extents) {position : Nat} (hholds : e.Holds position)
    (hholds' : e'.Holds position) : e = e' := by
  have hapart : extents.Pairwise fun e e' => ¬ (e.Holds position ∧ e'.Holds position) := by
    refine h.imp ?_
    rintro a b hle ⟨ha, hb⟩
    exact Nat.lt_irrefl position (Nat.lt_of_lt_of_le ha.2 (Nat.le_trans hle hb.1))
  by_contra hne
  have hsymm : Std.Symm fun e e' : Extent => ¬ (e.Holds position ∧ e'.Holds position) :=
    ⟨fun _ _ hnot hboth => hnot hboth.symm⟩
  exact hapart.forall he he' hne ⟨hholds, hholds'⟩

/-- The tokens of a text take up slices of it, one after another, each of which is, by itself, its
token and nothing else.  A character that is not blank belongs to exactly one of them. -/
theorem exists_extents {s : String} {ts : Tokens} (h : tokenize s = .ok ts) :
    (ts.map Prod.fst).Pairwise (· < ·) ∧
      ∃ extents : List Extent, extents.map Extent.found = ts ∧
        extents.Pairwise (fun e e' => e.stop ≤ e'.start) ∧
        (∀ e ∈ extents, e.Reads s.toList) ∧
        ∀ before c after, s.toList = before ++ c :: after → isBlank c = false →
          ∃! e, e ∈ extents ∧ e.Holds (byteLength before) := by
  have hlexes : LexesAt (byteLength []) s.toList ts := lexesAt_of_tokenize h
  obtain ⟨extents, rfl, haccounted⟩ := hlexes.exists_accounted
  refine ⟨?_, extents, rfl, haccounted.ordered, haccounted.reads, fun before c after hs hc => ?_⟩
  · rw [List.map_map, List.pairwise_map]
    refine haccounted.ordered.imp_of_mem fun he _ hle => ?_
    exact Nat.lt_of_lt_of_le (haccounted.reads _ he).start_lt_stop hle
  · rcases haccounted.rest before c after hs with hblank | ⟨e, he, hholds⟩
    · exact absurd hblank (Bool.eq_false_iff.1 hc)
    · exact ⟨e, ⟨he, hholds⟩, fun e' he' => eq_of_holds haccounted.ordered he'.1 he he'.2 hholds⟩

/-- An escaped quote, a longer spelling and an exponent mark without an exponent. -/
theorem exists_extents_backOff :
    tokenize "xs['é \\'']!== 1e" = .ok [(0, .name "xs"), (2, .symbol .openBracket),
        (3, .str "é '"), (10, .symbol .closeBracket), (11, .symbol .notEqual), (15, .int 1),
        (16, .name "e")] ∧
      ∃ extents : List Extent, extents.map Extent.found = [(0, .name "xs"),
          (2, .symbol .openBracket), (3, .str "é '"), (10, .symbol .closeBracket),
          (11, .symbol .notEqual), (15, .int 1), (16, .name "e")] ∧
        extents.Pairwise (fun e e' => e.stop ≤ e'.start) ∧
        ∀ e ∈ extents, e.Reads "xs['é \\'']!== 1e".toList := by
  have htokens : tokenize "xs['é \\'']!== 1e" = .ok [(0, .name "xs"), (2, .symbol .openBracket),
      (3, .str "é '"), (10, .symbol .closeBracket), (11, .symbol .notEqual), (15, .int 1),
      (16, .name "e")] := by cbv
  obtain ⟨-, extents, hfound, hordered, hreads, -⟩ := exists_extents htokens
  exact ⟨htokens, extents, hfound, hordered, hreads⟩

end Stencil.Expr
