import Mathlib.Tactic.FinCases
import Stencil.Proofs.Expr.Grammar
import Stencil.Proofs.Expr.Position
import Stencil.Proofs.Expr.Words

/-!
# Expressions read back

A printed expression is parsed as that expression.

## Main definitions

* `Stands` — pieces that are told from whatever stops them

## Main results

* `stands_pieces` — the pieces of an expression stand before any text that stops them
* `parse_print` — parsing undoes printing
-/

namespace Stencil.Expr

open Text

variable {style : Style} {rest : List Char}

/-! ### What stops a piece -/

theorem stops_cons {c : Char} (hname : isNameChar c = false) (hdot : c ≠ '.')
    (hapart : c ∉ ['=', '*', '?']) (cs : List Char) : Stops (c :: cs) where
  isNameChar := by
    intro d hd
    obtain rfl := Option.some.inj hd
    exact hname
  isDigit := by
    intro d ds h
    exact absurd (List.cons.inj h).1 hdot
  apart := by
    intro d hd
    obtain rfl := Option.some.inj hd
    exact hapart

theorem stops_nil : Stops [] where
  isNameChar := fun _ hc => nomatch hc
  isDigit := fun _ _ h => nomatch h
  apart := fun _ hc => nomatch hc

theorem stops_blank (cs : List Char) : Stops (' ' :: cs) :=
  stops_cons (by decide) (by decide) (by decide) cs

/-- The symbols that stand right after an expression stop it. -/
theorem stops_symbol {s : Symbol}
    (h : s ∈ [.openParen, .openBracket, .closeParen, .closeBracket, .closeBrace, .comma])
    (cs : List Char) : Stops (s.text.toList ++ cs) := by
  fin_cases h <;> exact stops_cons (by decide) (by decide) (by decide) cs

/-- A name after a point is not a fraction. -/
theorem stops_dot {field : String} (h : isName field.toList = true) (cs : List Char) :
    Stops ('.' :: (field.toList ++ cs)) where
  isNameChar := by
    intro d hd
    obtain rfl := Option.some.inj hd
    rfl
  isDigit := by
    intro d ds he
    obtain ⟨c, text, htext, hc, -⟩ := exists_cons_of_isName h
    rw [htext] at he
    obtain rfl : c = d := (List.cons.inj (List.cons.inj he).2).1
    exact isDigit_of_isNameStart hc
  apart := by
    intro d hd
    obtain rfl := Option.some.inj hd
    decide

/-- A character by which a symbol grows begins no operand. -/
theorem classes_of_growing {c : Char} (h : c ∈ ['=', '*', '?']) :
    c.isDigit = false ∧ isQuote c = false ∧ isNameStart c = false := by
  simp only [List.mem_cons, List.not_mem_nil, or_false] at h
  rcases h with rfl | rfl | rfl
  · decide
  · decide
  · decide

/-- No symbol grows into the beginning of an expression: the characters that symbols grow by begin
no operand and no prefix operator. -/
theorem Begins.apart {ps : List Piece} (h : Begins ps) (style : Style) (rest : List Char) :
    Apart (textOf style ps ++ rest) := by
  obtain ⟨p, ps, rfl, hp⟩ := h
  suffices hchars : ∃ c cs, p.chars style = c :: cs ∧ c ∉ ['=', '*', '?'] by
    obtain ⟨c, cs, htext, hc⟩ := hchars
    intro d hd
    rw [textOf_cons, htext] at hd
    obtain rfl : c = d := Option.some.inj hd
    exact hc
  cases p with
  | int i =>
      have hall := Decimal.isDigit_of_mem_toDigits (n := i.toInt.toNat)
      have hne : Nat.toDigits 10 i.toInt.toNat ≠ [] := Nat.toDigits_ne_nil
      show ∃ c cs, Nat.toDigits 10 i.toInt.toNat = c :: cs ∧ _
      generalize Nat.toDigits 10 i.toInt.toNat = digits at hall hne ⊢
      rcases digits with _ | ⟨c, cs⟩
      · exact absurd rfl hne
      · refine ⟨c, cs, rfl, fun hc => ?_⟩
        exact Bool.false_ne_true ((classes_of_growing hc).1.symm.trans (hall c List.mem_cons_self))
  | str s =>
      refine ⟨style.quote, _, rfl, fun hc => ?_⟩
      exact Bool.false_ne_true ((classes_of_growing hc).2.1.symm.trans style.isQuote_quote)
  | name s =>
      have hname : isName s.toList = true := hp
      obtain ⟨c, cs, htext, hstart, -⟩ := exists_cons_of_isName hname
      refine ⟨c, cs, htext, fun hc => ?_⟩
      exact Bool.false_ne_true ((classes_of_growing hc).2.2.symm.trans hstart)
  | symbol s =>
      have hs : s ∈ [.dot, .openParen, .openBracket, .openBrace, .bang, .minus] := hp
      fin_cases hs <;> exact ⟨_, _, rfl, by decide⟩
  | blank => exact hp.elim

/-! ### Pieces that stand -/

/-- Each piece is told from what follows it, whatever stops the last. Where pieces are joined, the
first piece of the second part stops the first part. -/
def Stands (style : Style) (ps : List Piece) : Prop := ∀ rest, Stops rest → Spaced style rest ps

theorem Stands.placed {ps : List Piece} (h : Stands style ps) (hbegins : Begins ps)
    (least own : Nat) : Stands style (placed least own ps) := by
  intro rest hrest
  unfold Expr.placed
  split
  · refine spaced_append.2 ⟨⟨trivial, ?_, h _ ?_⟩, trivial, hrest.apart, trivial⟩
    · exact hbegins.apart style _
    · exact stops_symbol (s := .closeParen) (by decide) rest
  · exact h rest hrest

theorem stands_name {s : String} (h : isName s.toList = true) : Stands style [.name s] :=
  fun _ hrest => ⟨h, hrest, trivial⟩

/-- An operator between blanks is told from them. -/
theorem spaced_operator {p : Piece} (hp : p.Proper) (h : ∀ cs, p.EndsBefore (' ' :: cs)) :
    Spaced style rest [.blank, p, .blank] :=
  ⟨trivial, trivial, hp, h _, trivial, trivial, trivial⟩

theorem Stands.separated {spelled : List (List Piece)}
    (h : ∀ ps ∈ spelled, Stands style ps) : Stands style (separated spelled) := by
  induction spelled with
  | nil => exact fun _ _ => trivial
  | cons ps spelled ih =>
      intro rest hrest
      have hps := h ps List.mem_cons_self
      have htail := ih fun qs hqs => h qs (List.mem_cons_of_mem ps hqs)
      rcases spelled with _ | ⟨qs, spelled⟩
      · exact hps rest hrest
      · rw [separated_cons_cons]
        refine spaced_append.2 ⟨spaced_append.2 ⟨hps _ ?_, ?_⟩, htail rest hrest⟩
        · exact stops_symbol (s := .comma) (by decide) _
        · exact ⟨trivial, (stops_blank _).apart, trivial, trivial, trivial⟩

/-- A list between brackets is told from what stops it. Its items are told from the commas between
them, and the last one from the bracket. -/
theorem spaced_list {spelled : List (List Piece)} (h : ∀ ps ∈ spelled, Stands style ps)
    (hbegins : ∀ ps ∈ spelled, Begins ps) (opening : Symbol) {close : Symbol}
    (hclose : close ∈ [.closeParen, .closeBracket, .closeBrace]) (hrest : Stops rest) :
    Spaced style rest ([.symbol opening] ++ separated spelled ++ [.symbol close]) := by
  have hstops : Stops (close.text.toList ++ rest) :=
    stops_symbol (by fin_cases hclose <;> decide) rest
  have htext : textOf style [.symbol close] = close.text.toList := List.append_nil _
  refine spaced_append.2 ⟨⟨trivial, ?_, ?_⟩, trivial, hrest.apart, trivial⟩
  · rcases spelled with _ | ⟨ps, spelled⟩
    · rw [htext]
      exact hstops.apart
    · have hfirst : Begins (separated (ps :: spelled)) := by
        rcases spelled with _ | ⟨qs, spelled⟩
        · exact hbegins ps List.mem_cons_self
        · exact ((hbegins ps List.mem_cons_self).append _).append _
      exact hfirst.apart style _
  · rw [htext]
    exact Stands.separated h _ hstops

theorem stands_within {e : Expr} (h : Stands style (pieces style e)) (he : Printable e)
    (least : Nat) : Stands style (placed least (level style e) (pieces style e)) :=
  h.placed (begins_pieces style he) least (level style e)

/-- Items that stand are a list between brackets that does. -/
theorem spaced_itemPieces {items : List Expr} (hitems : ∀ e ∈ items, Printable e)
    (h : ∀ e ∈ items, Stands style (pieces style e)) (opening : Symbol) {close : Symbol}
    (hclose : close ∈ [.closeParen, .closeBracket, .closeBrace]) (hrest : Stops rest) :
    Spaced style rest
      ([.symbol opening] ++ separated (itemPieces style items) ++ [.symbol close]) := by
  rw [itemPieces_eq_map]
  refine spaced_list ?_ ?_ opening hclose hrest
  · intro ps hps
    obtain ⟨e, he, rfl⟩ := List.mem_map.1 hps
    exact stands_within (h e he) (hitems e he) 1
  · intro ps hps
    obtain ⟨e, he, rfl⟩ := List.mem_map.1 hps
    exact begins_within (hitems e he) style 1

theorem stands_entryPiecesOf {entry : String × Expr} (h : Stands style (pieces style entry.2))
    (he : Printable entry.2) : Stands style (entryPiecesOf style entry) := by
  intro rest hrest
  have hvalue := stands_within h he 1 rest hrest
  exact ⟨trivial, trivial, trivial, (stops_blank _).apart, trivial, trivial, hvalue⟩

/-- A printed expression is told from what stops it. Each piece ends before the next one, by a space
where the two would run into each other. -/
theorem stands_pieces (style : Style) {e : Expr} (he : Printable e) :
    Stands style (pieces style e) := by
  induction he with
  | nil => exact stands_name (by decide)
  | bool b =>
      cases b with
      | true => exact stands_name (by decide)
      | false => exact stands_name (by decide)
  | int h => exact fun _ hrest => ⟨h, hrest, trivial⟩
  | str s => exact fun _ _ => ⟨trivial, trivial, trivial⟩
  | name hs => exact stands_name hs.1
  | current => exact fun _ hrest => ⟨trivial, hrest.apart, trivial⟩
  -- A member: the point ends the base, and the name is followed by what follows the member.
  | @member base field hbase hfield ih =>
      intro rest hrest
      have htext : textOf style [.symbol .dot, .name field] ++ rest =
          '.' :: (field.toList ++ rest) := by
        rw [textOf_cons, textOf_cons, List.append_assoc, List.append_assoc]
        rfl
      refine spaced_append.2 ⟨stands_within ih hbase 12 _ ?_, trivial, ?_, hfield, hrest, trivial⟩
      · rw [htext]
        exact stops_dot hfield rest
      · exact (begins_name hfield []).apart style rest
  | @index base key hbase hkey ihbase ihkey =>
      intro rest hrest
      refine spaced_append.2 ⟨spaced_append.2 ⟨spaced_append.2 ⟨stands_within ihbase hbase 12 _ ?_,
        trivial, ?_, trivial⟩, stands_within ihkey hkey 1 _ ?_⟩, trivial, hrest.apart, trivial⟩
      · exact stops_symbol (s := .openBracket) (by decide) _
      · exact (begins_within hkey style 1).apart style _
      · exact stops_symbol (s := .closeBracket) (by decide) _
  | @call f args hf hargs ih =>
      intro rest hrest
      refine ⟨hf.1, ?_, spaced_itemPieces hargs ih .openParen (by decide) hrest⟩
      exact stops_symbol (s := .openParen) (by decide) _
  | @unary op e he ih =>
      intro rest hrest
      exact ⟨trivial, (begins_within he style 10).apart style rest,
        stands_within ih he 10 rest hrest⟩
  -- The operators are between spaces, which end the operand on the left and the operator.
  | @binary op a b ha hb iha ihb =>
      intro rest hrest
      have hoperator : (operatorPiece op).Proper ∧
          ∀ cs, (operatorPiece op).EndsBefore (' ' :: cs) := by
        cases op with
        | member => exact ⟨by rfl, stops_blank⟩
        | _ => exact ⟨trivial, fun cs => (stops_blank cs).apart⟩
      refine spaced_append.2 ⟨spaced_append.2 ⟨?_, spaced_operator hoperator.1 hoperator.2⟩, ?_⟩
      · exact stands_within iha ha (leftLevel op) _ (stops_blank _)
      · exact stands_within ihb hb (rightLevel op) rest hrest
  | @choice condition yes no hcondition hyes hno ihcondition ihyes ihno =>
      intro rest hrest
      have hsymbol : ∀ (s : Symbol) cs, (Piece.symbol s).EndsBefore (' ' :: cs) :=
        fun _ cs => (stops_blank cs).apart
      refine spaced_append.2 ⟨spaced_append.2 ⟨spaced_append.2 ⟨spaced_append.2 ⟨?_,
        spaced_operator trivial (hsymbol .question)⟩, ?_⟩,
        spaced_operator trivial (hsymbol .colon)⟩, ?_⟩
      · exact stands_within ihcondition hcondition 2 _ (stops_blank _)
      · exact stands_within ihyes hyes 1 _ (stops_blank _)
      · exact stands_within ihno hno 1 rest hrest
  -- Between brackets the items are ended by commas and by the bracket itself.
  | @array items hitems ih =>
      intro rest hrest
      exact spaced_itemPieces hitems ih .openBracket (by decide) hrest
  | @mapping entries hentries ih =>
      intro rest hrest
      show Spaced style rest ([.symbol .openBrace] ++ separated (entryPieces style entries) ++
        [.symbol .closeBrace])
      rw [entryPieces_eq_map]
      refine spaced_list ?_ ?_ .openBrace (by decide) hrest
      · intro ps hps
        obtain ⟨entry, hentry, rfl⟩ := List.mem_map.1 hps
        exact stands_entryPiecesOf (ih entry hentry) (hentries entry hentry)
      · intro ps hps
        obtain ⟨entry, hentry, rfl⟩ := List.mem_map.1 hps
        exact ⟨.str entry.1, _, rfl, trivial⟩

/-- Parsing undoes printing: the text of an expression, with no parentheses but those that
precedence asks for, is read as that expression. -/
theorem parse_print (style : Style) {e : Expr} (he : Printable e) :
    parse (print style e) = .ok e := by
  have hspaced : Spaced style [] (within style 1 e) :=
    stands_within (stands_pieces style he) he 1 [] stops_nil
  obtain ⟨ts, hts, hsame⟩ := tokenizeFrom_textOf style hspaced (Nat.le_refl _) 0
  have hread : tokenize (print style e) = .ok ts := by
    rw [tokenize, print, String.toList_ofList, hts]
  have hmoved : Moved (tokensOf (within style 1 e)) ts := moved_of_map_eq hsame.symm
  rw [parse, hread]
  exact ofTokens_of_moved hmoved (ofTokens_tokensOf style 1 he)

/-- A sum in parentheses, a prefix operator above a power, and a call with the current value. -/
theorem parse_print_product :
    print ⟨'"', rfl, fun _ => false⟩
        (.binary .multiply (.binary .add (.name "a") (.literal (.int 1)))
          (.binary .power (.unary .negate (.index (.call "f" [.current]) (.literal (.str "k"))))
            (.literal (.int 2)))) =
      "(a + 1) * -f((.))[\"k\"] ** 2" ∧
    parse (print ⟨'"', rfl, fun _ => false⟩
        (.binary .multiply (.binary .add (.name "a") (.literal (.int 1)))
          (.binary .power (.unary .negate (.index (.call "f" [.current]) (.literal (.str "k"))))
            (.literal (.int 2))))) =
      .ok (.binary .multiply (.binary .add (.name "a") (.literal (.int 1)))
          (.binary .power (.unary .negate (.index (.call "f" [.current]) (.literal (.str "k"))))
            (.literal (.int 2)))) := by
  have hone : Printable (.literal (.int 1)) := .int (by decide)
  have htwo : Printable (.literal (.int 2)) := .int (by decide)
  have hsum : Printable (.binary .add (.name "a") (.literal (.int 1))) :=
    .binary .add (.name ⟨by decide, by decide⟩) hone
  have hcall : Printable (.call "f" [.current]) :=
    .call ⟨by decide, by decide⟩ fun e he => List.mem_singleton.1 he ▸ .current
  refine ⟨by cbv, parse_print _ ?_⟩
  exact .binary .multiply hsum (.binary .power (.unary .negate (.index hcall (.str "k"))) htwo)

end Stencil.Expr
