import Mathlib
import Stencil.Proofs.Expr.Current
import Stencil.Proofs.Expr.Lexeme
import Stencil.Proofs.Expr.Members

/-!
# Points in place of a name

The point that stands for the current value, put into a text wherever a name is.

## Main definitions

* `putPoint` — a text with a point in place of a name wherever it is a token
* `Twins` — texts that are the same up to a name in one and a point in the other

## Main results

* `lexes_pointFrom` — the tokens of such a text are those of the text, with points for the name
* `parse_putPoint_iff` — it is read as the expression at the current value, but for a word operator
  right after one of the names

## Design notes

The tokens of the two texts are in step, so their parses are compared token by token and no grammar
is gone through twice.  That a word after a point is taken for a member is counted: the parse of a
text with points has as many members as that of the text with names just if no word follows a name.
-/

namespace Stencil.Expr

open Text

/-- Whether a token is a name. -/
def Token.isName (x : String) : Token → Bool
  | .name s => s == x
  | _ => false

/-- A text with a point in place of a name; `bound` bounds the number of tokens and blanks. -/
def pointFrom (x : String) : (bound : Nat) → List Char → List Char
  | _, [] => []
  | 0, c :: cs => c :: cs
  | bound + 1, c :: cs =>
    if isBlank c then c :: pointFrom x bound cs
    else
      match takeToken 0 c cs with
      | .error _ => c :: cs
      | .ok (token, rest) =>
        let text := (c :: cs).take ((c :: cs).length - rest.length)
        (if token.isName x then ['.'] else text) ++ pointFrom x bound rest

/-- A text with a point in place of a name wherever it is a token. Everything else stays as it is
written, blanks and the inside of strings included. -/
def putPoint (x source : String) : String :=
  String.ofList (pointFrom x source.toList.length source.toList)

/-! ### Texts up to a name -/

/-- Texts that are the same, or the same up to a name in one and a point in the other. Reading a
token that ends in front of the difference takes the same off both. -/
inductive Twins : List Char → List Char → Prop where
  | refl (cs : List Char) : Twins cs cs
  | point {c : Char} {cs' : List Char} (shared cs : List Char) : isNameStart c = true →
      (∀ d ∈ cs'.head?, d.isDigit = false) → Twins (shared ++ c :: cs) (shared ++ '.' :: cs')

theorem Twins.append {cs cs' : List Char} (h : Twins cs cs') (word : List Char) :
    Twins (word ++ cs) (word ++ cs') := by
  cases h with
  | refl => exact .refl _
  | point shared cs hc hcs' =>
      rw [← List.append_assoc, ← List.append_assoc]
      exact .point (word ++ shared) cs hc hcs'

/-- Twins begin with digits alike. -/
theorem Twins.isDigit {cs cs' : List Char} (h : Twins cs cs')
    (hcs : ∀ c ∈ cs.head?, c.isDigit = false) : ∀ c ∈ cs'.head?, c.isDigit = false := by
  cases h with
  | refl => exact hcs
  | point shared cs _ _ =>
      rcases shared with _ | ⟨d, shared⟩
      · exact fun c hc => Option.some.inj hc ▸ rfl
      · exact hcs

/-- A token is read in front of twins alike. -/
theorem Spells.of_twins {token : Token} {text rest rest' : List Char} (h : Spells token text rest)
    (hrest : Twins rest rest') : Spells token text rest' := by
  cases hrest with
  | refl => exact h
  | @point c cs' shared cs hc hcs' =>
      have hcuts : Cuts ('.' :: cs') :=
        { isNameChar := fun c hc => Option.some.inj hc ▸ rfl
          sign := fun c hc => Option.some.inj hc ▸ by decide
          fraction := fun c cs he => hcs' c ((List.cons.inj he).2 ▸ rfl) }
      refine h.of_cuts hcuts ?_
      rcases shared with _ | ⟨d, shared⟩
      · exact .inr fun c hc => Option.some.inj hc ▸ by decide
      · exact .inl rfl

/-! ### Tokens -/

/-- A token that is a name has the form of one, and nothing of a name follows it. Numbers and
strings are never names, whatever they hold. -/
theorem exists_of_spells_name {x : String} {text rest : List Char}
    (h : Spells (.name x) text rest) : Text.isName x.toList = true ∧
      ∃ c cs, text = c :: cs ∧ isNameStart c = true ∧ ∀ d ∈ rest.head?, isNameChar d = false := by
  obtain ⟨c, cs, rfl, -, htake⟩ := h
  have htake := htake 0
  unfold takeToken at htake
  split at htake
  · have hnumber := (isWord_takeNumber (c :: (cs ++ rest))).2 x
    rw [Except.ok.inj htake] at hnumber
    exact absurd rfl hnumber
  split at htake
  · rename_i hc
    obtain ⟨hname, hdrop⟩ := Prod.mk.inj (Except.ok.inj htake)
    refine ⟨?_, c, cs, rfl, hc, fun d hd => ?_⟩
    · rw [← Token.name.inj hname, String.toList_ofList]
      exact isName_takeWhile hc (cs ++ rest)
    · have hhead := List.head?_dropWhile_not isNameChar (cs ++ rest)
      rw [hdrop, Option.mem_def.1 hd] at hhead
      exact hhead
  split at htake
  · split at htake
    · exact nomatch htake
    · exact nomatch htake
  · split at htake
    · exact nomatch htake
    · exact nomatch htake

theorem isName_iff {x : String} {t : Token} : t.isName x = true ↔ t = .name x := by
  cases t with
  | name s => exact beq_iff_eq.trans ⟨congrArg Token.name, Token.name.inj⟩
  | _ => exact ⟨nofun, nofun⟩

/-- The tokens of a text with points for a name are its tokens with points for the name. A point
does not run into the characters beside it, for it stands where the whole name did. -/
theorem lexes_pointFrom (x : String) {cs : List Char} {ts : List Token} (h : Lexes [] cs ts)
    {bound : Nat} (hbound : cs.length ≤ bound) :
    Lexes [] (pointFrom x bound cs) (ts.map (Token.pointFor x)) ∧
      Twins cs (pointFrom x bound cs) := by
  induction h generalizing bound with
  | nil =>
      have hnil : pointFrom x bound [] = [] := by
        cases bound <;> rfl
      rw [hnil]
      exact ⟨.nil, .refl []⟩
  | @blank c cs tokens hc hcs ih =>
      rw [List.length_cons] at hbound
      obtain ⟨bound, rfl⟩ : ∃ n, bound = n + 1 := ⟨bound - 1, by omega⟩
      obtain ⟨hlexes, htwins⟩ := ih (show _ ≤ bound by omega)
      rw [pointFrom, if_pos hc]
      exact ⟨.blank hc hlexes, htwins.append [c]⟩
  | @token token text cs tokens hspells hcs ih =>
      rw [List.append_nil] at hspells
      have hword := hspells
      obtain ⟨c, text, rfl, hblank, htake⟩ := hspells
      rw [List.length_append, List.length_cons] at hbound
      obtain ⟨bound, rfl⟩ : ∃ n, bound = n + 1 := ⟨bound - 1, by omega⟩
      obtain ⟨hlexes, htwins⟩ := ih (show _ ≤ bound by omega)
      -- One step of the replacement takes as many characters as the token has.
      have hstep : pointFrom x (bound + 1) (c :: text ++ cs) =
          (if token.isName x then ['.'] else c :: text) ++ pointFrom x bound cs := by
        rw [List.cons_append, pointFrom, hblank, if_neg Bool.false_ne_true, htake 0]
        have hlength : (c :: (text ++ cs)).length - cs.length = (c :: text).length := by
          rw [List.length_cons, List.length_cons, List.length_append]
          omega
        dsimp only
        rw [hlength, ← List.cons_append, List.take_left]
      rw [hstep, List.map_cons]
      by_cases hname : token = .name x
      · subst hname
        obtain ⟨-, d, ds, htext, hd, hrest⟩ := exists_of_spells_name hword
        -- What follows a name is no digit, so the point in its place does not begin a fraction.
        obtain ⟨rfl, rfl⟩ := List.cons.inj htext
        have hdigit : ∀ e ∈ cs.head?, e.isDigit = false := by
          intro e he
          rw [Bool.eq_false_iff]
          intro hdigit
          exact Bool.false_ne_true ((hrest e he).symm.trans (isNameChar_iff.2 (.inr hdigit)))
        rw [if_pos (isName_iff.2 rfl), pointFor_name_self]
        refine ⟨.token ⟨'.', [], rfl, rfl, fun _ => rfl⟩ hlexes, ?_⟩
        exact .point [] (text ++ cs) hd (htwins.isDigit hdigit)
      · rw [if_neg fun h => hname (isName_iff.1 h), pointFor_of_ne hname]
        refine ⟨.token ?_ hlexes, htwins.append (c :: text)⟩
        rw [List.append_nil]
        exact hword.of_twins htwins

/-- The tokens of a text with points for a name. -/
theorem exists_tokenize_putPoint {x source : String} {ts : Tokens}
    (h : tokenize source = .ok ts) :
    ∃ ts' : Tokens, tokenize (putPoint x source) = .ok ts' ∧
      ts'.words = ts.words.map (Token.pointFor x) := by
  have hlexes := (lexes_pointFrom x (lexes_of_tokenize h) (Nat.le_refl _)).1
  have hfound := hlexes.tokenizeFrom (Nat.le_refl _) 0
  rwa [tokenize, putPoint, String.toList_ofList]

/-- The names among the tokens of a text have the form of names. -/
theorem isName_of_lexes {rest cs : List Char} {ts : List Token} (h : Lexes rest cs ts) :
    ∀ s, Token.name s ∈ ts → Text.isName s.toList = true := by
  induction h with
  | nil => exact fun s hs => nomatch hs
  | blank _ _ ih => exact ih
  | token hspells _ ih =>
      intro s hs
      rcases List.mem_cons.1 hs with rfl | hs
      · exact (exists_of_spells_name hspells).1
      · exact ih s hs

/-! ### Members -/

/-- The names but for one. -/
def isOther (x s : String) : Bool := Text.isName s.toList && s != x

/-- A number is no name, as it begins with a digit or a sign. -/
theorem isOther_toString (x : String) (i : Int64) : isOther x (toString i.toInt) = false := by
  suffices hnumber : Text.isName (toString i.toInt).toList = false by
    rw [isOther, hnumber, Bool.false_and]
  cases i.toInt with
  | ofNat n =>
      rw [Decimal.toList_toString_ofNat]
      have hdigits := Decimal.isDigit_of_mem_toDigits (n := n)
      generalize Nat.toDigits 10 n = digits at hdigits
      rcases digits with _ | ⟨c, digits⟩
      · rfl
      · rw [Bool.eq_false_iff]
        intro hname
        obtain ⟨d, ds, htext, hd, -⟩ := exists_cons_of_isName hname
        obtain ⟨rfl, -⟩ := List.cons.inj htext
        exact Bool.false_ne_true
          ((isDigit_of_isNameStart hd).symm.trans (hdigits c List.mem_cons_self))
  | negSucc n =>
      rw [Decimal.toList_toString_negSucc]
      rfl

/-- Expressions keep their members where each of them does. -/
theorem membersOfItems_atCurrent {x : String} {counts : String → Bool} {es : List Expr}
    (h : ∀ e ∈ es, members counts (atCurrent x e) = members counts e) :
    membersOfItems counts (itemsAtCurrent x es) = membersOfItems counts es := by
  induction es with
  | nil => rfl
  | cons e es ih =>
      obtain ⟨he, hes⟩ := List.forall_mem_cons.1 h
      rw [itemsAtCurrent, membersOfItems, membersOfItems, he, ih hes]

theorem membersOfEntries_atCurrent {x : String} {counts : String → Bool}
    {entries : List (String × Expr)}
    (h : ∀ entry ∈ entries, members counts (atCurrent x entry.2) = members counts entry.2) :
    membersOfEntries counts (entriesAtCurrent x entries) = membersOfEntries counts entries := by
  induction entries with
  | nil => rfl
  | cons entry entries ih =>
      obtain ⟨hentry, hentries⟩ := List.forall_mem_cons.1 h
      rw [entriesAtCurrent, membersOfEntries, membersOfEntries, hentry, ih hentries]

theorem members_atCurrent {x : String} {e : Expr} (counts : String → Bool)
    (h : UsesAsOperand x e) : members counts (atCurrent x e) = members counts e := by
  induction h with
  | literal v => rfl
  | name s =>
      rw [atCurrent]
      split
      · rfl
      · rfl
  | current => rfl
  | member _ _ ih => rw [atCurrent, members, members, ih]
  | index _ _ ih ihkey => rw [atCurrent, members, members, ih, ihkey]
  | call _ _ ih => rw [atCurrent, members, members, membersOfItems_atCurrent ih]
  | unary op _ ih => rw [atCurrent, members, members, ih]
  | binary op _ _ iha ihb => rw [atCurrent, members, members, iha, ihb]
  | choice _ _ _ ihcondition ihyes ihno =>
      rw [atCurrent, members, members, ihcondition, ihyes, ihno]
  | array _ ih => rw [atCurrent, members, members, membersOfItems_atCurrent ih]
  | mapping _ _ ih =>
      rw [atCurrent, members, members, membersOfEntries_atCurrent ih]

theorem pointAt_le (x : String) (t : Token) (ts : List Token) :
    pointAt (isOther x) t ts ≤
      pointAt (isOther x) (t.pointFor x) (ts.map (Token.pointFor x)) := by
  unfold pointAt
  split
  · rename_i s rest
    -- The name itself does not count, and any other stays.
    by_cases hs : s = x
    · subst hs
      simp [isOther]
    · rw [List.map_cons, pointFor_of_ne fun he => hs (Token.name.inj he)]
      exact Nat.le_refl _
  · exact Nat.zero_le _

theorem points_le (x : String) (ts : List Token) :
    points (isOther x) ts ≤ points (isOther x) (ts.map (Token.pointFor x)) := by
  induction ts with
  | nil => exact Nat.le_refl 0
  | cons t ts ih => exact Nat.add_le_add (pointAt_le x t ts) ih

/-- A point in place of a name is no beginning of a member where no other name follows. If one
followed, the point would count, and there would be more points than before. -/
theorem isChain_of_points_le {x : String} {ts : List Token}
    (hnames : ∀ s, Token.name s ∈ ts → Text.isName s.toList = true)
    (h : points (isOther x) (ts.map (Token.pointFor x)) ≤ points (isOther x) ts) :
    ts.IsChain (NotBeforeName x) := by
  induction ts with
  | nil => exact .nil
  | cons t ts ih =>
      rw [List.map_cons, points, points] at h
      have hhead := pointAt_le x t ts
      have htail := points_le x ts
      have hchain := ih (fun s hs => hnames s (List.mem_cons_of_mem t hs)) (by omega)
      rcases ts with _ | ⟨u, ts⟩
      · exact .singleton t
      refine List.isChain_cons_cons.2 ⟨?_, hchain⟩
      rintro rfl s rfl
      by_contra hs
      have hother : isOther x s = true := by
        rw [isOther, hnames s (List.mem_cons_of_mem _ List.mem_cons_self), Bool.true_and]
        exact bne_iff_ne.2 hs
      have hpoint : pointAt (isOther x) ((Token.name x).pointFor x)
          ((Token.name s :: ts).map (Token.pointFor x)) = 1 := by
        rw [pointFor_name_self, List.map_cons, pointFor_of_ne fun he => hs (Token.name.inj he)]
        exact congrArg Bool.toNat hother
      have hnone : pointAt (isOther x) (Token.name x) (Token.name s :: ts) = 0 := rfl
      omega

/-- A point can stand for the current value wherever a name does as an operand, whatever the text
that the expression is read from, but for those places where a word operator comes right after the
name. -/
theorem parse_putPoint_iff {x source : String} {e : Expr} {ts : Tokens} (hx : IsFreeName x)
    (he : parse source = .ok e) (hts : tokenize source = .ok ts) (huses : UsesAsOperand x e) :
    parse (putPoint x source) = .ok (atCurrent x e) ↔
      ts.words.IsChain (NotBeforeName x) := by
  obtain ⟨ts', hts', hwords⟩ : ∃ ts' : Tokens, tokenize (putPoint x source) = .ok ts' ∧
      ts'.words = ts.words.map (Token.pointFor x) := exists_tokenize_putPoint hts
  have hread : ofTokens ts = .ok e := by
    rwa [parse, hts] at he
  rw [parse, hts']
  constructor
  · intro h
    refine isChain_of_points_le (isName_of_lexes (lexes_of_tokenize hts)) (Nat.le_of_eq ?_)
    rw [← hwords, points_of_ofTokens (isOther_toString x) h,
      points_of_ofTokens (isOther_toString x) hread, members_atCurrent _ huses]
  · exact fun hapart => ofTokens_of_pointed hx ⟨hwords, hapart⟩ hread huses

/-- Points before and after brackets, an operator in front and a word after a member. -/
theorem parse_putPoint_suffixes :
    (IsFreeName "x" ∧ parse "x.a in [-x]" = .ok (.binary .member (.member (.name "x") "a")
        (.array [.unary .negate (.name "x")])) ∧
      tokenize "x.a in [-x]" = .ok [(0, .name "x"), (1, .symbol .dot), (2, .name "a"),
        (4, .name "in"), (7, .symbol .openBracket), (8, .symbol .minus), (9, .name "x"),
        (10, .symbol .closeBracket)] ∧
      UsesAsOperand "x" (.binary .member (.member (.name "x") "a")
        (.array [.unary .negate (.name "x")]))) ∧
    putPoint "x" "x.a in [-x]" = "..a in [-.]" ∧
    parse "..a in [-.]" = .ok (.binary .member (.member .current "a")
      (.array [.unary .negate .current])) := by
  have hx : IsFreeName "x" := ⟨by decide, by decide⟩
  have hparse : parse "x.a in [-x]" = .ok (.binary .member (.member (.name "x") "a")
      (.array [.unary .negate (.name "x")])) := by cbv
  have htokens : tokenize "x.a in [-x]" = .ok [(0, .name "x"), (1, .symbol .dot), (2, .name "a"),
      (4, .name "in"), (7, .symbol .openBracket), (8, .symbol .minus), (9, .name "x"),
      (10, .symbol .closeBracket)] := by cbv
  have huses : UsesAsOperand "x" (.binary .member (.member (.name "x") "a")
      (.array [.unary .negate (.name "x")])) := by
    refine .binary .member (.member (.name "x") (by decide)) (.array fun e he => ?_)
    obtain rfl := List.mem_singleton.1 he
    exact .unary .negate (.name "x")
  have htext : putPoint "x" "x.a in [-x]" = "..a in [-.]" := by cbv
  refine ⟨⟨hx, hparse, htokens, huses⟩, htext, ?_⟩
  have happart : List.IsChain (NotBeforeName "x") [Token.name "x", .symbol .dot, .name "a",
      .name "in", .symbol .openBracket, .symbol .minus, .name "x", .symbol .closeBracket] := by
    simp [NotBeforeName]
  have hread := (parse_putPoint_iff hx hparse htokens huses).2 happart
  rw [htext] at hread
  exact hread

/-- A word operator after the point is taken for the name of a member. -/
theorem not_parse_putPoint :
    ¬ ∀ (x source : String) (e : Expr), IsFreeName x → parse source = .ok e →
      UsesAsOperand x e → ∃ e', parse (putPoint x source) = .ok e' := by
  intro hall
  have hparse : parse "x in xs" = .ok (.binary .member (.name "x") (.name "xs")) := by cbv
  obtain ⟨e', he'⟩ := hall "x" "x in xs" _ ⟨by decide, by decide⟩ hparse
    (.binary .member (.name "x") (.name "xs"))
  have hfails : (parse (putPoint "x" "x in xs")).toOption = none := by cbv
  rw [he'] at hfails
  exact Option.some_ne_none e' hfails

end Stencil.Expr
