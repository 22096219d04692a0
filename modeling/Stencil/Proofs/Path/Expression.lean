import Stencil.Proofs.Expr.RoundTrip
import Stencil.Proofs.Path.Segment
import Stencil.Proofs.Pipe.Agreement

/-!
# Paths as expressions

The expression that the text of a path is.

## Main definitions

* `Path.IsNumeral`, `Path.numeralValue` — integers the way they are written
* `Path.Segment.wrap`, `Path.spine` — the nodes of segments around a name
* `Path.Segment.Readable`, `Path.Segment.Apart` — segments that an expression reads one by one

## Main results

* `Path.isNumeral_iff` — integers are digits without zeros in front
* `Path.SpelledBy.compile` — what readable segments spell is compiled to their nodes
* `Path.compile_of_path` — a path is an expression with the same structure

## Design notes

A bracket of a path takes the text up to its end for a key if it begins and ends with quotes, and a
name in it always for a variable; an expression stops at the second quote and has words of its own.
Two numbers after points would be one number with a fraction there.  The conditions on segments
leave these out.
-/

namespace Stencil.Path

open Text Stencil.Expr

/-! ### Numbers and nodes -/

/-- The digits of an integer in range, without zeros in front. -/
def IsNumeral (s : String) : Prop := ∃ n < 2 ^ 63, s.toList = Nat.toDigits 10 n

/-- The integer of some digits. -/
def numeralValue (s : String) : Int64 := Int64.ofNat (Decimal.natOfDigits s.toList)

/-- The node that a segment puts around an expression. -/
def Segment.wrap (base : Expr) : Segment → Expr
  | .dot field => .member base field
  | .index digits => .index base (.literal (.int (numeralValue digits)))
  | .quoted _ key => .index base (.literal (.str key))
  | .word w => .index base (.name w)

/-- A name in the nodes of segments, the first one innermost. An expression that is written as a
path is read as such a tree. -/
def spine (head : String) (segs : List Segment) : Expr := segs.foldl Segment.wrap (.name head)

/-- An expression reads the segment by itself as a path does. Left out are numbers that are too
large or have zeros in front, strings with a backslash or a quote of their own, and words that are
literals or operators. -/
def Segment.Readable : Segment → Prop
  | .dot field => isName field.toList = true ∨ IsNumeral field
  | .index digits => IsNumeral digits
  | .quoted quote key => quote ∉ key.toList ∧ '\\' ∉ key.toList
  | .word w => w ∉ leadingWords

/-- Whether a digit stands after the point of a segment. -/
def Segment.isPointNumber : Segment → Bool
  | .dot field => field.toList.head?.any Char.isDigit
  | _ => false

/-- Two segments in a row are not both numbers after points. An expression would read the two
numbers as one with a fraction. -/
def Segment.Apart (seg next : Segment) : Prop :=
  seg.isPointNumber = true → next.isPointNumber = false

/-- The numerals are the digits without zeros in front that are below the bound of signed integers.
-/
theorem isNumeral_iff {s : String} :
    IsNumeral s ↔ s.toList ≠ [] ∧ (∀ c ∈ s.toList, c.isDigit = true) ∧
      (s.toList.head? = some '0' → s.toList = ['0']) ∧ Decimal.natOfDigits s.toList < 2 ^ 63 := by
  constructor
  · rintro ⟨n, hn, hs⟩
    rw [hs, Decimal.natOfDigits_toDigits]
    refine ⟨Nat.toDigits_ne_nil, Decimal.isDigit_of_mem_toDigits, fun hzero => ?_, hn⟩
    rcases Nat.eq_zero_or_pos n with rfl | hpos
    · rfl
    · obtain ⟨c, cs, hcs, hc⟩ := Decimal.exists_toDigits_cons hpos
      rw [hcs] at hzero
      exact absurd (Option.some.inj hzero) hc
  · rintro ⟨hne, hdigits, hzero, hn⟩
    exact ⟨_, hn, (Decimal.toDigits_natOfDigits hne hdigits hzero).symm⟩

theorem IsNumeral.spec {s : String} (h : IsNumeral s) :
    0 ≤ (numeralValue s).toInt ∧ s.toList = Nat.toDigits 10 (numeralValue s).toInt.toNat := by
  obtain ⟨n, hn, hs⟩ := h
  have hint : (numeralValue s).toInt = n := by
    rw [numeralValue, hs, Decimal.natOfDigits_toDigits]
    exact Int64.toInt_ofNat_of_lt hn
  rw [hint]
  exact ⟨Int.natCast_nonneg n, hs⟩

theorem IsNumeral.toString {s : String} (h : IsNumeral s) :
    ToString.toString (numeralValue s).toInt = s := by
  obtain ⟨hpos, hs⟩ := h.spec
  obtain ⟨n, hn⟩ := Int.eq_ofNat_of_zero_le hpos
  rw [hn, Int.toNat_natCast] at hs
  rw [hn]
  show Nat.repr n = s
  rw [Nat.repr, ← hs, String.ofList_toList]

theorem IsNumeral.isPointNumber {s : String} (h : IsNumeral s) :
    (Segment.dot s).isPointNumber = true := by
  obtain ⟨-, hs⟩ := h.spec
  have hdigit := Decimal.isDigit_of_mem_toDigits (n := (numeralValue s).toInt.toNat)
  have hne : Nat.toDigits 10 (numeralValue s).toInt.toNat ≠ [] := Nat.toDigits_ne_nil
  rw [← hs] at hdigit hne
  obtain ⟨c, cs, hcons⟩ := List.exists_cons_of_ne_nil hne
  rw [hcons] at hdigit
  rw [Segment.isPointNumber, hcons]
  exact hdigit c List.mem_cons_self

/-! ### Tokens -/

/-- The token of what a segment holds. -/
def Segment.keyToken : Segment → Token
  | .dot field => if isName field.toList then .name field else .int (numeralValue field)
  | .index digits => .int (numeralValue digits)
  | .quoted _ key => .str key
  | .word w => .name w

/-- The tokens of a segment. -/
def Segment.tokens (seg : Segment) : List Token :=
  match seg with
  | .dot _ => [.symbol .dot, seg.keyToken]
  | _ => [.symbol .openBracket, seg.keyToken, .symbol .closeBracket]

variable {seg : Segment} {segs : List Segment} {s head : String} {core text rest post : List Char}

theorem spells_numeral (h : IsNumeral s) (hrest : Stops rest) :
    Spells (.int (numeralValue s)) s.toList rest := by
  obtain ⟨hpos, hs⟩ := h.spec
  rw [hs]
  exact spells_int hpos hrest

theorem Segment.Inside.spells (h : seg.Inside core) (hread : seg.Readable) (hrest : Stops rest) :
    Spells seg.keyToken core rest := by
  cases h with
  | index _ _ => exact spells_numeral hread hrest
  | quoted key hquote =>
      have hspells := spells_quoted hquote hread.1 hread.2 rest
      rwa [String.ofList_toList] at hspells
  | word hname => exact spells_name hname hrest.isNameChar

theorem stops_blanks (hpost : ∀ c ∈ post, isBlank c = true) (hrest : Stops rest) :
    Stops (post ++ rest) := by
  rcases post with _ | ⟨w, post⟩
  · exact hrest
  · have hw := hpost w List.mem_cons_self
    refine stops_cons (isNameChar_of_isBlank hw) ?_ ?_ _
    · rintro rfl
      exact absurd hw (by decide)
    · intro hmem
      simp only [List.mem_cons, List.not_mem_nil, or_false] at hmem
      rcases hmem with rfl | rfl | rfl
      · exact absurd hw (by decide)
      · exact absurd hw (by decide)
      · exact absurd hw (by decide)

/-- A bracket is its tokens, whatever stands after it. -/
theorem lexes_bracket {token : Token} {inner : List Char}
    (h : ∀ {rest}, Stops rest → Spells token (trim inner) rest) (rest : List Char) :
    Lexes rest ('[' :: (inner ++ [']'])) [.symbol .openBracket, token, .symbol .closeBracket] := by
  obtain ⟨pre, post, hinner, hpre, hpost⟩ := exists_trim inner
  have hopen : ∀ rest, Spells (.symbol .openBracket) ['['] rest :=
    fun _ => ⟨'[', [], rfl, rfl, fun _ => rfl⟩
  have hclose : Spells (.symbol .closeBracket) [']'] rest := ⟨']', [], rfl, rfl, fun _ => rfl⟩
  have hstops : Stops (post ++ [']'] ++ rest) := by
    rw [List.append_assoc]
    exact stops_blanks hpost (stops_symbol (s := .closeBracket) (by decide) rest)
  have hafter : Lexes rest (trim inner ++ (post ++ [']'])) [token, .symbol .closeBracket] :=
    .token (h hstops) ((Lexes.blanks hpost).append (.single hclose))
  rw [hinner, List.append_assoc, List.append_assoc]
  exact .token (hopen _) ((Lexes.blanks hpre).append hafter)

/-- A segment is its tokens in front of what does not go on with a name, and not with a fraction
where the segment is a number after a point. -/
theorem Segment.Written.lexes (h : seg.Written text) (hread : seg.Readable)
    (hrest : ∀ c ∈ rest.head?, isNameChar c = false)
    (hstops : seg.isPointNumber = true → Stops rest) : Lexes rest text seg.tokens := by
  cases h with
  | @dot field hne hchars =>
      have hpoint : ∀ rest, Spells (.symbol .dot) ['.'] rest :=
        fun _ => ⟨'.', [], rfl, rfl, fun _ => rfl⟩
      have hkey : Spells (Segment.dot field).keyToken field.toList rest := by
        by_cases hname : isName field.toList = true
        · rw [Segment.keyToken, if_pos hname]
          exact spells_name hname hrest
        · have hnumeral : IsNumeral field := hread.resolve_left hname
          rw [Segment.keyToken, if_neg hname]
          exact spells_numeral hnumeral (hstops hnumeral.isPointNumber)
      exact .token (hpoint _) (.single hkey)
  | @bracket _ inner hinside _ =>
      have hbracket := lexes_bracket (fun hrest => hinside.spells hread hrest) rest
      cases seg with
      | dot _ => exact nomatch hinside
      | _ => exact hbracket

section Segments

variable {texts : List (List Char)} (h : List.Forall₂ Segment.Written segs texts)
  (hpost : ∀ c ∈ post, isBlank c = true)

include h hpost

theorem isNameChar_of_written : ∀ c ∈ (texts.flatten ++ post).head?, isNameChar c = false := by
  intro c hc
  cases h with
  | nil => exact isNameChar_of_isBlank (hpost c (List.mem_of_mem_head? hc))
  | cons hseg _ =>
      obtain ⟨d, cs, rfl, hd, -⟩ := hseg.exists_cons
      exact Option.some.inj hc ▸ hd

theorem stops_of_written (hfirst : ∀ next ∈ segs.head?, next.isPointNumber = false) :
    Stops (texts.flatten ++ post) := by
  cases h with
  | nil =>
      have hstops := stops_blanks hpost stops_nil
      rwa [List.append_nil] at hstops
  | @cons seg text segs texts hseg _ =>
      have hnumber : seg.isPointNumber = false := hfirst seg rfl
      cases hseg with
      | @dot field hne hchars =>
          obtain ⟨d, ds, hfield⟩ := List.exists_cons_of_ne_nil hne
          rw [Segment.isPointNumber, hfield] at hnumber
          rw [List.flatten_cons, List.append_assoc, List.cons_append, hfield]
          refine ⟨fun c hc => Option.some.inj hc ▸ rfl, fun c cs hcs => ?_, fun c hc => ?_⟩
          · obtain ⟨rfl, -⟩ := List.cons.inj (List.cons.inj hcs).2
            exact hnumber
          · exact Option.some.inj hc ▸ by decide
      | bracket _ _ => exact stops_cons (by decide) (by decide) (by decide) _

/-- Segments are their tokens. -/
theorem lexes_of_written (hread : ∀ seg ∈ segs, seg.Readable)
    (hapart : segs.IsChain Segment.Apart) :
    Lexes post texts.flatten (segs.flatMap Segment.tokens) := by
  induction h with
  | nil => exact .nil
  | @cons seg text segs texts hseg hsegs ih =>
      have hothers := ih (fun seg hmem => hread seg (List.mem_cons_of_mem _ hmem)) hapart.tail
      rw [List.flatten_cons, List.flatMap_cons]
      have hstop := isNameChar_of_written hsegs hpost
      refine (hseg.lexes (hread seg List.mem_cons_self) hstop fun hnumber => ?_).append hothers
      exact stops_of_written hsegs hpost fun next hnext =>
        (List.isChain_cons.1 hapart).1 next hnext hnumber

end Segments

/-! ### Nodes -/

/-- Tokens without their positions. -/
def placed (tokens : List Token) : Tokens := tokens.map fun token => (0, token)

section Nodes

variable {inner : Parser Expr} {ts : Tokens} {e : Expr}

theorem readsWhole_token {token : Token} (hsign : prefixOp? token = none)
    (hprimary : ∀ rest, parsePrimary inner ((0, token) :: rest) = .ok (e, rest)) :
    ReadsWhole (parseChoiceWith inner) [(0, token)] e :=
  ((suffixed_token hsign hprimary).readsOperand.climbs (List.cons_ne_nil _ _) (Nat.le_refl 8)
    0).readsWhole

/-- What can be taken further by suffixes is a whole expression, too. -/
theorem ofTokens_of_suffixed (hne : ts ≠ [])
    (h : ∀ inner, Suffixed (parseChoiceWith inner) ts e) : ofTokens ts = .ok e := by
  obtain ⟨n, hn⟩ : ∃ n, ts.length = n + 1 :=
    Nat.exists_eq_succ_of_ne_zero (List.length_eq_zero_iff.not.2 hne)
  have hread := (((h (parseChoice n)).readsOperand.climbs hne (Nat.le_refl 8) 0).readsWhole) []
    ends_nil
  rw [List.append_nil] at hread
  unfold ofTokens
  rw [if_neg (by simpa using hne), hn]
  show ((parseChoiceWith (parseChoiceWith (parseChoice n)) ts) >>= _) = _
  rw [hread]
  rfl

/-- The tokens of a segment after those of an expression are its node around the expression. -/
theorem Segment.Readable.suffixed (hread : seg.Readable)
    (h : Suffixed (parseChoiceWith inner) ts e) :
    Suffixed (parseChoiceWith inner) (ts ++ placed seg.tokens) (seg.wrap e) := by
  cases seg with
  | dot field =>
      refine h.memberToken fun rest => ?_
      by_cases hname : isName field.toList = true
      · rw [Segment.keyToken, if_pos hname]
        rfl
      · have hnumeral : IsNumeral field := hread.resolve_left hname
        rw [Segment.keyToken, if_neg hname, parseMemberName, hnumeral.toString]
  | index digits => exact h.index (readsWhole_token rfl fun _ => rfl)
  | quoted quote key => exact h.index (readsWhole_token rfl fun _ => rfl)
  | word w =>
      refine h.index (readsWhole_token (prefixOp?_name (ne_not_of_leadingWords hread)) fun _ => ?_)
      rw [parsePrimary, nameExpr_of_leadingWords hread]

theorem suffixed_segments (hread : ∀ seg ∈ segs, seg.Readable)
    (h : Suffixed (parseChoiceWith inner) ts e) :
    Suffixed (parseChoiceWith inner) (ts ++ placed (segs.flatMap Segment.tokens))
      (segs.foldl Segment.wrap e) := by
  induction segs generalizing ts e with
  | nil => rwa [List.flatMap_nil, placed, List.map_nil, List.append_nil]
  | cons seg segs ih =>
      have hfirst := (hread seg List.mem_cons_self).suffixed h
      rw [List.flatMap_cons, placed, List.map_append, ← List.append_assoc]
      exact ih (fun seg hmem => hread seg (List.mem_cons_of_mem _ hmem)) hfirst

end Nodes

/-! ### Paths -/

/-- What a name and readable segments spell is compiled to their nodes. The name is not a reserved
word, for then it would be read as a literal or an operator. -/
theorem SpelledBy.compile (h : SpelledBy s head segs) (hhead : head ∉ leadingWords)
    (hread : ∀ seg ∈ segs, seg.Readable) (hapart : segs.IsChain Segment.Apart) :
    Program.compile s = .ok ⟨s, spine head segs⟩ := by
  obtain ⟨hname, texts, hsegs, htext⟩ := h
  obtain ⟨pre, post, hs, hpre, hpost⟩ := exists_trim s.toList
  -- The tokens of the text are those of the name and of its segments.
  have hlexes : Lexes [] s.toList (.name head :: segs.flatMap Segment.tokens) := by
    have hstop := isNameChar_of_written hsegs hpost
    have hrest := lexes_of_written hsegs hpost hread hapart
    rw [hs, htext, List.append_assoc, List.append_assoc]
    refine (Lexes.blanks hpre).append (.token ?_ ?_)
    · rw [List.append_nil]
      exact spells_name hname hstop
    · rw [← List.append_nil (segs.flatMap Segment.tokens)]
      refine Lexes.append ?_ (Lexes.blanks hpost)
      rwa [List.append_nil]
  obtain ⟨ts, hts, hsame⟩ := hlexes.tokenizeFrom (Nat.le_refl _) 0
  -- The name is an operand, and each segment one of its suffixes.
  have hhead' : ∀ inner, Suffixed (parseChoiceWith inner) [(0, .name head)] (.name head) := by
    intro inner
    refine suffixed_token (prefixOp?_name (ne_not_of_leadingWords hhead)) fun _ => ?_
    rw [parsePrimary, nameExpr_of_leadingWords hhead]
  have hread' : ofTokens ((0, .name head) :: placed (segs.flatMap Segment.tokens)) =
      .ok (spine head segs) :=
    ofTokens_of_suffixed (List.cons_ne_nil _ _) fun inner => suffixed_segments hread (hhead' inner)
  -- The positions are those of the text, and they do not matter.
  have hmoved : Moved ((0, .name head) :: placed (segs.flatMap Segment.tokens)) ts := by
    apply moved_of_map_eq
    rw [hsame, placed, List.map_cons, List.map_map]
    exact congrArg _ (List.map_id _)
  have hparse : Expr.parse s = .ok (spine head segs) := by
    rw [Expr.parse, tokenize, hts]
    exact ofTokens_of_moved hmoved hread'
  rw [Program.compile, hparse]
  rfl

/-- Every path is an expression with the same structure: it is spelled by segments with its steps,
and if an expression reads these one by one, the text is compiled to the name at its head in a node
for each of them. -/
theorem compile_of_path {s : String} {path : Path} (hpath : Path.parse? s = some path)
    (hhead : path.head ∉ leadingWords) :
    (∃ segs, SpelledBy s path.head segs) ∧ ∀ segs, SpelledBy s path.head segs →
      segs.map Segment.step = path.steps ∧
        ((∀ seg ∈ segs, seg.Readable) → segs.IsChain Segment.Apart →
          Program.compile s = .ok ⟨s, spine path.head segs⟩) := by
  constructor
  · obtain ⟨segs, hsegs, -⟩ := parse?_eq_some_iff.1 hpath
    exact ⟨segs, hsegs⟩
  · intro segs hsegs
    refine ⟨?_, hsegs.compile hhead⟩
    have hsame : ⟨path.head, segs.map Segment.step⟩ = path :=
      Option.some.inj (hsegs.parse?.symm.trans hpath)
    exact congrArg Path.steps hsame

/-- All forms of segments, with blanks where there can be some. -/
theorem compile_of_path_forms :
    Path.parse? " a.b[ 0 ]['k\"'].1[i]" =
        some ⟨"a", [.key "b", .key "0", .key "k\"", .key "1", .variable "i"]⟩ ∧
      "a" ∉ leadingWords ∧
      Program.compile " a.b[ 0 ]['k\"'].1[i]" = .ok ⟨" a.b[ 0 ]['k\"'].1[i]",
        .index (.member (.index (.index (.member (.name "a") "b") (.literal (.int 0)))
          (.literal (.str "k\""))) "1") (.name "i")⟩ := by
  have hpath : Path.parse? " a.b[ 0 ]['k\"'].1[i]" =
      some ⟨"a", [.key "b", .key "0", .key "k\"", .key "1", .variable "i"]⟩ := by cbv
  have hhead : "a" ∉ leadingWords := by decide
  have hindex : (Segment.index "0").Written ('[' :: ([' ', '0', ' '] ++ [']'])) :=
    .bracket (.index (by decide) (List.all_eq_true.1 rfl)) (by decide)
  have hquoted : (Segment.quoted '\'' "k\"").Written ('[' :: (['\'', 'k', '"', '\''] ++ [']'])) :=
    .bracket (.quoted "k\"" rfl) (by decide)
  have hword : (Segment.word "i").Written ('[' :: (['i'] ++ [']'])) :=
    .bracket (.word rfl) (by decide)
  have hspelled : SpelledBy " a.b[ 0 ]['k\"'].1[i]" "a"
      [.dot "b", .index "0", .quoted '\'' "k\"", .dot "1", .word "i"] := by
    refine ⟨rfl, [['.', 'b'], ['[', ' ', '0', ' ', ']'], ['[', '\'', 'k', '"', '\'', ']'],
      ['.', '1'], ['[', 'i', ']']], ?_, by cbv⟩
    exact .cons (.dot (by decide) (List.all_eq_true.1 rfl)) (.cons hindex (.cons hquoted
      (.cons (.dot (by decide) (List.all_eq_true.1 rfl)) (.cons hword .nil))))
  have hzero : IsNumeral "0" := ⟨0, by decide, rfl⟩
  have hone : IsNumeral "1" := ⟨1, by decide, rfl⟩
  refine ⟨hpath, hhead, ((compile_of_path hpath hhead).2 _ hspelled).2 ?_ ?_⟩
  · simp only [List.forall_mem_cons, List.not_mem_nil, false_implies, implies_true, and_true]
    exact ⟨.inl rfl, hzero, ⟨by decide, by decide⟩, .inr hone, show "i" ∉ leadingWords by decide⟩
  · exact .cons_cons (fun _ => rfl) (.cons_cons (fun _ => rfl) (.cons_cons
      (fun h => absurd h Bool.false_ne_true) (.cons_cons (fun _ => rfl) (.singleton _))))

/-- A number after a point goes on with a second one as its fraction. -/
theorem compile_numbers : (Program.compile "a.0.1").toOption = none := by
  have hnumber : ∀ position, takeToken position '0' ['.', '1'] =
      .ok (.float (floatOfText ['0', '.', '1']), []) := fun _ => rfl
  have htokens : tokenize "a.0.1" =
      .ok [(0, .name "a"), (1, .symbol .dot), (2, .float (floatOfText ['0', '.', '1']))] := by
    have hlast : tokenizeFrom 3 2 ['0', '.', '1'] =
        .ok [(2, .float (floatOfText ['0', '.', '1']))] :=
      (tokenizeFrom_cons rfl).2 ⟨_, [], [], hnumber 2, rfl, rfl⟩
    have hrest : tokenizeFrom 4 1 ['.', '0', '.', '1'] =
        .ok [(1, .symbol .dot), (2, .float (floatOfText ['0', '.', '1']))] :=
      (tokenizeFrom_cons rfl).2 ⟨.symbol .dot, ['0', '.', '1'], _, rfl, hlast, rfl⟩
    exact (tokenizeFrom_cons rfl).2 ⟨.name "a", ['.', '0', '.', '1'], _, rfl, hrest, rfl⟩
  rw [Program.compile, Expr.parse, htokens]
  -- Which float it is does not matter, since none names a member.
  generalize floatOfText ['0', '.', '1'] = x
  rfl

/-- Texts that are paths, but no expressions or other ones: numbers after points in a row, a number
that goes on with a letter, two strings in one bracket, and a word that is a literal. -/
theorem not_compile_of_path :
    (Path.parse? "a.0.1" = some ⟨"a", [.key "0", .key "1"]⟩ ∧
        (Program.compile "a.0.1").toOption = none) ∧
      (Path.parse? "a.1x" = some ⟨"a", [.key "1x"]⟩ ∧
        (Program.compile "a.1x").toOption = none) ∧
      (Path.parse? "a['b' + 'c']" = some ⟨"a", [.key "b' + 'c"]⟩ ∧
        Program.compile "a['b' + 'c']" = .ok ⟨"a['b' + 'c']",
          .index (.name "a") (.binary .add (.literal (.str "b")) (.literal (.str "c")))⟩) ∧
      Path.parse? "a[true]" = some ⟨"a", [.variable "true"]⟩ ∧
        Program.compile "a[true]" =
          .ok ⟨"a[true]", .index (.name "a") (.literal (.bool true))⟩ := by
  refine ⟨⟨?_, compile_numbers⟩, ⟨?_, ?_⟩, ⟨?_, ?_⟩, ?_, ?_⟩
  · cbv
  · cbv
  · cbv
  · cbv
  · cbv
  · cbv
  · cbv

end Stencil.Path
