import Stencil.Proofs.Expr.Depth
import Stencil.Proofs.Pipe.Scan

/-!
# The course of a scan

Where a scan for separators stands after a text, character by character.

## Main definitions

* `Place`, `Place.run` — where a scan stands, and where it comes to
* `Clear` — text in which a scan meets no separator at its top level

## Main results

* `splitFrom_of_clear` — such a text is one piece
* `run_of_parse` — an expression leaves a scan where it was, and within brackets is read over
* `not_parse_of_clear` — what follows a separator that a scan never meets is no expression
* `quote_run_ne` — two scans of a text never agree on the quotes if they did not at its start

## Design notes

A scan that begins within a string takes its closing quote for an opening one, and goes wrong from
there on.  What carries the proof is that each character permutes the quotes that a scan can stand
in, so that two scans which stand in different ones are never in the same again.
-/

namespace Stencil.Pipe

open Text Stencil.Expr

/-- Where a scan stands, and whether a backslash stands before it. Two scans at the same place go on
in the same way, whatever came before. -/
structure Place where
  nesting : Nesting
  escaped : Bool

namespace Place

/-- Outside of quotes, at a depth. -/
def outside (depth : Int) : Place := ⟨⟨depth, none⟩, false⟩

/-- Where a scan stands after a character. -/
def step (p : Place) (c : Char) : Place :=
  if p.escaped then { p with escaped := false }
  else if c = '\\' ∧ p.nesting.quote.isSome = true then { p with escaped := true }
  else ⟨p.nesting.after c, false⟩

/-- Where a scan stands after a text. -/
def run (p : Place) (cs : List Char) : Place := cs.foldl step p

/-- Strings are in quotes, and only they have escapes. -/
structure Valid (p : Place) : Prop where
  isQuote : ∀ q ∈ p.nesting.quote, Text.isQuote q = true
  quoted : p.escaped = true → p.nesting.quote.isSome = true

end Place

/-- A scan meets neither a separator at its top level nor a backslash outside of quotes. Text that
is clear is a single piece for the scan. -/
def Clear (sep : Char) : Place → List Char → Prop
  | _, [] => True
  | p, c :: cs => (p.nesting.isTop = true → c ≠ sep) ∧
      (c = '\\' → p.nesting.quote.isSome = true) ∧ Clear sep (p.step c) cs

section Course

variable {sep : Char} {p p' : Place} {cs cs' : List Char} {d : Int}

/-- A scan of nothing stays where it is. -/
@[simp] theorem run_nil (p : Place) : p.run [] = p := rfl

/-- A scan goes on from where its first step leads. -/
@[simp] theorem run_cons (p : Place) (c : Char) (cs : List Char) :
    p.run (c :: cs) = (p.step c).run cs := rfl

/-- Two texts are scanned one after the other. -/
theorem run_append (p : Place) (cs cs' : List Char) : p.run (cs ++ cs') = (p.run cs).run cs' :=
  List.foldl_append

/-- A scan is clear over two texts if it is over each, the second from where the first one ends. -/
theorem clear_append : Clear sep p (cs ++ cs') ↔ Clear sep p cs ∧ Clear sep (p.run cs) cs' := by
  induction cs generalizing p with
  | nil => exact (and_iff_right trivial).symm
  | cons c cs ih => simp only [List.cons_append, Clear, run_cons, ih, and_assoc]

/-- Where nothing is escaped, a step does what the nesting does. -/
theorem step_unescaped {n : Nesting} {c : Char} (h : c = '\\' → n.quote = none) :
    Place.step ⟨n, false⟩ c = ⟨n.after c, false⟩ := by
  have hescape : ¬ (c = '\\' ∧ n.quote.isSome = true) := by
    rintro ⟨hc, hquote⟩
    rw [h hc] at hquote
    exact Bool.noConfusion hquote
  simp only [Place.step, Bool.false_eq_true, if_false, if_neg hescape]

/-- A text without separators at its top level is one piece. It may begin within brackets or quotes,
which is where the recursion stands on the way. -/
theorem splitFrom_of_clear {n : Nesting} (h : Clear sep ⟨n, false⟩ cs) :
    splitFrom sep n cs = [cs] := by
  have hnone : ∀ {n : Nesting} {c : Char} {cs : List Char}, Clear sep ⟨n, false⟩ (c :: cs) →
      ¬ (n.isTop && c == sep) = true := by
    intro n c cs h hsep
    rw [Bool.and_eq_true, beq_iff_eq] at hsep
    exact h.1 hsep.1 hsep.2
  fun_induction splitFrom sep n cs with
  | case1 => rfl
  | case2 n c hsep => exact absurd hsep (hnone h)
  | case3 => rfl
  | case4 n c d cs hescape ih =>
      rw [Bool.and_eq_true, beq_iff_eq] at hescape
      have hbackslash : Place.step ⟨n, false⟩ c = ⟨n, true⟩ := by
        simp only [Place.step, Bool.false_eq_true, if_false, if_pos hescape]
      have hnext := h.2.2
      rw [hbackslash] at hnext
      rw [ih hnext.2.2]
      rfl
  | case5 n c d cs _ hsep => exact absurd hsep (hnone h)
  | case6 n c d cs _ hsep => exact absurd hsep (hnone h)
  | case7 n c d cs hescape _ ih =>
      have hstep : Place.step ⟨n, false⟩ c = ⟨n.after c, false⟩ := by
        refine step_unescaped fun hc => ?_
        rw [hc, beq_self_eq_true, Bool.true_and] at hescape
        exact Option.not_isSome_iff_eq_none.1 hescape
      have hnext := h.2.2
      rw [hstep] at hnext
      rw [ih hnext]
      rfl

/-! ### Quotes -/

/-- The quotes after a character. -/
def quoteAfter (quote : Option Char) (c : Char) : Option Char :=
  match quote with
  | some q => if c = q then none else some q
  | none => if isQuote c then some c else none

/-- The quotes after a character depend on the quotes before it alone, not on the depth. -/
theorem quote_after (n : Nesting) (c : Char) : (n.after c).quote = quoteAfter n.quote c := by
  obtain ⟨depth, quote⟩ := n
  rcases quote with _ | q
  · simp only [Nesting.after, quoteAfter]
    split
    · rfl
    split
    · rfl
    split
    · rfl
    · rfl
  · simp only [Nesting.after, quoteAfter, beq_iff_eq]
    split
    · rfl
    · rfl

/-- What a string is closed by stays a quote. -/
theorem isQuote_quoteAfter {quote : Option Char} (h : ∀ q ∈ quote, isQuote q = true) (c : Char) :
    ∀ q ∈ quoteAfter quote c, isQuote q = true := by
  intro q hq
  unfold quoteAfter at hq
  split at hq
  · split at hq
    · exact nomatch hq
    · exact h q hq
  · split at hq
    · rename_i hc
      exact Option.some.inj hq ▸ hc
    · exact nomatch hq

/-- A character permutes the quotes that a scan can stand in. So scans that begin in different
quotes never come to agree. -/
theorem quoteAfter_ne {quote quote' : Option Char} (hq : ∀ q ∈ quote, isQuote q = true)
    (hq' : ∀ q ∈ quote', isQuote q = true) (h : quote ≠ quote') (c : Char) :
    quoteAfter quote c ≠ quoteAfter quote' c := by
  -- Of a string and the text outside of strings, the first is left where the other begins one.
  have hmixed : ∀ q, isQuote q = true → quoteAfter (some q) c ≠ quoteAfter none c := by
    intro q hq
    by_cases hc : c = q
    · simp [quoteAfter, hc, hq]
    · by_cases hquote : isQuote c = true
      · simp [quoteAfter, hc, hquote, Ne.symm hc]
      · simp [quoteAfter, hc, hquote]
  rcases quote with _ | q
  · rcases quote' with _ | q'
    · exact absurd rfl h
    · exact (hmixed q' (hq' q' rfl)).symm
  · rcases quote' with _ | q'
    · exact hmixed q (hq q rfl)
    · have hne : q ≠ q' := fun he => h (congrArg some he)
      by_cases hc : c = q
      · simp [quoteAfter, hc, hne]
      · by_cases hc' : c = q'
        · simp [quoteAfter, hc', Ne.symm hne]
        · simp [quoteAfter, hc, hc', hne]

/-- A step from a valid place leads to a valid one. -/
theorem Place.Valid.step (h : p.Valid) (c : Char) : (p.step c).Valid := by
  unfold Place.step
  split
  · exact ⟨h.isQuote, fun he => Bool.noConfusion he⟩
  split
  · rename_i hescape
    exact ⟨h.isQuote, fun _ => hescape.2⟩
  · refine ⟨?_, fun he => Bool.noConfusion he⟩
    rw [quote_after]
    exact isQuote_quoteAfter h.isQuote c

/-- So does a scan. -/
theorem Place.Valid.run (h : p.Valid) (cs : List Char) : (p.run cs).Valid := by
  induction cs generalizing p with
  | nil => exact h
  | cons c cs ih => exact ih (h.step c)

/-- Outside of quotes a place is valid at every depth. -/
theorem valid_outside (d : Int) : (Place.outside d).Valid :=
  ⟨fun _ hq => (nomatch hq), fun he => Bool.noConfusion he⟩

/-- Two scans that stand in different quotes do so after a character that is no escape for one of
them alone. -/
theorem quote_step_ne {c : Char} (hp : p.Valid) (hp' : p'.Valid)
    (hescaped : p.escaped = p'.escaped) (hquote : p.nesting.quote ≠ p'.nesting.quote)
    (h : c = '\\' → p.nesting.quote.isSome = true)
    (h' : c = '\\' → p'.nesting.quote.isSome = true) :
    (p.step c).escaped = (p'.step c).escaped ∧
      (p.step c).nesting.quote ≠ (p'.step c).nesting.quote := by
  unfold Place.step
  rw [← hescaped]
  split
  · exact ⟨rfl, hquote⟩
  by_cases hc : c = '\\'
  · rw [if_pos ⟨hc, h hc⟩, if_pos ⟨hc, h' hc⟩]
    exact ⟨rfl, hquote⟩
  · rw [if_neg fun he => hc he.1, if_neg fun he => hc he.1]
    refine ⟨rfl, ?_⟩
    rw [quote_after, quote_after]
    exact quoteAfter_ne hp.isQuote hp'.isQuote hquote c

/-- Two scans of a text never agree on the quotes if they did not at its start. So a scan that has
taken the inside of a string for its outside does not get right again. -/
theorem quote_run_ne {sep' : Char} (hp : p.Valid) (hp' : p'.Valid)
    (hescaped : p.escaped = p'.escaped) (hquote : p.nesting.quote ≠ p'.nesting.quote)
    (h : Clear sep p cs) (h' : Clear sep' p' cs) :
    (p.run cs).nesting.quote ≠ (p'.run cs).nesting.quote := by
  induction cs generalizing p p' with
  | nil => exact hquote
  | cons c cs ih =>
      obtain ⟨hescaped, hquote⟩ := quote_step_ne hp hp' hescaped hquote h.2.1 h'.2.1
      exact ih (hp.step c) (hp'.step c) hescaped hquote h.2.2 h'.2.2

/-! ### Expressions -/

/-- A character that means nothing to a scan: it is no bracket, no quote and no backslash. -/
def isInert (c : Char) : Bool := !isQuote c && !opens c && !closes c && c != '\\'

/-- An inert character outside of quotes leaves the place as it is. -/
theorem step_inert {c : Char} (hc : isInert c = true) (d : Int) :
    (Place.outside d).step c = .outside d := by
  simp only [isInert, Bool.and_eq_true, Bool.not_eq_true', bne_iff_ne] at hc
  rw [Place.outside, step_unescaped fun _ => rfl, after_ordinary hc.1.1.1 hc.1.1.2 hc.1.2]

/-- So does a text of inert characters. -/
theorem run_inert (h : ∀ c ∈ cs, isInert c = true) (d : Int) :
    (Place.outside d).run cs = .outside d := by
  induction cs with
  | nil => rfl
  | cons c cs ih =>
      rw [run_cons, step_inert (h c List.mem_cons_self)]
      exact ih fun e he => h e (List.mem_cons_of_mem c he)

/-- Outside of quotes, only depth zero is the top level. -/
theorem eq_zero_of_isTop (h : (Place.outside d).nesting.isTop = true) : d = 0 := by
  simpa [Place.outside, Nesting.isTop] using h

/-- Below the top level a text of inert characters is clear, even if the separator is among them. -/
theorem clear_inert (h : ∀ c ∈ cs, isInert c = true) (hd : d ≠ 0) :
    Clear sep (.outside d) cs := by
  induction cs with
  | nil => trivial
  | cons c cs ih =>
      have hc := h c List.mem_cons_self
      refine ⟨fun htop => absurd (eq_zero_of_isTop htop) hd, ?_, ?_⟩
      · rintro rfl
        exact absurd hc (by decide)
      · rw [step_inert hc]
        exact ih fun e he => h e (List.mem_cons_of_mem c he)

/-- Within quotes a scan goes on to the quote that ends the string. It steps over what a backslash
escapes, as the reader of strings does. -/
theorem run_string (sep : Char) {q : Char} {body content : List Char}
    (h : StringBody q body content) (d : Int) :
    Place.run ⟨⟨d, some q⟩, false⟩ body = .outside d ∧ Clear sep ⟨⟨d, some q⟩, false⟩ body := by
  have hquoted : ¬ Nesting.isTop ⟨d, some q⟩ = true := fun htop =>
    Bool.noConfusion ((Bool.and_false _).symm.trans htop)
  induction h with
  | closing hq =>
      have hstep : Place.step ⟨⟨d, some q⟩, false⟩ q = .outside d := by
        rw [step_unescaped fun he => absurd he hq, after_unquoting]
        rfl
      exact ⟨hstep, fun htop => absurd htop hquoted, fun _ => rfl, trivial⟩
  | escaped c _ ih =>
      obtain ⟨hrun, hclear⟩ := ih
      exact ⟨hrun, fun htop => absurd htop hquoted, fun _ => rfl,
        fun htop => absurd htop hquoted, fun _ => rfl, hclear⟩
  | @plain c body content hbackslash hc _ ih =>
      obtain ⟨hrun, hclear⟩ := ih
      have hstep : Place.step ⟨⟨d, some q⟩, false⟩ c = ⟨⟨d, some q⟩, false⟩ := by
        rw [step_unescaped fun he => absurd he hbackslash, after_quoted hc]
      refine ⟨?_, fun htop => absurd htop hquoted, fun _ => rfl, ?_⟩
      · rw [run_cons, hstep, hrun]
      · rwa [hstep]

/-- The symbols of the lexer that are brackets are single characters, and the splitter knows the
same ones; all other symbols are inert. This is what makes the two agree on depths. -/
theorem spellings_brackets : ∀ entry ∈ Symbol.spellings,
    (entry.1.all isInert = true ∧ (Token.symbol entry.2).weight = 0) ∨
      (entry.1.length = 1 ∧ entry.1.all opens = true ∧ (Token.symbol entry.2).weight = 1) ∨
      (entry.1.length = 1 ∧ entry.1.all closes = true ∧ (Token.symbol entry.2).weight = -1) := by
  decide

/-- A character of words is inert. -/
theorem isInert_of_isWordChar {c : Char} (h : isWordChar c = true) : isInert c = true := by
  have hne : ∀ {d : Char}, isWordChar d = false → (c == d) = false := fun hd =>
    beq_eq_false_iff_ne.2 (ne_of_isWordChar h hd)
  have hbackslash : (c != '\\') = true := bne_iff_ne.2 (ne_of_isWordChar h rfl)
  simp only [isInert, isQuote_of_isWordChar h, opens, closes, hne (d := '(') rfl,
    hne (d := '[') rfl, hne (d := '\x7b') rfl, hne (d := ')') rfl, hne (d := ']') rfl,
    hne (d := '\x7d') rfl, hbackslash]
  rfl

/-- A blank is inert. -/
theorem isInert_of_isBlank {c : Char} (h : isBlank c = true) : isInert c = true := by
  have hopens : opens c = false :=
    eq_false_of_isBlank h fun _ hopens => (classes_of_opens hopens).1
  have hcloses : closes c = false :=
    eq_false_of_isBlank h fun _ hcloses => (classes_of_closes hcloses).1
  have hbackslash : (c != '\\') = true := by
    rw [bne_iff_ne]
    rintro rfl
    exact absurd h (by decide)
  simp only [isInert, isQuote_of_isBlank h, hopens, hcloses, hbackslash]
  rfl

/-- Names and numbers do not change the depth. -/
theorem weight_of_isWord {token : Token} (h : token.isWord = true) : token.weight = 0 := by
  cases token with
  | str _ => exact Bool.noConfusion h
  | symbol _ => exact Bool.noConfusion h
  | _ => rfl

/-- An opening bracket leads one level deeper. -/
theorem step_opening {c : Char} (hc : opens c = true) (d : Int) :
    (Place.outside d).step c = .outside (d + 1) := by
  rw [Place.outside, step_unescaped fun _ => rfl, after_opening hc]
  rfl

/-- A closing bracket leads one level up, below the top level too: the depth may be negative. -/
theorem step_closing {c : Char} (hc : closes c = true) (d : Int) :
    (Place.outside d).step c = .outside (d - 1) := by
  have hafter := after_closing hc (d - 1)
  rw [Int.sub_add_cancel] at hafter
  rw [Place.outside, step_unescaped fun _ => rfl, hafter]
  rfl

/-- Away from the top level nothing but a backslash is met. -/
theorem clear_singleton {c : Char} (hc : c ≠ '\\') (hd : d ≠ 0) : Clear sep (.outside d) [c] :=
  ⟨fun htop => absurd (eq_zero_of_isTop htop) hd, fun he => absurd he hc, trivial⟩

/-- A lexeme moves a scan by the weight of its token: up by one for an opening bracket, down by one
for a closing one, and not at all for any other. -/
theorem run_lexeme (sep : Char) {token : Token} {word : List Char} (h : Lexeme token word)
    (d : Int) :
    (Place.outside d).run word = .outside (d + token.weight) ∧
      (0 < d → Clear sep (.outside d) word) := by
  cases h with
  | word htoken _ hchars =>
      have hinert : ∀ c ∈ word, isInert c = true := fun c hc => isInert_of_isWordChar (hchars c hc)
      rw [weight_of_isWord htoken, Int.add_zero, run_inert hinert]
      exact ⟨rfl, fun hd => clear_inert hinert (Int.ne_of_gt hd)⟩
  | @symbol s word hmem =>
      rcases spellings_brackets _ hmem with ⟨hall, hweight⟩ | ⟨hone, hall, hweight⟩ |
        ⟨hone, hall, hweight⟩
      -- A symbol that is no bracket, an opening bracket, and a closing one.
      · have hinert := List.all_eq_true.1 hall
        dsimp only at hweight
        rw [hweight, Int.add_zero, run_inert hinert]
        exact ⟨rfl, fun hd => clear_inert hinert (Int.ne_of_gt hd)⟩
      · obtain ⟨c, rfl⟩ := List.length_eq_one_iff.1 hone
        have hc : opens c = true := List.all_eq_true.1 hall c List.mem_cons_self
        dsimp only at hweight
        rw [hweight, run_cons, step_opening hc]
        refine ⟨rfl, fun hd => clear_singleton ?_ (Int.ne_of_gt hd)⟩
        rintro rfl
        exact absurd hc (by decide)
      · obtain ⟨c, rfl⟩ := List.length_eq_one_iff.1 hone
        have hc : closes c = true := List.all_eq_true.1 hall c List.mem_cons_self
        dsimp only at hweight
        rw [hweight, run_cons, step_closing hc]
        refine ⟨rfl, fun hd => clear_singleton ?_ (Int.ne_of_gt hd)⟩
        rintro rfl
        exact absurd hc (by decide)
  | @string q body content hq hbody =>
      -- Within the string the scan meets nothing, and its quote leads out of it again.
      have hstep : (Place.outside d).step q = ⟨⟨d, some q⟩, false⟩ := by
        rw [Place.outside, step_unescaped fun _ => rfl, after_quoting hq]
      obtain ⟨hrun, hclear⟩ := run_string sep hbody d
      rw [run_cons, hstep, hrun]
      refine ⟨?_, fun hd => ⟨fun htop => ?_, fun he => ?_, ?_⟩⟩
      · exact congrArg Place.outside (Int.add_zero d).symm
      · exact absurd (eq_zero_of_isTop htop) (Int.ne_of_gt hd)
      · rw [he] at hq
        exact absurd hq (by decide)
      · rwa [hstep]

/-- The tokens of a text move a scan by their depth. Where they stay above some depth, the scan
meets no separator at its top level. -/
theorem run_lexes (sep : Char) {rest : List Char} {tokens : List Token}
    (h : Lexes rest cs tokens) (d : Int) :
    (Place.outside d).run cs = .outside (d + depth tokens) ∧
      (Stays (d - 1) tokens → Clear sep (.outside d) cs) := by
  induction h generalizing d with
  | nil => exact ⟨by simp, fun _ => trivial⟩
  | @blank c cs tokens hc _ ih =>
      have hinert := isInert_of_isBlank hc
      obtain ⟨hrun, hclear⟩ := ih d
      rw [run_cons, step_inert hinert]
      refine ⟨hrun, fun hstays => ⟨fun htop => ?_, ?_, ?_⟩⟩
      · have hd := hstays.nonneg
        rw [eq_zero_of_isTop htop] at hd
        exact absurd hd (by decide)
      · rintro rfl
        exact absurd hinert (by decide)
      · rw [step_inert hinert]
        exact hclear hstays
  | @token token text cs tokens hspells _ ih =>
      obtain ⟨hword, hwordClear⟩ := run_lexeme sep hspells.lexeme d
      obtain ⟨hrun, hclear⟩ := ih (d + token.weight)
      rw [run_append, hword, hrun, depth_cons, Int.add_assoc]
      refine ⟨rfl, fun hstays => clear_append.2 ⟨hwordClear ?_, ?_⟩⟩
      · have hd := hstays.nonneg
        omega
      · rw [hword]
        refine hclear ?_
        have hnext := hstays.2
        rwa [show d + token.weight - 1 = d - 1 + token.weight by omega]

/-- An expression leaves a scan where it was, and between brackets it is read over. The scan knows
brackets and strings only, so it goes along with the tokens and not with the grammar. -/
theorem run_of_parse (sep : Char) {s : String} {e : Expr} (h : Expr.parse s = .ok e) (d : Int) :
    (Place.outside d).run s.toList = .outside d ∧
      (0 < d → Clear sep (.outside d) s.toList) := by
  obtain ⟨ts, hts, -, hderives⟩ := derives_of_parse h
  have hbalanced := hderives.nested.balanced
  obtain ⟨hrun, hclear⟩ := run_lexes sep (lexes_of_tokenize hts) d
  refine ⟨?_, fun hd => hclear (hbalanced.stays.mono (by omega))⟩
  rw [hrun, hbalanced.depth_eq, Int.add_zero]

/-! ### What stands after a separator -/

/-- Blanks leave the place as it is. -/
theorem run_blanks (h : ∀ c ∈ cs, isBlank c = true) (d : Int) :
    (Place.outside d).run cs = .outside d :=
  run_inert (fun c hc => isInert_of_isBlank (h c hc)) d

/-- Blanks below the top level are clear. -/
theorem clear_blanks (h : ∀ c ∈ cs, isBlank c = true) (hd : d ≠ 0) : Clear sep (.outside d) cs :=
  clear_inert (fun c hc => isInert_of_isBlank (h c hc)) hd

/-- Where a text ends where it began and no separator is at its top level, what follows a separator
is no expression. -/
theorem not_parse_of_clear (hsep : isInert sep = true) {before after : List Char}
    (hclear : Clear sep (.outside 0) (before ++ sep :: after))
    (hrun : (Place.outside 0).run (before ++ sep :: after) = .outside 0) (e : Expr) :
    Expr.parse (String.ofList (trim after)) ≠ .ok e := by
  intro hparse
  obtain ⟨hbefore, htop, -, hafter⟩ := clear_append.1 hclear
  rw [run_append, run_cons] at hrun
  have hvalid := (valid_outside 0).run before
  generalize (Place.outside 0).run before = p at hrun hvalid htop hafter
  -- An expression would leave the scan at the depth and in the quotes that it is in.
  have hwhole : ∀ d, (Place.outside d).run after = .outside d ∧
      (0 < d → Clear sep (.outside d) after) := by
    intro d
    obtain ⟨pre, post, htext, hpre, hpost⟩ := exists_trim after
    obtain ⟨hsource, hsourceClear⟩ := run_of_parse sep hparse d
    rw [String.toList_ofList] at hsource hsourceClear
    rw [htext, run_append, run_append, run_blanks hpre, hsource, run_blanks hpost]
    refine ⟨rfl, fun hd => ?_⟩
    have hne := Int.ne_of_gt hd
    refine clear_append.2 ⟨clear_append.2 ⟨clear_blanks hpre hne, ?_⟩, ?_⟩
    · rw [run_blanks hpre]
      exact hsourceClear hd
    · rw [run_append, run_blanks hpre, hsource]
      exact clear_blanks hpost hne
  obtain ⟨⟨d, quote⟩, escaped⟩ := p
  rcases quote with _ | q
  · have hunescaped : escaped = false :=
      Bool.eq_false_iff.2 fun he => Bool.noConfusion (hvalid.quoted he)
    subst hunescaped
    have hstep : Place.step ⟨⟨d, none⟩, false⟩ sep = .outside d := step_inert hsep d
    rw [hstep, (hwhole d).1] at hrun
    obtain rfl : d = 0 := congrArg (fun p => p.nesting.depth) hrun
    exact htop rfl rfl
  · -- After the separator the scan is still in its string, where an expression would begin outside.
    have hne : sep ≠ q := by
      rintro rfl
      have hquote : isQuote sep = true := hvalid.isQuote sep rfl
      rw [isInert, hquote] at hsep
      exact Bool.noConfusion hsep
    have hstep : Place.step ⟨⟨d, some q⟩, escaped⟩ sep = ⟨⟨d, some q⟩, false⟩ := by
      cases escaped with
      | true => rfl
      | false =>
          rw [step_unescaped, after_quoted hne]
          rintro rfl
          exact absurd hsep (by decide)
    rw [hstep] at hrun hafter
    have hinside : Place.Valid ⟨⟨d, some q⟩, false⟩ :=
      ⟨hvalid.isQuote, fun he => Bool.noConfusion he⟩
    have hdiffer := quote_run_ne hinside (valid_outside 1) rfl (nofun) hafter
      ((hwhole 1).2 (by decide))
    rw [hrun, (hwhole 1).1] at hdiffer
    exact hdiffer rfl

end Course

end Stencil.Pipe
