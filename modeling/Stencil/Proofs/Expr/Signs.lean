import Stencil.Proofs.Decimal
import Stencil.Proofs.Expr.Equality

/-!
# Equals signs in strings

How many equals signs stand in the strings of an expression, and how many of them are left when
spellings of equality are shortened.

## Main definitions

* `Expr.signs` — the equals signs in the names and strings of an expression

## Main results

* `literals_shorten` — the string literals of a shortened text are those of the text, shortened
* `count_literals_of_parse` — the equals signs in the literals of a text are those of its expression
-/

namespace Stencil.Expr

open Text

/-! ### Shortened literals -/

section Shorten

variable {mark q c : Char} {cs word : List Char} (hmark : isMark mark = true)

/-- A longer spelling is replaced by the shorter one, and the scan goes on after it. -/
theorem shorten_long (mark : Char) (cs : List Char) :
    shorten mark (longSpelling mark ++ cs) = shortSpelling mark ++ shorten mark cs :=
  replaceAll_old (shortSpelling mark) cs

/-- Where no longer spelling begins, the character stays. -/
theorem shorten_cons (h : ¬ longSpelling mark <+: c :: cs) :
    shorten mark (c :: cs) = c :: shorten mark cs :=
  replaceAll_cons h _

/-- A text without the longer spelling stays as it is. -/
theorem shorten_self (h : ¬ longSpelling mark <:+: cs) : shorten mark cs = cs :=
  replaceAll_self h _

/-- The longer spelling begins with its mark. -/
theorem not_prefix_of_ne (hc : c ≠ mark) (cs : List Char) : ¬ longSpelling mark <+: c :: cs :=
  fun h => hc (List.cons_prefix_cons.1 h).1.symm

/-- The literals of a text after a backslash within quotes. -/
def literalsEscaped (q : Char) : List Char → List Char
  | [] => []
  | c :: cs => c :: literalsFrom (some q) cs

/-- Within quotes, a backslash is copied with the character behind it, which may be the quote. -/
theorem literalsFrom_backslash (q : Char) (cs : List Char) :
    literalsFrom (some q) ('\\' :: cs) = '\\' :: literalsEscaped q cs := by
  rcases cs with _ | ⟨c, cs⟩
  · rfl
  · rfl

/-- Within quotes a text is read over up to a backslash or the closing quote. -/
theorem literalsFrom_word (hword : ∀ c ∈ word, c ≠ '\\' ∧ c ≠ q) (cs : List Char) :
    literalsFrom (some q) (word ++ cs) = word ++ literalsFrom (some q) cs := by
  induction word with
  | nil => rfl
  | cons c word ih =>
      obtain ⟨⟨hbackslash, hquote⟩, hword⟩ := List.forall_mem_cons.1 hword
      rw [List.cons_append, literalsFrom_quoted hbackslash, if_neg hquote, ih hword,
        List.cons_append]

/-- A word without the quote and without backslashes that starts the literals of a quoted text
starts the text itself. -/
theorem prefix_of_literalsFrom (hword : ∀ c ∈ word, c ≠ '\\' ∧ c ≠ q)
    (h : word <+: literalsFrom (some q) cs) : word <+: cs := by
  induction word generalizing cs with
  | nil => exact List.nil_prefix
  | cons w word ih =>
      obtain ⟨⟨hbackslash, hquote⟩, hword⟩ := List.forall_mem_cons.1 hword
      rcases cs with _ | ⟨c, cs⟩
      · exact absurd (List.prefix_nil.1 h) (List.cons_ne_nil _ _)
      by_cases hc : c = '\\'
      · subst hc
        rw [literalsFrom_backslash] at h
        exact absurd (List.cons_prefix_cons.1 h).1 hbackslash
      · rw [literalsFrom_quoted hc] at h
        obtain ⟨rfl, hrest⟩ := List.cons_prefix_cons.1 h
        rw [if_neg hquote] at hrest
        exact List.cons_prefix_cons.2 ⟨rfl, ih hword hrest⟩

/-- The shorter spelling has no character that the longer one has not. -/
theorem mem_longSpelling_of_mem_short {d : Char} (hd : d ∈ shortSpelling mark) :
    d ∈ longSpelling mark := by
  rcases List.mem_cons.1 hd with rfl | hd
  · exact List.mem_cons_self
  · exact List.mem_cons_of_mem _ (List.mem_cons.2 (.inl (List.mem_singleton.1 hd)))

/-- The literals of a shortened text are those of the text, shortened, wherever it stands. -/
structure LiteralsShorten (mark : Char) (cs : List Char) : Prop where
  outside : literals (shorten mark cs) = shorten mark (literals cs)
  quoted : ∀ q, isQuote q = true →
    literalsFrom (some q) (shorten mark cs) = shorten mark (literalsFrom (some q) cs)
  escaped : ∀ q, isQuote q = true →
    literalsEscaped q (shorten mark cs) = shorten mark (literalsEscaped q cs)

include hmark

/-- Both spellings consist of marks. -/
theorem isMark_of_mem_longSpelling : ∀ d ∈ longSpelling mark, isMark d = true := by
  intro d hd
  rcases List.mem_cons.1 hd with rfl | hd
  · exact hmark
  · obtain rfl : d = '=' := by simpa using hd
    rfl

/-- The characters of the spellings of equality mean nothing to quotes. -/
theorem plain_longSpelling (hq : isQuote q = true) :
    ∀ d ∈ longSpelling mark, d ≠ '\\' ∧ d ≠ q := by
  intro d hd
  have hsign := isMark_of_mem_longSpelling hmark d hd
  refine ⟨?_, ?_⟩
  · rintro rfl
    exact absurd hsign (by decide)
  · rintro rfl
    exact Bool.false_ne_true ((isMark_of_isQuote hq).symm.trans hsign)

/-- No occurrence begins at a character of a literal where none begins in the text. -/
theorem not_prefix_literalsFrom (hq : isQuote q = true) (h : ¬ longSpelling mark <+: c :: cs) :
    ¬ longSpelling mark <+: c :: literalsFrom (some q) cs := by
  intro hprefix
  obtain ⟨hc, hrest⟩ := List.cons_prefix_cons.1 hprefix
  have hword : ∀ d ∈ ['=', '='], d ≠ '\\' ∧ d ≠ q := fun d hd =>
    plain_longSpelling hmark hq d (List.mem_cons_of_mem mark hd)
  exact h (List.cons_prefix_cons.2 ⟨hc, prefix_of_literalsFrom hword hrest⟩)

/-- Taking the literals and shortening may change places behind a longer spelling, in every state
that the scan may be in. -/
theorem literalsShorten_long (h : LiteralsShorten mark cs) :
    LiteralsShorten mark (longSpelling mark ++ cs) := by
  have hwithin : ∀ q, isQuote q = true → ∀ word, (∀ d ∈ word, d ∈ longSpelling mark) → ∀ cs,
      literalsFrom (some q) (word ++ cs) = word ++ literalsFrom (some q) cs :=
    fun q hq word hword => literalsFrom_word fun d hd => plain_longSpelling hmark hq d (hword d hd)
  have hlong : ∀ d ∈ longSpelling mark, isQuote d = false := fun d hd =>
    (classes_of_isMark (isMark_of_mem_longSpelling hmark d hd)).2.2.2
  refine ⟨?_, fun q hq => ?_, fun q hq => ?_⟩
  · rw [shorten_long, literals_unquoted fun d hd => hlong d (mem_longSpelling_of_mem_short hd),
      literals_unquoted hlong, h.outside]
  · rw [shorten_long, hwithin q hq _ fun d hd => mem_longSpelling_of_mem_short hd,
      hwithin q hq _ fun d hd => hd, h.quoted q hq, shorten_long]
  · -- The backslash takes the mark, and the rest of the spelling follows within the quotes.
    rw [shorten_long]
    show mark :: literalsFrom (some q) (['='] ++ shorten mark cs) =
      shorten mark (mark :: literalsFrom (some q) (['=', '='] ++ cs))
    rw [hwithin q hq _ (by simp [longSpelling]), hwithin q hq _ (by simp [longSpelling]),
      h.quoted q hq]
    exact (shorten_long mark (literalsFrom (some q) cs)).symm

/-- They may also change places behind a character at which no longer spelling begins. -/
theorem literalsShorten_cons (hc : ¬ longSpelling mark <+: c :: cs) (h : LiteralsShorten mark cs) :
    LiteralsShorten mark (c :: cs) := by
  have hquoted : ∀ q, isQuote q = true → c :: literalsFrom (some q) (shorten mark cs) =
      shorten mark (c :: literalsFrom (some q) cs) := by
    intro q hq
    rw [shorten_cons (not_prefix_literalsFrom hmark hq hc), h.quoted q hq]
  refine ⟨?_, fun q hq => ?_, fun q hq => ?_⟩
  -- Outside of quotes, a quote begins a literal.
  · rw [shorten_cons hc, literals, literalsFrom, literals, literalsFrom]
    by_cases hquote : isQuote c = true
    · rw [if_pos hquote, if_pos hquote]
      exact hquoted c hquote
    · rw [if_neg hquote, if_neg hquote]
      exact h.outside
  · rw [shorten_cons hc]
    -- Within quotes, a backslash, the closing quote and any other character.
    by_cases hbackslash : c = '\\'
    · subst hbackslash
      have hne : '\\' ≠ mark := by
        rintro rfl
        exact absurd hmark (by decide)
      rw [literalsFrom_backslash, literalsFrom_backslash, shorten_cons (not_prefix_of_ne hne _),
        h.escaped q hq]
    rw [literalsFrom_quoted hbackslash, literalsFrom_quoted hbackslash]
    by_cases hclosing : c = q
    · have hne : c ≠ mark := by
        rintro rfl
        exact Bool.false_ne_true ((isMark_of_isQuote (hclosing ▸ hq)).symm.trans hmark)
      rw [if_pos hclosing, shorten_cons (not_prefix_of_ne hne _)]
      exact congrArg (c :: ·) h.outside
    · rw [if_neg hclosing]
      exact hquoted q hq
  · rw [shorten_cons hc]
    exact hquoted q hq

/-- The string literals of a shortened text are those of the text, shortened. A replacement never
begins within a literal and ends outside of it, since both spellings are without quotes. -/
theorem literals_shorten (cs : List Char) :
    literals (shorten mark cs) = shorten mark (literals cs) := by
  have hne : longSpelling mark ≠ [] := List.cons_ne_nil _ _
  have hall : LiteralsShorten mark cs := by
    induction cs using replace_induct hne with
    | nil => exact ⟨rfl, fun _ _ => rfl, fun _ _ => rfl⟩
    | occurrence cs ih => exact literalsShorten_long hmark ih
    | cons c cs hc ih => exact literalsShorten_cons hmark hc ih
  exact hall.outside

/-- Shortening takes an equals sign away with each occurrence. -/
theorem count_longSpelling :
    (longSpelling mark).count '=' = (shortSpelling mark).count '=' + 1 := by
  rcases eq_of_isMark hmark with rfl | rfl
  · rfl
  · rfl

/-- Shortening adds no equals signs. -/
theorem count_shorten_le (cs : List Char) : (shorten mark cs).count '=' ≤ cs.count '=' := by
  have hne : longSpelling mark ≠ [] := List.cons_ne_nil _ _
  have hlong := count_longSpelling hmark
  induction cs using replace_induct hne with
  | nil => exact Nat.le_refl _
  | occurrence cs ih =>
      rw [shorten_long, List.count_append, List.count_append]
      omega
  | cons c cs h ih =>
      rw [shorten_cons h, List.count_cons, List.count_cons]
      omega

/-- Where the longer spelling occurs, shortening takes at least one equals sign away. So a text that
means the same shortened cannot have it in a literal. -/
theorem count_shorten_lt (h : longSpelling mark <:+: cs) :
    (shorten mark cs).count '=' < cs.count '=' := by
  have hne : longSpelling mark ≠ [] := List.cons_ne_nil _ _
  induction cs using replace_induct hne with
  | nil => exact absurd (List.infix_nil.1 h) hne
  | occurrence cs _ =>
      have hlong := count_longSpelling hmark
      have hle := count_shorten_le hmark cs
      rw [shorten_long, List.count_append, List.count_append]
      omega
  | cons c cs hprefix ih =>
      have hlt := ih ((List.infix_cons_iff.1 h).resolve_left hprefix)
      rw [shorten_cons hprefix, List.count_cons, List.count_cons]
      omega

end Shorten

/-! ### Equals signs of expressions -/

/-- The equals signs in the name or the string of a token. -/
def Token.signs : Token → Nat
  | .name s | .str s => s.toList.count '='
  | _ => 0

/-- The equals signs in the names and strings of some tokens. -/
def signs : List Token → Nat
  | [] => 0
  | t :: ts => t.signs + signs ts

mutual

/-- The equals signs in the names and strings of an expression. -/
def signsOf : Expr → Nat
  | .literal (.str s) => s.toList.count '='
  | .literal _ => 0
  | .name s => s.toList.count '='
  | .current => 0
  | .member base field => signsOf base + field.toList.count '='
  | .index base key => signsOf base + signsOf key
  | .call f args => f.toList.count '=' + signsOfItems args
  | .unary _ e => signsOf e
  | .binary _ left right => signsOf left + signsOf right
  | .choice condition yes no => signsOf condition + (signsOf yes + signsOf no)
  | .array items => signsOfItems items
  | .mapping entries => signsOfEntries entries

/-- The equals signs in the names and strings of some expressions. -/
def signsOfItems : List Expr → Nat
  | [] => 0
  | e :: es => signsOf e + signsOfItems es

/-- The equals signs in the keys of some entries and in the names and strings of their values. -/
def signsOfEntries : List (String × Expr) → Nat
  | [] => 0
  | (key, e) :: entries => key.toList.count '=' + signsOf e + signsOfEntries entries

end

section Signs

variable {t : Token} {ts us : List Token}

/-- No tokens have no equals signs. -/
@[simp] theorem signs_nil : signs [] = 0 := rfl

/-- The equals signs of some tokens are those of the first and those of the rest. -/
@[simp] theorem signs_cons (t : Token) (ts : List Token) :
    signs (t :: ts) = t.signs + signs ts := rfl

/-- Equals signs add up where tokens are put one after the other. -/
@[simp] theorem signs_append (ts us : List Token) : signs (ts ++ us) = signs ts + signs us := by
  induction ts with
  | nil => exact (Nat.zero_add _).symm
  | cons t ts ih => rw [List.cons_append, signs_cons, signs_cons, ih, Nat.add_assoc]

/-- The equals signs of a symbol do not count, since they are not part of what the expression means.
-/
@[simp] theorem signs_symbol (s : Symbol) : (Token.symbol s).signs = 0 := rfl

/-- Commas add none. -/
theorem signs_commaSeparated_cons (part : List Token) (parts : List (List Token)) :
    signs (commaSeparated (part :: parts)) = signs part + signs (commaSeparated parts) := by
  rcases parts with _ | ⟨next, parts⟩
  · simp [commaSeparated]
  · simp [commaSeparated, List.intercalate]

/-- A prefix operator has no equals signs that count. -/
theorem signs_of_prefixOp? {op : Option UnaryOp} (h : prefixOp? t = some op) : t.signs = 0 := by
  unfold prefixOp? at h
  split at h
  · rfl
  · rfl
  · rfl
  · split at h
    · rename_i w hw
      rw [eq_of_beq hw]
      rfl
    · cases h
  · cases h

/-- Nor has a binary operator, `==` included. -/
theorem signs_of_binaryOp? {op : BinaryOp} (h : binaryOp? t = some op) : t.signs = 0 := by
  unfold binaryOp? at h
  split at h
  · rfl
  · split at h
    · rename_i w hw
      simp only [Bool.or_eq_true, beq_iff_eq] at hw
      rcases hw with (rfl | rfl) | rfl
      · rfl
      · rfl
      · rfl
    · cases h
  · cases h

/-- Neither sign nor digits of a number are an equals sign. -/
theorem count_toString (n : Int) : (toString n).toList.count '=' = 0 := by
  have hdigits : ∀ n, '=' ∉ Nat.toDigits 10 n := fun n hmem =>
    absurd (Decimal.isDigit_of_mem_toDigits '=' hmem) (by decide)
  rw [List.count_eq_zero]
  cases n with
  | ofNat n =>
      rw [Decimal.toList_toString_ofNat]
      exact hdigits n
  | negSucc n =>
      rw [Decimal.toList_toString_negSucc]
      exact List.not_mem_cons_of_ne_of_not_mem (by decide) (hdigits _)

/-- The name of a member has those of its text. -/
theorem signs_of_memberName? {field : String} (h : memberName? t = some field) :
    t.signs = field.toList.count '=' := by
  unfold memberName? at h
  split at h
  · obtain rfl := Option.some.inj h
    rfl
  · obtain rfl := Option.some.inj h
    exact (count_toString _).symm
  · cases h

/-- The key of an entry has those of its text. -/
theorem signs_of_entryKey? {key : String} (h : entryKey? t = some key) :
    t.signs = key.toList.count '=' := by
  unfold entryKey? at h
  split at h
  · obtain rfl := Option.some.inj h
    rfl
  · obtain rfl := Option.some.inj h
    rfl
  · cases h

/-- A name has its own equals signs, whether it is read as a variable or as a literal. -/
theorem signsOf_nameExpr (w : String) : signsOf (nameExpr w) = w.toList.count '=' := by
  unfold nameExpr
  split
  · rename_i hw
    rw [eq_of_beq hw]
    rfl
  split
  · rename_i hw
    rw [eq_of_beq hw]
    rfl
  split
  · rename_i hw
    rw [Bool.or_eq_true, beq_iff_eq, beq_iff_eq] at hw
    rcases hw with rfl | rfl
    · rfl
    · rfl
  · rfl

/-- Between the items of a list only commas are added, which have no equals signs. -/
theorem signs_items {items : List (Expr × List Token)}
    (h : ∀ item ∈ items, signs item.2 = signsOf item.1) :
    signs (commaSeparated (items.map Prod.snd)) = signsOfItems (items.map Prod.fst) := by
  induction items with
  | nil => rfl
  | cons item items ih =>
      obtain ⟨hitem, hitems⟩ := List.forall_mem_cons.1 h
      rw [List.map_cons, List.map_cons, signs_commaSeparated_cons, hitem, ih hitems, signsOfItems]

/-- An entry adds to its value the equals signs of its key. -/
theorem signs_entries {entries : List DerivedEntry}
    (hkeys : ∀ entry ∈ entries, entryKey? entry.keyToken = some entry.key)
    (hvalues : ∀ entry ∈ entries, signs entry.tokens = signsOf entry.value) :
    signs (commaSeparated (entries.map DerivedEntry.allTokens)) =
      signsOfEntries (entries.map fun entry => (entry.key, entry.value)) := by
  induction entries with
  | nil => rfl
  | cons entry entries ih =>
      obtain ⟨hkey, hkeys⟩ := List.forall_mem_cons.1 hkeys
      obtain ⟨hvalue, hvalues⟩ := List.forall_mem_cons.1 hvalues
      rw [List.map_cons, List.map_cons, signs_commaSeparated_cons, ih hkeys hvalues,
        signsOfEntries, DerivedEntry.allTokens, signs_cons, signs_cons, hvalue,
        signs_of_entryKey? hkey, signs_symbol, Nat.zero_add]

/-- The tokens of an expression have as many equals signs as it has. Operators count for nothing
here, since they may be spelled with one sign or two. -/
theorem Derives.signs_eq {e : Expr} (h : Derives e ts) : signs ts = signsOf e := by
  induction h with
  | int => rfl
  | float => rfl
  | str => rfl
  | name w => exact (signsOf_nameExpr w).symm
  | current => rfl
  | currentMember => simp [signsOf, Token.signs]
  | parenthesized _ ih => simp [ih]
  | array _ ih => simp [signs_items ih, signsOf]
  | mapping hkeys _ ih => simp [signs_entries hkeys ih, signsOf]
  | member _ hfield ih => simp [ih, signs_of_memberName? hfield, signsOf]
  | index _ _ ih ihkey => simp [ih, ihkey, signsOf]
  | call _ _ ih ihargs => simp [ih, signs_items ihargs, signsOf]
  | plus hop _ ih => simp [signs_of_prefixOp? hop, ih]
  | unary hop _ ih => simp [signs_of_prefixOp? hop, ih, signsOf]
  | binary hop _ _ iha ihb => simp [signs_of_binaryOp? hop, iha, ihb, signsOf]
  | choice _ _ _ ihcondition ihyes ihno => simp [ihcondition, ihyes, ihno, signsOf]

/-- An escape stands for an equals sign only where the escaped character is one. -/
theorem beq_escapeValue (c : Char) : (escapeValue c == '=') = (c == '=') := by
  unfold escapeValue
  split
  · rfl
  · rfl
  · rfl
  · rfl

/-- What a string is read as has the equals signs of its text. -/
theorem StringBody.count_eq {q : Char} (hq : q ≠ '=') {body content : List Char}
    (h : StringBody q body content) : content.count '=' = body.count '=' := by
  induction h with
  | closing => rw [List.count_cons_of_ne hq]
  | escaped c _ ih =>
      rw [List.count_cons, List.count_cons, List.count_cons, ih, beq_escapeValue]
      rfl
  | plain _ _ _ ih => rw [List.count_cons, List.count_cons, ih]

/-- A lexeme has as many equals signs in literals as its token. For a string these are the signs it
holds, escaped or not. -/
theorem Lexeme.count_literals {word : List Char} (h : Lexeme t word) :
    (literals word).count '=' = t.signs := by
  cases h with
  | word hword _ hchars hname =>
      rw [literals_of_unquoted fun c hc => isQuote_of_isWordChar (hchars c hc)]
      cases t with
      | name s =>
          refine (List.count_eq_zero.2 fun hmem => ?_).symm
          rw [hname s rfl] at hmem
          exact absurd (hchars '=' hmem) (by decide)
      | str _ => exact Bool.noConfusion hword
      | symbol _ => exact Bool.noConfusion hword
      | int _ => rfl
      | float _ => rfl
  | symbol hmem =>
      rw [literals_of_unquoted (isQuote_of_mem_spellings hmem)]
      rfl
  | @string q body content hq hbody =>
      have hne : q ≠ '=' := by
        rintro rfl
        exact absurd hq (by decide)
      rw [literals_of_string hq hbody, List.count_cons_of_ne hne, ← hbody.count_eq hne,
        Token.signs, String.toList_ofList]

/-- The literals of a text have as many equals signs as its tokens: a name has none, and a string is
written with one character, or one after a backslash, for each that it has. -/
theorem Lexes.count_literals {rest cs : List Char} (h : Lexes rest cs ts) :
    (literals cs).count '=' = signs ts := by
  induction h with
  | nil => rfl
  | @blank c cs tokens hc _ ih =>
      rw [← List.singleton_append,
        literals_unquoted (List.forall_mem_singleton.2 (isQuote_of_isBlank hc)), ih]
  | token hspells _ ih =>
      rw [hspells.lexeme.literals_append, List.count_append, hspells.lexeme.count_literals, ih,
        signs_cons]

/-- The equals signs in the literals of a text are those of its expression. Shortening takes some
away from the literals if they have the longer spelling, so that the expression is another one then.
-/
theorem count_literals_of_parse {s : String} {e : Expr} (h : Expr.parse s = .ok e) :
    (literals s.toList).count '=' = signsOf e := by
  obtain ⟨ts, hts, -, hderives⟩ := derives_of_parse h
  rw [(lexes_of_tokenize hts).count_literals, hderives.signs_eq]

end Signs

end Stencil.Expr
