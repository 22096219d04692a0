import Stencil.Expr.Parser

/-!
# Printing expressions

Expressions as text with no more parentheses than precedence asks for.

## Main definitions

* `Piece` — a token of a printed expression, or a blank between two of them
* `Style` — what a printer is free to choose
* `level` — how tightly the form of an expression binds
* `pieces`, `within` — an expression as pieces, as it is and in a place that asks for a level
* `print` — an expression as text
* `Printable` — the expressions that have a text of their own

## Design notes

Levels count from the loosest form to the tightest, and a place in an expression is known by the
least level that needs no parentheses there.  The current value of a pipe has a level below every
place, so that it never stands without parentheses: a name after its point would become a member of
it.
-/

namespace Stencil.Expr

open Text

/-! ### Pieces -/

/-- A token of a printed expression, or a blank between two of them. -/
inductive Piece where
  | int (i : Int64)
  | str (s : String)
  | name (s : String)
  | symbol (s : Symbol)
  | blank

/-- What a printer is free to choose: the quote around strings, and the literals that stand without
parentheses in front of a member or an index. -/
structure Style where
  quote : Char
  isQuote_quote : isQuote quote = true
  tight : Expr → Bool

/-- A character of a string between quotes. -/
def escapedIn (quote c : Char) : List Char :=
  if c = '\n' then ['\\', 'n']
  else if c = '\t' then ['\\', 't']
  else if c = '\r' then ['\\', 'r']
  else if c = quote ∨ c = '\\' then ['\\', c]
  else [c]

/-- The text of a piece. -/
def Piece.chars (style : Style) : Piece → List Char
  | .int i => Nat.toDigits 10 i.toInt.toNat
  | .str s => [style.quote] ++ s.toList.flatMap (escapedIn style.quote) ++ [style.quote]
  | .name s => s.toList
  | .symbol s => s.text.toList
  | .blank => [' ']

/-- The token that a piece is. -/
def Piece.token? : Piece → Option Token
  | .int i => some (.int i)
  | .str s => some (.str s)
  | .name s => some (.name s)
  | .symbol s => some (.symbol s)
  | .blank => none

/-- The text of pieces. -/
def textOf (style : Style) (ps : List Piece) : List Char := ps.flatMap (Piece.chars style)

/-- The tokens among pieces, all at one position. -/
def tokensOf (ps : List Piece) : Tokens := ps.filterMap fun p => p.token?.map (0, ·)

/-! ### Precedence -/

/-- How tightly the form of an expression binds: the levels between 2 and 9 are those of the binary
operators. -/
def level (style : Style) : Expr → Nat
  | .current => 0
  | .choice _ _ _ => 1
  | .binary op _ _ => op.precedence + 1
  | .unary _ _ => 10
  | .literal v => if style.tight (.literal v) then 12 else 11
  | .array items => if style.tight (.array items) then 12 else 11
  | .mapping entries => if style.tight (.mapping entries) then 12 else 11
  | .name _ | .member _ _ | .index _ _ | .call _ _ => 12

/-- The least level of a left operand: a chain of an operator groups from the left, unless it is one
that groups from the right. -/
def leftLevel (op : BinaryOp) : Nat :=
  if op.isRightAssociative then op.precedence + 2 else op.precedence + 1

/-- The least level of a right operand. -/
def rightLevel (op : BinaryOp) : Nat :=
  if op.isRightAssociative then op.precedence + 1 else op.precedence + 2

theorem precedence_pos (op : BinaryOp) : 0 < op.precedence := by
  cases op <;> decide

theorem precedence_le (op : BinaryOp) : op.precedence ≤ 8 := by
  cases op <;> decide

/-- The tightest level is the one that groups from the right. -/
theorem isRightAssociative_iff (op : BinaryOp) :
    op.isRightAssociative = true ↔ op.precedence = 8 := by
  cases op <;> decide

theorem exists_unary_of_level {style : Style} {e : Expr} (h : level style e = 10) :
    ∃ op e', e = .unary op e' := by
  cases e with
  | unary op e' => exact ⟨op, e', rfl⟩
  | binary op _ _ =>
      have hle := precedence_le op
      simp only [level] at h
      omega
  | literal _ => exact absurd h (by simp only [level]; split <;> omega)
  | array _ => exact absurd h (by simp only [level]; split <;> omega)
  | mapping _ => exact absurd h (by simp only [level]; split <;> omega)
  | _ => exact absurd h (by simp [level])

theorem exists_binary_of_level {style : Style} {e : Expr} (hlow : 2 ≤ level style e)
    (hhigh : level style e < 10) : ∃ op a b, e = .binary op a b := by
  cases e with
  | binary op a b => exact ⟨op, a, b, rfl⟩
  | literal _ => exact absurd hhigh (by simp only [level]; split <;> omega)
  | array _ => exact absurd hhigh (by simp only [level]; split <;> omega)
  | mapping _ => exact absurd hhigh (by simp only [level]; split <;> omega)
  | current => exact absurd hlow (by simp [level])
  | choice _ _ _ => exact absurd hlow (by simp [level])
  | _ => exact absurd hhigh (by simp [level])

theorem current_or_choice_of_level {style : Style} {e : Expr} (h : level style e < 2) :
    e = .current ∨ ∃ condition yes no, e = .choice condition yes no := by
  cases e with
  | current => exact .inl rfl
  | choice condition yes no => exact .inr ⟨condition, yes, no, rfl⟩
  | binary op _ _ =>
      have hpos := precedence_pos op
      simp only [level] at h
      omega
  | literal _ => exact absurd h (by simp only [level]; split <;> omega)
  | array _ => exact absurd h (by simp only [level]; split <;> omega)
  | mapping _ => exact absurd h (by simp only [level]; split <;> omega)
  | _ => exact absurd h (by simp [level])

/-- The symbol or word of a binary operator. -/
def operatorPiece : BinaryOp → Piece
  | .power => .symbol .power
  | .multiply => .symbol .times
  | .divide => .symbol .divide
  | .remainder => .symbol .percent
  | .add => .symbol .plus
  | .subtract => .symbol .minus
  | .less => .symbol .less
  | .lessEqual => .symbol .lessEqual
  | .greater => .symbol .greater
  | .greaterEqual => .symbol .greaterEqual
  | .equal => .symbol .equal
  | .notEqual => .symbol .notEqual
  | .member => .name "in"
  | .both => .symbol .both
  | .either => .symbol .either
  | .coalesce => .symbol .coalesce

/-- The symbol of a prefix operator. -/
def prefixSymbol : UnaryOp → Symbol
  | .not => .bang
  | .negate => .minus

/-! ### Expressions -/

/-- Pieces between parentheses. -/
def parenthesized (ps : List Piece) : List Piece :=
  [.symbol .openParen] ++ ps ++ [.symbol .closeParen]

/-- Pieces of a level in a place that asks for one. -/
def placed (least own : Nat) (ps : List Piece) : List Piece :=
  if own < least then parenthesized ps else ps

/-- Items between commas. -/
def separated : List (List Piece) → List Piece
  | [] => []
  | [ps] => ps
  | ps :: rest => ps ++ [.symbol .comma, .blank] ++ separated rest

theorem separated_cons_cons (ps qs : List Piece) (rest : List (List Piece)) :
    separated (ps :: qs :: rest) = ps ++ [.symbol .comma, .blank] ++ separated (qs :: rest) := rfl

/-- The piece of a literal; times, floats and collections have none. -/
def literalPieces : Value → List Piece
  | .nil => [.name "nil"]
  | .bool true => [.name "true"]
  | .bool false => [.name "false"]
  | .int i => [.int i]
  | .str s => [.str s]
  | _ => []

mutual

/-- An expression as pieces, without parentheses around it. Its operands stand in places that ask
for a level, and get parentheses there if they bind less tightly. -/
def pieces (style : Style) : Expr → List Piece
  | .literal v => literalPieces v
  | .name s => [.name s]
  | .current => [.symbol .dot]
  | .member base field =>
    placed 12 (level style base) (pieces style base) ++ [.symbol .dot, .name field]
  | .index base key =>
    placed 12 (level style base) (pieces style base) ++ [.symbol .openBracket] ++
      placed 1 (level style key) (pieces style key) ++ [.symbol .closeBracket]
  | .call f args =>
    [.name f, .symbol .openParen] ++ separated (itemPieces style args) ++ [.symbol .closeParen]
  | .unary op e => [.symbol (prefixSymbol op)] ++ placed 10 (level style e) (pieces style e)
  | .binary op a b =>
    placed (leftLevel op) (level style a) (pieces style a) ++ [.blank, operatorPiece op, .blank] ++
      placed (rightLevel op) (level style b) (pieces style b)
  | .choice condition yes no =>
    placed 2 (level style condition) (pieces style condition) ++
      [.blank, .symbol .question, .blank] ++ placed 1 (level style yes) (pieces style yes) ++
      [.blank, .symbol .colon, .blank] ++ placed 1 (level style no) (pieces style no)
  | .array items =>
    [.symbol .openBracket] ++ separated (itemPieces style items) ++ [.symbol .closeBracket]
  | .mapping entries =>
    [.symbol .openBrace] ++ separated (entryPieces style entries) ++ [.symbol .closeBrace]

/-- Expressions as the items of a list. -/
def itemPieces (style : Style) : List Expr → List (List Piece)
  | [] => []
  | e :: rest => placed 1 (level style e) (pieces style e) :: itemPieces style rest

/-- Entries of a mapping, the keys as strings. -/
def entryPieces (style : Style) : List (String × Expr) → List (List Piece)
  | [] => []
  | (key, e) :: rest =>
    ([.str key, .symbol .colon, .blank] ++ placed 1 (level style e) (pieces style e)) ::
      entryPieces style rest

end

/-- An expression in a place that asks for a level: as it is, or in parentheses if it binds less
tightly than that. -/
def within (style : Style) (least : Nat) (e : Expr) : List Piece :=
  placed least (level style e) (pieces style e)

/-- An expression as text. -/
def print (style : Style) (e : Expr) : String := String.ofList (textOf style (within style 1 e))

/-! ### Which expressions have a text -/

/-- The words of the language, which are no names of variables or functions. -/
def reservedWords : List String := ["true", "false", "nil", "null", "not", "and", "or", "in"]

/-- Whether a text is a name of its own. -/
def IsFreeName (s : String) : Prop := isName s.toList = true ∧ s ∉ reservedWords

/-- The expressions that have a text of their own. What is left out are values with no literal and
names that cannot be written, which no parser gives. -/
inductive Printable : Expr → Prop where
  | nil : Printable (.literal .nil)
  | bool (b : Bool) : Printable (.literal (.bool b))
  | int {i : Int64} : 0 ≤ i.toInt → Printable (.literal (.int i))
  | str (s : String) : Printable (.literal (.str s))
  | name {s : String} : IsFreeName s → Printable (.name s)
  | current : Printable .current
  | member {base : Expr} {field : String} : Printable base → isName field.toList = true →
      Printable (.member base field)
  | index {base key : Expr} : Printable base → Printable key → Printable (.index base key)
  | call {f : String} {args : List Expr} : IsFreeName f → (∀ e ∈ args, Printable e) →
      Printable (.call f args)
  | unary (op : UnaryOp) {e : Expr} : Printable e → Printable (.unary op e)
  | binary (op : BinaryOp) {a b : Expr} : Printable a → Printable b → Printable (.binary op a b)
  | choice {condition yes no : Expr} : Printable condition → Printable yes → Printable no →
      Printable (.choice condition yes no)
  | array {items : List Expr} : (∀ e ∈ items, Printable e) → Printable (.array items)
  | mapping {entries : List (String × Expr)} : (∀ entry ∈ entries, Printable entry.2) →
      Printable (.mapping entries)

/-! ### How printed expressions begin -/

/-- An expression can begin with a piece. -/
def Piece.Opening : Piece → Prop
  | .int _ | .str _ => True
  | .name s => isName s.toList = true
  | .symbol s => s ∈ [.dot, .openParen, .openBracket, .openBrace, .bang, .minus]
  | .blank => False

/-- Some pieces begin as an expression does. -/
def Begins (ps : List Piece) : Prop := ∃ p rest, ps = p :: rest ∧ p.Opening

theorem begins_name {s : String} (h : isName s.toList = true) (rest : List Piece) :
    Begins (.name s :: rest) :=
  ⟨.name s, rest, rfl, h⟩

theorem begins_symbol {s : Symbol}
    (h : s ∈ [.dot, .openParen, .openBracket, .openBrace, .bang, .minus]) (rest : List Piece) :
    Begins (.symbol s :: rest) :=
  ⟨.symbol s, rest, rfl, h⟩

theorem Begins.append {ps : List Piece} (h : Begins ps) (qs : List Piece) : Begins (ps ++ qs) := by
  obtain ⟨p, rest, rfl, hp⟩ := h
  exact ⟨p, rest ++ qs, rfl, hp⟩

theorem Begins.placed {ps : List Piece} (h : Begins ps) (least own : Nat) :
    Begins (placed least own ps) := by
  unfold Expr.placed
  split
  · exact begins_symbol (by decide) _
  · exact h

/-- A printed expression begins with an operand or a prefix operator. No binary operator comes
first, so nothing can be joined to what stands in front of it. -/
theorem begins_pieces (style : Style) {e : Expr} (h : Printable e) : Begins (pieces style e) := by
  induction h with
  | nil => exact begins_name (by decide) _
  | bool b =>
      cases b with
      | true => exact begins_name (by decide) _
      | false => exact begins_name (by decide) _
  | @int i _ => exact ⟨.int i, [], rfl, trivial⟩
  | str s => exact ⟨.str s, [], rfl, trivial⟩
  | name hs => exact begins_name hs.1 _
  | current => exact begins_symbol (by decide) _
  | member _ _ ih => exact (ih.placed _ _).append _
  | index _ _ ih _ => exact (((ih.placed _ _).append _).append _).append _
  | call hf _ _ => exact begins_name hf.1 _
  | unary op _ _ => cases op <;> exact begins_symbol (by decide) _
  | binary op _ _ ih _ => exact ((ih.placed _ _).append _).append _
  | choice _ _ _ ih _ _ => exact ((((ih.placed _ _).append _).append _).append _).append _
  | array _ _ => exact begins_symbol (by decide) _
  | mapping _ _ => exact begins_symbol (by decide) _

end Stencil.Expr
