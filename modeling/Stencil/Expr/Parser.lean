import Stencil.Expr.Basic
import Stencil.Expr.Token

/-!
# Parsing expressions

Syntax trees from tokens, by precedence climbing.

## Main definitions

* `SyntaxError`, `SyntaxError.message` — why a text is no expression
* `Expr.parseChoice` — the grammar, with a bound on the depth of nesting
* `Expr.parse` — the expression of a text

## Design notes

Each level of the grammar is a parser that takes the parser of the level inside it, so that only
nesting recurs; loops within a level are bounded by the number of tokens. Prefix operators bind
tighter than all binary ones, and a choice is the loosest form.
-/

namespace Stencil

/-- A token with its position, or the end of the input. -/
abbrev Found := Option (Nat × Expr.Token)

/-- Where a parser stands, as messages say it. -/
def Found.describe : Found → String
  | some (position, token) => s!"{token.describe} at byte {position}"
  | none => "end of input"

/-- Why a text is no expression: it cannot be divided into tokens, or the tokens are not those of
one. -/
inductive SyntaxError where
  | lexical (e : Expr.LexicalError)
  | empty
  | unexpectedEnd
  | unexpected (found : Found)
  | expectedSymbol (s : Expr.Symbol) (found : Found)
  | expectedMemberName (found : Found)
  | expectedMappingKey (found : Found)
  | notCallable (found : Found)

/-- The wording of a syntax error. -/
def SyntaxError.message : SyntaxError → String
  | .lexical e => e.message
  | .empty => "empty expression"
  | .unexpectedEnd => "unexpected end of expression"
  | .unexpected found => s!"unexpected {found.describe}"
  | .expectedSymbol s found => s!"expected {Text.quoted s.text}, got {found.describe}"
  | .expectedMemberName found => s!"expected member name after '.', got {found.describe}"
  | .expectedMappingKey found => s!"expected map key, got {found.describe}"
  | .notCallable found => s!"only named functions can be called, at {found.describe}"

namespace Expr

/-- Tokens with their positions. -/
abbrev Tokens := List (Nat × Token)

/-- Takes a piece of syntax off the start of a list of tokens. -/
abbrev Parser (α : Type) := Tokens → Except SyntaxError (α × Tokens)

/-- What follows a symbol at the start of the tokens. -/
def skipSymbol? (s : Symbol) : Tokens → Option Tokens
  | (_, .symbol t) :: rest => if s = t then some rest else none
  | _ => none

/-- What follows a symbol that has to come next. -/
def expect (s : Symbol) (ts : Tokens) : Except SyntaxError Tokens :=
  match skipSymbol? s ts with
  | some rest => .ok rest
  | none => .error (.expectedSymbol s ts.head?)

/-- The operator a token stands for between two operands. -/
def binaryOp? : Token → Option BinaryOp
  | .symbol s => BinaryOp.ofText? s.text
  | .name w => if w == "and" || w == "or" || w == "in" then BinaryOp.ofText? w else none
  | _ => none

/-- The prefix operator at the start of the tokens; a plus sign is one without effect. -/
def prefixOp? : Token → Option (Option UnaryOp)
  | .symbol .bang => some (some .not)
  | .symbol .minus => some (some .negate)
  | .symbol .plus => some none
  | .name w => if w == "not" then some (some .not) else none
  | _ => none

/-- The prefix operators at the start of the tokens, outermost first. -/
def takePrefixOps : Tokens → List UnaryOp × Tokens
  | [] => ([], [])
  | (position, token) :: rest =>
    match prefixOp? token with
    | none => ([], (position, token) :: rest)
    | some op =>
      let (ops, rest) := takePrefixOps rest
      (op.toList ++ ops, rest)

/-- The name after a point. -/
def parseMemberName : Parser String
  | (_, .name w) :: rest => .ok (w, rest)
  | (_, .int i) :: rest => .ok (toString i.toInt, rest)
  | ts => .error (.expectedMemberName (ts.drop 1).head?)

/-- Items between commas up to a closing symbol; `bound` bounds their number. -/
def parseItems {α : Type} (item : Parser α) (close : Symbol) : (bound : Nat) → Parser (List α)
  | 0, _ => .error .unexpectedEnd
  | bound + 1, ts => do
    let (first, ts) ← item ts
    match skipSymbol? close ts with
    | some rest => .ok ([first], rest)
    | none => do
      let ts ← expect .comma ts
      let (others, ts) ← parseItems item close bound ts
      .ok (first :: others, ts)

/-- A list of items, possibly empty, after its opening symbol. -/
def parseList {α : Type} (item : Parser α) (close : Symbol) (ts : Tokens) :
    Except SyntaxError (List α × Tokens) :=
  match skipSymbol? close ts with
  | some rest => .ok ([], rest)
  | none => parseItems item close (ts.length + 1) ts

/-- A key, a colon and a value. -/
def parseEntry (inner : Parser Expr) : Parser (String × Expr)
  | (_, .name key) :: ts | (_, .str key) :: ts => do
    let ts ← expect .colon ts
    let (value, ts) ← inner ts
    .ok ((key, value), ts)
  | ts => .error (.expectedMappingKey (ts.drop 1).head?)

/-- The value of a reserved word, or the name itself. -/
def nameExpr (w : String) : Expr :=
  if w == "true" then .literal (.bool true)
  else if w == "false" then .literal (.bool false)
  else if w == "nil" || w == "null" then .literal .nil
  else .name w

/-- An operand without what may follow it. -/
def parsePrimary (inner : Parser Expr) : Parser Expr
  | [] => .error .unexpectedEnd
  | (_, .int i) :: ts => .ok (.literal (.int i), ts)
  | (_, .float x) :: ts => .ok (.literal (.float x), ts)
  | (_, .str s) :: ts => .ok (.literal (.str s), ts)
  | (_, .name w) :: ts => .ok (nameExpr w, ts)
  | (_, .symbol .dot) :: (_, .name w) :: ts => .ok (.member .current w, ts)
  | (_, .symbol .dot) :: ts => .ok (.current, ts)
  | (_, .symbol .openParen) :: ts => do
    let (e, ts) ← inner ts
    let ts ← expect .closeParen ts
    .ok (e, ts)
  | (_, .symbol .openBracket) :: ts => do
    let (items, ts) ← parseList inner .closeBracket ts
    .ok (.array items, ts)
  | (_, .symbol .openBrace) :: ts => do
    let (entries, ts) ← parseList (parseEntry inner) .closeBrace ts
    .ok (.mapping entries, ts)
  | t :: _ => .error (.unexpected (some t))

/-- The members, indices and calls after an operand; `bound` bounds their number. -/
def parseSuffixes (inner : Parser Expr) : (bound : Nat) → Expr → Parser Expr
  | 0, e, ts => .ok (e, ts)
  | bound + 1, e, ts =>
    match ts with
    | (_, .symbol .dot) :: ts => do
      let (field, ts) ← parseMemberName ts
      parseSuffixes inner bound (.member e field) ts
    | (_, .symbol .openBracket) :: ts => do
      let (key, ts) ← inner ts
      let ts ← expect .closeBracket ts
      parseSuffixes inner bound (.index e key) ts
    | (position, .symbol .openParen) :: ts =>
      match e with
      | .name f => do
        let (args, ts) ← parseList inner .closeParen ts
        parseSuffixes inner bound (.call f args) ts
      | _ => .error (.notCallable (some (position, .symbol .openParen)))
    | ts => .ok (e, ts)

/-- An operand with the prefix operators before it and what follows it. -/
def parseOperand (inner : Parser Expr) (ts : Tokens) : Except SyntaxError (Expr × Tokens) := do
  let (ops, ts) := takePrefixOps ts
  let (e, ts) ← parsePrimary inner ts
  let (e, ts) ← parseSuffixes inner ts.length e ts
  .ok (ops.foldr .unary e, ts)

mutual

/-- Operands joined by operators that bind tighter than `loosest`; `bound` bounds the steps. -/
def climb (operand : Parser Expr) : (bound loosest : Nat) → Parser Expr
  | 0, _, _ => .error .unexpectedEnd
  | bound + 1, loosest, ts => do
    let (left, ts) ← operand ts
    climbFrom operand bound loosest left ts

/-- Joins what follows to a left operand. -/
def climbFrom (operand : Parser Expr) : (bound loosest : Nat) → Expr → Parser Expr
  | 0, _, left, ts => .ok (left, ts)
  | _ + 1, _, left, [] => .ok (left, [])
  | bound + 1, loosest, left, (position, token) :: rest =>
    match binaryOp? token with
    | none => .ok (left, (position, token) :: rest)
    | some op =>
      if op.precedence ≤ loosest then .ok (left, (position, token) :: rest)
      else do
        let next := if op.isRightAssociative then op.precedence - 1 else op.precedence
        let (right, ts) ← climb operand bound next rest
        climbFrom operand bound loosest (.binary op left right) ts

end

/-- A choice, or operands joined by operators; choices nest in their last part. -/
def parseChoiceWith (inner : Parser Expr) (ts : Tokens) : Except SyntaxError (Expr × Tokens) := do
  let (condition, ts) ← climb (parseOperand inner) (2 * ts.length + 2) 0 ts
  match skipSymbol? .question ts with
  | none => .ok (condition, ts)
  | some ts => do
    let (yes, ts) ← inner ts
    let ts ← expect .colon ts
    let (no, ts) ← inner ts
    .ok (.choice condition yes no, ts)

/-- An expression with nesting up to a depth. -/
def parseChoice : (depth : Nat) → Parser Expr
  | 0, _ => .error .unexpectedEnd
  | depth + 1, ts => parseChoiceWith (parseChoice depth) ts

/-- The expression that a list of tokens is. -/
def ofTokens (ts : Tokens) : Except SyntaxError Expr :=
  if ts.isEmpty then .error .empty
  else do
    let (e, rest) ← parseChoice (ts.length + 1) ts
    match rest with
    | [] => .ok e
    | t :: _ => .error (.unexpected (some t))

/-- The expression of a text. -/
def parse (s : String) : Except SyntaxError Expr :=
  match tokenize s with
  | .ok ts => ofTokens ts
  | .error e => .error (.lexical e)

end Expr
end Stencil
