import Stencil.Decimal.Notation
import Stencil.Decimal.Read
import Stencil.Text.Blank
import Stencil.Text.Name
import Stencil.Text.Quoted

/-!
# Tokens

The words of the expression language and how text is divided into them.

## Main definitions

* `Symbol`, `Symbol.spellings` — operators and brackets; of two spellings that fit the longer one
  counts
* `Token`, `Token.describe` — numbers, strings, names and symbols
* `tokenize` — the tokens of a text with their byte positions

## Design notes

The keywords and the word operators are names here; the parser tells them apart.
-/

namespace Stencil.Expr

open Text

/-- Operators and brackets. -/
inductive Symbol where
  | power | equal | notEqual | lessEqual | greaterEqual | both | either | coalesce
  | plus | minus | times | divide | percent | less | greater | bang | question | colon | comma | dot
  | openParen | closeParen | openBracket | closeBracket | openBrace | closeBrace
  deriving DecidableEq, Repr

/-- The text of a symbol. -/
def Symbol.text : Symbol → String
  | .power => "**" | .equal => "==" | .notEqual => "!=" | .lessEqual => "<=" | .greaterEqual => ">="
  | .both => "&&" | .either => "||" | .coalesce => "??" | .plus => "+" | .minus => "-"
  | .times => "*"
  | .divide => "/" | .percent => "%" | .less => "<" | .greater => ">" | .bang => "!"
  | .question => "?" | .colon => ":" | .comma => "," | .dot => "." | .openParen => "("
  | .closeParen => ")" | .openBracket => "[" | .closeBracket => "]" | .openBrace => "\x7b"
  | .closeBrace => "\x7d"

/-- The symbols in the order they are tried; equality has longer spellings of its own. -/
def Symbol.spellings : List (List Char × Symbol) :=
  [(['=', '=', '='], .equal), (['!', '=', '='], .notEqual)] ++
    [.power, .equal, .notEqual, .lessEqual, .greaterEqual, .both, .either, .coalesce, .plus, .minus,
      .times, .divide, .percent, .less, .greater, .bang, .question, .colon, .comma, .dot,
      .openParen,
      .closeParen, .openBracket, .closeBracket, .openBrace, .closeBrace].map
        fun (s : Symbol) => (s.text.toList, s)

/-- The symbol at the start of a text, and what follows it. -/
def Symbol.take? (cs : List Char) : Option (Symbol × List Char) :=
  Symbol.spellings.findSome? fun (spelling, s) => (stripPrefix? spelling cs).map (s, ·)

/-- A word of the expression language. Operators that are spelled as words are names here; the
parser tells them by where they stand. -/
inductive Token where
  | int (i : Int64)
  | float (x : Float)
  | str (s : String)
  | name (s : String)
  | symbol (s : Symbol)

/-- A token as messages show it. -/
def Token.describe : Token → String
  | .int i => s!"Int({i.toInt})"
  | .float x => s!"Float({Decimal.write Decimal.token x})"
  | .str s => s!"Str({quoted s})"
  | .name s => s!"Ident({quoted s})"
  | .symbol s => s!"Op({quoted s.text})"

/-- Why a text cannot be divided into tokens. Positions count the bytes in front of the place. -/
inductive LexicalError where
  | unterminatedString (position : Nat)
  | unexpectedCharacter (c : Char) (position : Nat)
  deriving DecidableEq, Repr

/-- The wording of a lexical error. -/
def LexicalError.message : LexicalError → String
  | .unterminatedString position => s!"unterminated string literal at byte {position}"
  | .unexpectedCharacter c position => s!"unexpected character {quotedChar c} at byte {position}"

/-! ### Single tokens -/

/-- A point with digits after it at the start of a text, or nothing. -/
def splitFraction (cs : List Char) : List Char × List Char :=
  match cs with
  | '.' :: d :: rest =>
    if d.isDigit then ('.' :: d :: rest.takeWhile Char.isDigit, rest.dropWhile Char.isDigit)
    else ([], cs)
  | _ => ([], cs)

/-- An exponent mark at the start of a text, if a digit follows it and its sign, or nothing. -/
def splitExponent (cs : List Char) : List Char × List Char :=
  match cs with
  | mark :: sign :: rest =>
    if mark == 'e' || mark == 'E' then
      if sign.isDigit then
        (mark :: sign :: rest.takeWhile Char.isDigit, rest.dropWhile Char.isDigit)
      else if (sign == '+' || sign == '-') && (rest.head?.map Char.isDigit).getD false then
        (mark :: sign :: rest.takeWhile Char.isDigit, rest.dropWhile Char.isDigit)
      else ([], cs)
    else ([], cs)
  | _ => ([], cs)

/-- The float of a text of digits, a fraction and an exponent. -/
def floatOfText (text : List Char) : Float := (Decimal.readFloat? text).getD 0

/-- The number at the start of a text: an integer if it has no point and no exponent and is in
range. -/
def takeNumber (cs : List Char) : Token × List Char :=
  let whole := cs.takeWhile Char.isDigit
  let (fraction, rest) := splitFraction (cs.dropWhile Char.isDigit)
  let (exponent, rest) := splitExponent rest
  let token :=
    if fraction.isEmpty && exponent.isEmpty then
      match Decimal.readInt64? whole with
      | some i => .int i
      | none => .float (floatOfText whole)
    else .float (floatOfText (whole ++ fraction ++ exponent))
  (token, rest)

/-- The character an escape stands for. -/
def escapeValue : Char → Char
  | 'n' => '\n'
  | 't' => '\t'
  | 'r' => '\r'
  | c => c

/-- The content of a string literal after its opening quote, and what follows the closing one. -/
def takeString? (quote : Char) : List Char → Option (List Char × List Char)
  | [] => none
  | ['\\'] => none
  | '\\' :: c :: cs =>
    (takeString? quote cs).map fun (content, rest) => (escapeValue c :: content, rest)
  | c :: cs =>
    if c = quote then some ([], cs)
    else (takeString? quote cs).map fun (content, rest) => (c :: content, rest)

/-- The token at the start of a text that begins with `c`, and what follows it. -/
def takeToken (position : Nat) (c : Char) (cs : List Char) :
    Except LexicalError (Token × List Char) :=
  if c.isDigit then .ok (takeNumber (c :: cs))
  else if isNameStart c then
    .ok (.name (String.ofList (c :: cs.takeWhile isNameChar)), cs.dropWhile isNameChar)
  else if isQuote c then
    match takeString? c cs with
    | some (content, rest) => .ok (.str (String.ofList content), rest)
    | none => .error (.unterminatedString position)
  else
    match Symbol.take? (c :: cs) with
    | some (s, rest) => .ok (.symbol s, rest)
    | none => .error (.unexpectedCharacter c position)

/-! ### Token lists -/

/-- The tokens from a byte position on; `bound` bounds the number of tokens and blanks. -/
def tokenizeFrom : (bound position : Nat) → List Char → Except LexicalError (List (Nat × Token))
  | _, _, [] => .ok []
  | 0, _, _ :: _ => .ok []
  | bound + 1, position, c :: cs =>
    if isBlank c then tokenizeFrom bound (position + c.utf8Size) cs
    else do
      let (token, rest) ← takeToken position c cs
      let next := position + (byteLength (c :: cs) - byteLength rest)
      let others ← tokenizeFrom bound next rest
      .ok ((position, token) :: others)

/-- The tokens of a text with their byte positions. -/
def tokenize (s : String) : Except LexicalError (List (Nat × Token)) :=
  tokenizeFrom s.toList.length 0 s.toList

end Stencil.Expr
