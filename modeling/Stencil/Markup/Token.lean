import Stencil.Markup.SyntaxError
import Stencil.Markup.Vocabulary
import Stencil.Text.Blank
import Stencil.Text.Name

/-!
# Tokens of markup

Text divided into tags and what stands between them.

## Main definitions

* `Token` — text, declarations and tags
* `takeStartTag` — a start tag with its attributes
* `tokenize` — the tokens of a text

## Design notes

Comments and blank text are no tokens. A less-than sign that begins neither a tag nor a declaration
is text. Names of attributes stay as they are written, those of tags are in lower case.
-/

namespace Stencil.Markup

open Text

/-- A piece of a document. -/
inductive Token where
  | text (cs : List Char)
  /-- `<!…>` or `<?…>` as it is written. -/
  | declaration (cs : List Char)
  | startTag (tag : String) (attributes : List (String × String))
  /-- An element that cannot have content, or whose start tag closes it. -/
  | leaf (tag : String) (attributes : List (String × String))
  /-- An element with its content, in which no tags count. -/
  | rawText (tag : String) (attributes : List (String × String)) (content : List Char)
  | endTag (tag : String)

/-- The white space between the parts of a tag. -/
def isSpace (c : Char) : Bool := c == ' ' || c == '\t' || c == '\n' || c == '\x0c' || c == '\r'

/-- A text without the white space at its start. -/
def skipSpace (cs : List Char) : List Char := cs.dropWhile isSpace

/-! ### Start tags -/

/-- How a start tag can be cut off. -/
inductive CutOff where
  | tag
  | value (name : String)

/-- Whether a tag closes itself here. -/
def atSelfClose : List Char → Bool
  | '/' :: '>' :: _ => true
  | _ => false

/-- The name of an attribute, and what follows it. -/
def takeAttributeName : List Char → List Char × List Char
  | [] => ([], [])
  | c :: cs =>
    if isSpace c || c == '=' || c == '>' || atSelfClose (c :: cs) then ([], c :: cs)
    else
      let (name, rest) := takeAttributeName cs
      (c :: name, rest)

/-- The text up to a quote and what follows the quote. -/
def takeQuoted? (quote : Char) : List Char → Option (List Char × List Char)
  | [] => none
  | c :: cs =>
    if c = quote then some ([], cs)
    else (takeQuoted? quote cs).map fun (value, rest) => (c :: value, rest)

/-- Whether a character belongs to an unquoted value. -/
def isBareValueChar (c : Char) : Bool := !isSpace c && c != '>'

/-- The value of an attribute after its name, empty without an equals sign. -/
def takeValue? (cs : List Char) : Option (List Char × List Char) :=
  match skipSpace cs with
  | '=' :: cs =>
    match skipSpace cs with
    | [] => some ([], [])
    | c :: rest =>
      if isQuote c then takeQuoted? c rest
      else some ((c :: rest).takeWhile isBareValueChar, (c :: rest).dropWhile isBareValueChar)
  | cs => some ([], cs)

/-- The attributes of a start tag, whether it closes itself, and what follows it; `bound` bounds the
number of attributes and stray slashes. -/
def takeAttributes :
    (bound : Nat) → List Char → Except CutOff (List (String × String) × Bool × List Char)
  | 0, _ => .error .tag
  | bound + 1, cs =>
    match skipSpace cs with
    | [] => .error .tag
    | '>' :: rest => .ok ([], false, rest)
    | '/' :: '>' :: rest => .ok ([], true, rest)
    | '/' :: rest => takeAttributes bound rest
    | cs =>
      let (name, rest) := takeAttributeName cs
      let name := String.ofList name
      match takeValue? rest with
      | none => .error (.value name)
      | some (value, rest) => do
        let (others, closed, rest) ← takeAttributes bound rest
        .ok ((name, String.ofList value) :: others, closed, rest)

/-- Whether a character belongs to the name of a start tag. -/
def isTagChar (c : Char) : Bool := !isSpace c && c != '>' && c != '/'

/-- A start tag after its less-than sign, at a byte position: its name, its attributes, whether it
closes itself, and what follows it. -/
def takeStartTag (position : Nat) (cs : List Char) :
    Except SyntaxError (String × List (String × String) × Bool × List Char) :=
  let tag := String.ofList ((cs.takeWhile isTagChar).map Char.toLower)
  let rest := cs.dropWhile isTagChar
  match takeAttributes (rest.length + 1) rest with
  | .ok (attributes, closed, rest) => .ok (tag, attributes, closed, rest)
  | .error .tag => .error (.unterminatedStartTag tag position)
  | .error (.value name) => .error (.unterminatedValue name tag position)

/-! ### Other pieces -/

/-- Whether a character belongs to the name of an end tag. -/
def isEndTagChar (c : Char) : Bool := isLetter c || c.isDigit || c == '-' || c == ':' || c == '_'

/-- The name of an end tag after its slash, in lower case, if it is one. -/
def endTagName? : List Char → Option String
  | [] => none
  | c :: cs =>
    if isLetter c then some (String.ofList ((c :: cs.takeWhile isEndTagChar).map Char.toLower))
    else none

/-- The text before the first place where `close` begins in any case, and the text from there on. -/
def splitBefore (close : List Char) : List Char → List Char × List Char
  | [] => ([], [])
  | c :: cs =>
    if startsWith close (((c :: cs).take close.length).map Char.toLower) then ([], c :: cs)
    else
      let (before, rest) := splitBefore close cs
      (c :: before, rest)

/-- What follows the first greater-than sign, nothing without one. -/
def afterGreater (cs : List Char) : List Char := (cs.dropWhile (· != '>')).drop 1

/-- The content of a raw text element, and what follows its end tag. -/
def takeRawText (tag : String) (cs : List Char) : List Char × List Char :=
  let (content, rest) := splitBefore (['<', '/'] ++ tag.toList) cs
  (content, afterGreater rest)

/-- What follows a comment, nothing if it is not closed. -/
def afterComment (cs : List Char) : List Char :=
  match splitOnce? ['-', '-', '>'] cs with
  | some (_, rest) => rest
  | none => []

/-- The token for text collected in reverse, none if it is blank. -/
def textTokens (reversed : List Char) : List Token :=
  if isBlankText reversed then [] else [.text reversed.reverse]

/-- The token of a start tag, and what follows it. -/
def startToken (tag : String) (attributes : List (String × String)) (closed : Bool)
    (rest : List Char) : Token × List Char :=
  if closed || !hasClosingTag tag then (.leaf tag attributes, rest)
  else if isRawText tag then
    let (content, rest) := takeRawText tag rest
    (.rawText tag attributes content, rest)
  else (.startTag tag attributes, rest)

/-! ### Documents -/

/-- What stands at a less-than sign at a byte position: tokens and what follows them, or nothing if
the sign is text. -/
def takeMarkup (position : Nat) (cs : List Char) :
    Except SyntaxError (Option (List Token × List Char)) :=
  if startsWith ['<', '!', '-', '-'] cs then .ok (some ([], afterComment cs))
  else
    match cs with
    | '<' :: '!' :: _ | '<' :: '?' :: _ =>
      match takeQuoted? '>' cs with
      | some (declaration, rest) => .ok (some ([.declaration (declaration ++ ['>'])], rest))
      | none => .error (.unterminatedDeclaration position)
    | '<' :: '/' :: name =>
      match endTagName? name with
      | none => .ok none
      | some tag =>
        match takeQuoted? '>' name with
        | some (_, rest) => .ok (some ([.endTag tag], rest))
        | none => .error (.unterminatedEndTag tag position)
    | '<' :: c :: rest =>
      if isLetter c then do
        let (tag, attributes, closed, rest) ← takeStartTag position (c :: rest)
        let (token, rest) := startToken tag attributes closed rest
        .ok (some ([token], rest))
      else .ok none
    | _ => .ok none

/-- The tokens from a byte position on, after text collected in reverse; `bound` bounds the number
of characters left. -/
def tokenizeFrom : (bound position : Nat) → (reversed : List Char) → List Char →
    Except SyntaxError (List Token)
  | _, _, reversed, [] => .ok (textTokens reversed)
  | 0, _, reversed, _ :: _ => .ok (textTokens reversed)
  | bound + 1, position, reversed, c :: cs => do
    let found ← if c == '<' then takeMarkup position (c :: cs) else .ok none
    match found with
    | none => tokenizeFrom bound (position + c.utf8Size) (c :: reversed) cs
    | some (tokens, rest) =>
      let next := position + (byteLength (c :: cs) - byteLength rest)
      let others ← tokenizeFrom bound next [] rest
      .ok (textTokens reversed ++ tokens ++ others)

/-- The tokens of a text. -/
def tokenize (s : String) : Except SyntaxError (List Token) :=
  tokenizeFrom s.toList.length 0 [] s.toList

end Stencil.Markup
