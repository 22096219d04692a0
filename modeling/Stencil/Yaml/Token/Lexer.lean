import Stencil.Yaml.Scalar.Block
import Stencil.Yaml.Scalar.Plain
import Stencil.Yaml.Token

/-!
# The tokens of a YAML text

## Main definitions

* `Indent`, `Candidate`, `Level` — open block collections, possible keys, open flow collections
* `Lexer` — a place in a text with what is open there
* `Lexer.fetch` — the next mark, property or scalar, and the tokens it gives rise to
* `tokenize` — the tokens of a text

## Design notes

A scalar or a collection turns out to be a key only at the colon after it. Until then it is a
candidate, and its tokens are held back, because the marks of a key and of a mapping may have to be
put before them.
-/

namespace Stencil.Yaml

/-- An indentation. One that is not a `block` only demands that content is indented further than the
collection around it. -/
structure Indent where
  column : Nat
  block : Bool

/-- A token that becomes a key if a colon follows; `required` if nothing else may begin there. -/
structure Candidate where
  number : Nat
  index : Nat
  line : Nat
  column : Nat
  required : Bool

/-- An open flow collection: whether it is a sequence, the candidate it began at, and whether a pair
in it has braces of its own. -/
structure Level where
  sequence : Bool
  outer : Option Candidate
  inPair : Bool

/-- A place in a text with what is open there, innermost first. Of the tokens found, `passed` many
are known for good; the others are `held` back. -/
structure Lexer where
  cursor : Cursor
  held : List Token
  passed : Nat
  indents : List Indent
  levels : List Level
  candidate : Option Candidate
  /-- Whether a key may begin here. -/
  keyAllowed : Bool
  /-- The place at which a colon needs no blank after it. -/
  tightColon : Option Nat
  /-- Whether pairs in flow sequences are left to the grammar, since a mapping or a key mark came
  before. -/
  plainPairs : Bool
  ended : Bool

namespace Lexer

/-- Before the first token of a text. -/
def start (s : String) : Lexer :=
  ⟨Cursor.start s.toList, [], 0, [], [], none, true, none, false, false⟩

/-- The column content has to be indented to; none at the top level. -/
def indent (l : Lexer) : Int :=
  match l.indents with
  | [] => -1
  | i :: _ => i.column

/-- Whether a flow collection is open. -/
def inFlow (l : Lexer) : Bool := !l.levels.isEmpty

/-- Adds a token. -/
def push (l : Lexer) (t : Token) : Lexer := { l with held := l.held ++ [t] }

/-- Puts a token before the one with this number. -/
def insert (l : Lexer) (number : Nat) (t : Token) : Lexer :=
  { l with held := l.held.insertIdx (number - l.passed) t }

/-- Whether the innermost indentation is that of a block collection. -/
def inBlock (l : Lexer) : Bool := (l.indents.head?.map (·.block)).getD false

/-! ### Candidates for keys -/

/-- The token to come is a candidate, if a key may begin here. -/
def noteCandidate (l : Lexer) : Lexer :=
  if l.keyAllowed then
    let c := l.cursor
    let required := !l.inFlow && l.indent == (c.column : Int) && l.inBlock
    { l with
      candidate := some ⟨l.passed + l.held.length, c.index, c.line, c.column, required⟩ }
  else l

/-- The candidate is no key. -/
def dropCandidate (l : Lexer) : Except Violation Lexer :=
  match l.candidate with
  | some k => if k.required then .error .missingColon else .ok { l with candidate := none }
  | none => .ok l

/-- Outside of flow collections a key stands on one line and is not longer than this. -/
def keyLimit : Nat := 1024

/-- Drops a candidate that lies too far back. -/
def dropStale (l : Lexer) : Except Violation Lexer :=
  match l.candidate with
  | some k =>
    if !l.inFlow && (k.line < l.cursor.line || k.index + keyLimit < l.cursor.index) then
      l.dropCandidate
    else .ok l
  | none => .ok l

/-- The candidates, innermost first. -/
def candidates (l : Lexer) : List Candidate := l.candidate.toList ++ l.levels.filterMap (·.outer)

/-! ### Indentation -/

/-- Closes the block collections that are indented further than a column. -/
def unrollTo (l : Lexer) (column : Int) : Lexer :=
  if l.inFlow then l
  else
    let closed := l.indents.takeWhile (column < ·.column)
    { l with
      indents := l.indents.dropWhile (column < ·.column)
      held := l.held ++ (closed.filter (·.block)).map fun _ => .blockEnd }

/-- Gives up the indentations that are not block collections. -/
def unrollDemands (l : Lexer) : Lexer := { l with indents := l.indents.dropWhile (!·.block) }

/-- Opens a block collection at a column, unless one is open there. Its mark goes before the token
with the number given, or to the end. -/
def rollTo (l : Lexer) (column : Nat) (number : Option Nat) (mark : Token) : Lexer :=
  if l.inFlow then l
  else
    let indents :=
      match l.indents with
      | i :: outer => if !i.block && i.column ≤ column then outer else i :: outer
      | [] => []
    let l := { l with indents }
    if l.indent < (column : Int) then
      let l := { l with indents := ⟨column, true⟩ :: indents }
      match number with
      | some n => l.insert n mark
      | none => l.push mark
    else l

/-- Demands that what follows is indented further than the block collection around it. -/
def demandIndent (l : Lexer) : Lexer :=
  match l.indents with
  | i :: _ =>
    if !l.inFlow && i.block then { l with indents := ⟨i.column + 1, false⟩ :: l.indents } else l
  | [] => l

/-! ### The end, directives and document markers -/

/-- The end of the text. -/
def fetchEnd (l : Lexer) : Except Violation Lexer :=
  if l.candidates.any (·.required) then .error .missingColon
  else
    let l := l.unrollTo (-1)
    let levels := l.levels.map fun level => { level with outer := none }
    let l := { l with candidate := none, levels, keyAllowed := false, ended := true }
    .ok (l.push .streamEnd)

/-- Closes everything before a line that belongs to no collection. -/
def closeAll (l : Lexer) : Except Violation Lexer := do
  let l ← (l.unrollTo (-1)).dropCandidate
  .ok { l with keyAllowed := false }

/-- A directive line. -/
def fetchDirective (l : Lexer) : Except Violation Lexer := do
  let l ← l.closeAll
  let (directive, cursor) ← skipDirective (l.cursor.skip 1)
  .ok (({ l with cursor } : Lexer).push (.directive directive))

/-- A document marker. -/
def fetchMarker (l : Lexer) (mark : Token) : Except Violation Lexer := do
  let l ← l.closeAll
  .ok (({ l with cursor := l.cursor.skip 3 } : Lexer).push mark)

/-- The marker of a document's end: only blanks and a comment may follow on the line. -/
def fetchDocumentEnd (l : Lexer) : Except Violation Lexer := do
  let l ← l.fetchMarker .documentEnd
  let cursor ← l.cursor.skipBlanks
  if endsLine cursor.rest then .ok { l with cursor } else .error .trailingContent

/-! ### Flow collections -/

/-- How deep flow collections may be nested. -/
def flowLimit : Nat := 255

/-- The start of a flow collection. -/
def openFlow (l : Lexer) (sequence : Bool) : Except Violation Lexer := do
  let l := l.noteCandidate.demandIndent
  if flowLimit ≤ l.levels.length then .error .nesting
  else
    let cursor ← (l.cursor.skip 1).skipBlanks
    let levels := ⟨sequence, l.candidate, false⟩ :: l.levels
    let plainPairs := l.plainPairs || !sequence
    let l := { l with cursor, levels, candidate := none, keyAllowed := true, plainPairs }
    .ok (l.push (if sequence then .flowSequenceStart else .flowMappingStart))

/-- Ends a pair that has braces of its own. -/
def endPair (l : Lexer) : Lexer :=
  match l.levels with
  | level :: outer =>
    if level.inPair then
      let levels := { level with inPair := false } :: outer
      ({ l with levels, plainPairs := false } : Lexer).push .flowMappingEnd
    else l
  | [] => l

/-- The end of a flow collection. A collection in another one may be a key with a tight colon. -/
def closeFlow (l : Lexer) (sequence : Bool) : Except Violation Lexer := do
  let l ← l.dropCandidate
  let l := l.endPair
  match l.levels with
  | [] => .error .bracket
  | level :: levels =>
    if level.sequence != sequence then .error .bracket
    else
      let cursor ← (l.cursor.skip 1).skipBlanks
      let tightColon := if levels.isEmpty then l.tightColon else some cursor.index
      let l := { l with cursor, levels, tightColon, candidate := level.outer, keyAllowed := false }
      .ok (l.push (if sequence then .flowSequenceEnd else .flowMappingEnd))

/-- A comma. -/
def fetchComma (l : Lexer) : Except Violation Lexer := do
  let l ← l.dropCandidate
  let l := l.endPair
  let cursor ← (l.cursor.skip 1).skipBlanks
  .ok (({ l with cursor, keyAllowed := true } : Lexer).push .comma)

/-! ### Entries, keys and values -/

/-- Whether the last token is a property at the start of a line. -/
def afterOuterProperty (l : Lexer) : Bool :=
  match l.held.getLast? with
  | some (.anchor _ column) | some (.tag _ column) => column == 0
  | _ => false

/-- A dash before an entry of a block sequence. -/
def fetchEntry (l : Lexer) : Except Violation Lexer := do
  if l.inFlow || !l.keyAllowed then .error .entryPlace
  else if l.cursor.column == 0 && l.afterOuterProperty && !l.indents.isEmpty then
    .error .indentation
  else
    let l := l.rollTo l.cursor.column none .blockSequenceStart
    let (cursor, gap) ← (l.cursor.skip 1).skipGap true
    if gap.tabs && cursor.rest.head? == some '-' && endsWord cursor.rest.tail then
      .error .tabIndentation
    else
      let l := { l with cursor }
      let nests := (!cursor.rest.isEmpty && endsLine cursor.rest) || startsFlowMark cursor.rest
      let l ← (if nests then l.demandIndent else l).dropCandidate
      .ok (({ l with keyAllowed := true } : Lexer).push .entry)

/-- Passes the spaces, comments and line breaks after a question mark; `bound` bounds their number.
-/
def skipKeyGap : (bound : Nat) → Cursor → Cursor
  | 0, c => c
  | bound + 1, c =>
    match c.rest with
    | ' ' :: _ => skipKeyGap bound (c.skipSpaces 1)
    | '\n' :: _ | '\r' :: _ => skipKeyGap bound c.skipBreak
    | '#' :: _ => skipKeyGap bound c.skipLine
    | _ => c

/-- A question mark before a key. -/
def fetchKeyMark (l : Lexer) : Except Violation Lexer := do
  if !l.inFlow && !l.keyAllowed then .error .keyPlace
  else
    let l ← (l.rollTo l.cursor.column none .blockMappingStart).dropCandidate
    let after := l.cursor.skip 1
    let cursor := skipKeyGap (after.rest.length + 1) after
    if cursor.index == after.index || cursor.rest.head? == some '\t' then .error .missingBlank
    else
      let plainPairs := l.plainPairs || l.inFlow
      .ok (({ l with cursor, plainPairs, keyAllowed := !l.inFlow } : Lexer).push .key)

/-- The place after a colon and the tabs after it, which need a space before plain content. -/
def skipColon (c : Cursor) : Except Violation Cursor := do
  let after := c.skip 1
  if after.rest.head? == some '\t' then
    let (next, gap) ← after.skipGap true
    if !gap.spaces && (next.rest.head?.map isWordChar).getD false then .error .missingBlank
    else .ok next
  else .ok after

/-- Whether a colon here begins a pair with braces of its own. -/
def opensPair (l : Lexer) : Bool :=
  match l.levels with
  | level :: _ => level.sequence && !l.plainPairs
  | [] => false

/-- A colon after a candidate, which is a key. -/
def valueOfCandidate (l : Lexer) (k : Candidate) (line : Nat) (pair : Bool) :
    Except Violation Lexer :=
  if pair && k.line < line then .error .lineBreakInKey
  else
    let l := l.insert k.number .key
    let l := if pair then l.insert k.number .flowMappingStart else l
    let l := (l.rollTo k.column (some k.number) .blockMappingStart).demandIndent
    .ok (({ l with candidate := none, keyAllowed := false } : Lexer).push .value)

/-- A colon without a candidate before it. -/
def valueOfKeyMark (l : Lexer) (column : Nat) (pair : Bool) : Except Violation Lexer :=
  let l := if pair then l.push .flowMappingStart else l
  if !l.inFlow && !l.keyAllowed then .error .valuePlace
  else
    let l := (l.rollTo column none .blockMappingStart).demandIndent
    .ok (({ l with keyAllowed := !l.inFlow } : Lexer).push .value)

/-- A colon before a value. -/
def fetchValue (l : Lexer) : Except Violation Lexer := do
  let pair := l.opensPair
  let levels :=
    match l.levels with
    | level :: outer => { level with inPair := level.inPair || pair } :: outer
    | [] => []
  let cursor ← skipColon l.cursor
  let found := { l with cursor, levels }
  match l.candidate with
  | some k => found.valueOfCandidate k l.cursor.line pair
  | none => found.valueOfKeyMark l.cursor.column pair

/-- A colon in a flow collection without a blank after it: it may stand before a bracket only where
it may be tight. -/
def fetchTightValue (l : Lexer) (cs : List Char) : Except Violation Lexer :=
  if l.tightColon != some l.cursor.index && (cs.head? == some '[' || cs.head? == some '\x7b') then
    .error .valuePlace
  else l.fetchValue

/-! ### Properties and scalars -/

/-- A character of an anchor's name. -/
def isAnchorChar (c : Char) : Bool := !isSpace c && !isBreak c && !isFlowMark c && c != '\ufeff'

/-- The name after the mark of an anchor or an alias; `make` gives its token. -/
def fetchName (l : Lexer) (make : String → Token) : Except Violation Lexer :=
  let l := { l.noteCandidate with keyAllowed := false }
  let after := l.cursor.skip 1
  let name := after.rest.takeWhile isAnchorChar
  if name.isEmpty then .error .anchorName
  else
    .ok (({ l with cursor := after.skip name.length } : Lexer).push (make (String.ofList name)))

/-- A tag. -/
def fetchTag (l : Lexer) : Except Violation Lexer := do
  let l := { l.noteCandidate with keyAllowed := false }
  let (handle, rest) ← skipTag l.inFlow l.cursor.rest
  let cursor := l.cursor.skipTo rest
  .ok (({ l with cursor } : Lexer).push (.tag handle l.cursor.column))

/-- A quoted scalar. -/
def fetchQuoted (l : Lexer) (quote : Char) (style : ScalarStyle) : Except Violation Lexer := do
  let l := { l.noteCandidate with keyAllowed := false }
  let (text, after) ← readQuoted quote l.inFlow l.indent l.cursor
  let (cursor, broken) ← after.skipToContent l.indent
  let keyAllowed := broken && !l.inFlow
  .ok (({ l with cursor, keyAllowed, tightColon := some cursor.index } : Lexer).push
    (.scalar style text))

/-- A plain scalar. -/
def fetchPlain (l : Lexer) : Except Violation Lexer := do
  let l := l.noteCandidate.unrollDemands
  let (text, cursor) ← readPlain l.inFlow (l.indent + 1) l.cursor
  .ok (({ l with cursor, keyAllowed := cursor.leading } : Lexer).push (.scalar .plain text))

/-- A block scalar. -/
def fetchBlock (l : Lexer) (literal : Bool) : Except Violation Lexer := do
  let l := l.noteCandidate.unrollDemands
  let (text, cursor) ← readBlock literal l.indent (l.cursor.skip 1)
  .ok (({ l with cursor, keyAllowed := true } : Lexer).push
    (.scalar (if literal then .literal else .folded) text))

/-! ### Tokens in order -/

/-- What begins with a character before `cs`. -/
def fetchContent (l : Lexer) (c : Char) (cs : List Char) : Except Violation Lexer :=
  match c with
  | '[' => l.openFlow true
  | '\x7b' => l.openFlow false
  | ']' => l.closeFlow true
  | '\x7d' => l.closeFlow false
  | ',' => l.fetchComma
  | '*' => l.fetchName .alias
  | '&' => l.fetchName (.anchor · l.cursor.column)
  | '!' => l.fetchTag
  | '\'' => l.fetchQuoted c .singleQuoted
  | '"' => l.fetchQuoted c .doubleQuoted
  | '-' => if endsWord cs then l.fetchEntry else l.fetchPlain
  | '?' => if endsWord cs then l.fetchKeyMark else l.fetchPlain
  | ':' =>
    if endsWord cs then l.fetchValue
    else if l.inFlow && (startsFlowMark cs || l.tightColon == some l.cursor.index) then
      l.fetchTightValue cs
    else l.fetchPlain
  | '|' => if l.inFlow then l.fetchPlain else l.fetchBlock true
  | '>' => if l.inFlow then l.fetchPlain else l.fetchBlock false
  | '%' | '@' | '\x60' => .error (.reservedCharacter c)
  | _ => l.fetchPlain

/-- What comes next in the text, at the start of a line document markers and directives included. -/
def fetchNext (l : Lexer) : Except Violation Lexer :=
  let atLineStart := l.cursor.column == 0
  match l.cursor.rest with
  | [] => l.fetchEnd
  | c :: cs =>
    if atLineStart && c == '%' then l.fetchDirective
    else if atLineStart && startsDocument (c :: cs) then l.fetchMarker .documentStart
    else if atLineStart && endsDocument (c :: cs) then l.fetchDocumentEnd
    else if (l.cursor.column : Int) < l.indent then .error .indentation
    else l.fetchContent c cs

/-- The next mark, property or scalar, and the tokens it gives rise to. -/
def fetch (l : Lexer) : Except Violation Lexer := do
  let (cursor, broken) ← l.cursor.skipToContent l.indent
  let l ← ({ l with cursor, keyAllowed := l.keyAllowed || (broken && !l.inFlow) } : Lexer).dropStale
  let l ← (l.unrollTo cursor.column).fetchNext
  l.dropStale

/-- The tokens no candidate stands before, and the lexer without them. -/
def release (l : Lexer) : List Token × Lexer :=
  let count := (l.candidates.map fun k => k.number - l.passed).foldl min l.held.length
  (l.held.take count, { l with held := l.held.drop count, passed := l.passed + count })

/-- The tokens of the rest of a text; `bound` bounds the number of fetches. -/
def tokens : (bound : Nat) → Lexer → Stream Token
  | 0, _ => ⟨[], none⟩
  | bound + 1, l =>
    match l.fetch with
    | .error violation => ⟨[], some violation⟩
    | .ok l =>
      let (ready, l) := l.release
      if l.ended then ⟨ready, none⟩
      else
        let others := tokens bound l
        { others with items := ready ++ others.items }

end Lexer

/-- The tokens of a text. -/
def tokenize (s : String) : Stream Token := (Lexer.start s).tokens (s.toList.length + 1)

end Stencil.Yaml
