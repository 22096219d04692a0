import Stencil.Dict
import Stencil.Yaml.Event
import Stencil.Yaml.Token.Lexer

/-!
# The grammar of YAML

Events from tokens.

## Main definitions

* `Grammar` — reading tokens and giving events, up to the first rule that is broken
* `Grammar.node` — a scalar, an alias or a collection, with its properties
* `Grammar.documents` — the documents of a text
* `events` — the events of a text

## Design notes

The grammar of a collection takes the grammar of the nodes in it, so that only nesting recurs; loops
are bounded by the number of tokens.
-/

namespace Stencil.Yaml

/-- Tokens still to be read, what comes after them, and the events given so far, latest first. -/
structure Reading where
  tokens : List Token
  ending : Violation
  /-- The number of the latest anchor of each name. -/
  anchors : Dict Nat
  anchorCount : Nat
  /-- The handle that is declared. -/
  handle : Option String
  reversed : List Event

/-- Reading tokens and giving events. -/
abbrev Grammar := ExceptT Violation (StateM Reading)

namespace Grammar

/-- The next token. -/
def peek : Grammar Token := do
  let r ← get
  match r.tokens with
  | t :: _ => return t
  | [] => throw r.ending

/-- Passes a token. -/
def advance : Grammar Unit := modify fun r => { r with tokens := r.tokens.tail }

/-- Gives an event. -/
def give (e : Event) : Grammar Unit := modify fun r => { r with reversed := e :: r.reversed }

/-! ### Properties -/

/-- Numbers an anchor. -/
def setAnchor (name : String) : Grammar Nat := do
  let number := (← get).anchorCount
  modify fun r => { r with anchors := Dict.insert name number r.anchors, anchorCount := number + 1 }
  return number

/-- An anchor, if one comes next. -/
def anchor? : Grammar (Option Nat) := do
  match ← peek with
  | .anchor name _ => do
    advance
    return some (← setAnchor name)
  | _ => return none

/-- A tag, if one comes next: its handle has to be declared. -/
def tag : Grammar Bool := do
  match ← peek with
  | .tag none _ => do
    advance
    return true
  | .tag (some handle) _ =>
    if (← get).handle == some handle then
      advance
      return true
    else throw (.undeclaredHandle handle)
  | _ => return false

/-- The anchor and whether there is a tag, in either order. -/
def properties : Grammar (Option Nat × Bool) := do
  match ← anchor? with
  | some number => return (some number, ← tag)
  | none => if ← tag then return (← anchor?, true) else return (none, false)

/-! ### Collections -/

/-- The grammar of nodes: whether block collections may begin, and whether a sequence may begin
without indentation. -/
abbrev NodeGrammar := (block indentless : Bool) → Grammar Unit

/-- Nothing, if one of the tokens comes next that cannot begin a node, else a node. -/
def nodeUnless (stops : List Token) (node : Grammar Unit) : Grammar Unit := do
  if stops.contains (← peek) then give .nothing else node

/-- The value of a key in a block mapping. -/
def blockValue (node : NodeGrammar) : Grammar Unit := do
  match ← peek with
  | .value => do
    advance
    nodeUnless [.key, .value, .blockEnd] (node true true)
  | _ => give .nothing

/-- The pairs of a block mapping; `bound` bounds their number. -/
def blockPairs (node : NodeGrammar) : (bound : Nat) → Grammar Unit
  | 0 => throw .missingKey
  | bound + 1 => do
    match ← peek with
    | .key => do
      advance
      nodeUnless [.key, .value, .blockEnd] (node true true)
      blockValue node
      blockPairs node bound
    | .value => do
      give .nothing
      blockValue node
      blockPairs node bound
    | .blockEnd => do
      advance
      give .mappingEnd
    | _ => throw .missingKey

/-- The entries of a block sequence; `bound` bounds their number. -/
def blockEntries (node : NodeGrammar) : (bound : Nat) → Grammar Unit
  | 0 => throw .missingEntry
  | bound + 1 => do
    match ← peek with
    | .entry => do
      advance
      nodeUnless [.entry, .blockEnd] (node true false)
      blockEntries node bound
    | .blockEnd => do
      advance
      give .sequenceEnd
    | _ => throw .missingEntry

/-- The entries of a sequence that is not indented further than its key; `bound` bounds their
number. -/
def indentlessEntries (node : NodeGrammar) : (bound : Nat) → Grammar Unit
  | 0 => throw .missingEntry
  | bound + 1 => do
    match ← peek with
    | .entry => do
      advance
      nodeUnless [.entry, .key, .value, .blockEnd] (node true false)
      indentlessEntries node bound
    | _ => give .sequenceEnd

/-- A comma, unless the entry to come is the first one. -/
def separator (first : Bool) : Grammar Unit := do
  if !first then
    match ← peek with
    | .comma => advance
    | _ => throw .missingComma

/-- The value of a key in a flow collection that `close` ends. -/
def flowValue (node : NodeGrammar) (close : Token) : Grammar Unit := do
  match ← peek with
  | .value => do
    advance
    nodeUnless [.comma, close] (node false false)
  | _ => give .nothing

/-- The pairs of a flow mapping; `bound` bounds their number. -/
def flowPairs (node : NodeGrammar) : (bound : Nat) → (first : Bool) → Grammar Unit
  | 0, _ => throw .missingComma
  | bound + 1, first => do
    if (← peek) != .flowMappingEnd then separator first
    match ← peek with
    | .flowMappingEnd => do
      advance
      give .mappingEnd
    | .key => do
      advance
      nodeUnless [.value, .comma, .flowMappingEnd] (node false false)
      flowValue node .flowMappingEnd
      flowPairs node bound false
    | .value => do
      give .nothing
      flowValue node .flowMappingEnd
      flowPairs node bound false
    | _ => do
      node false false
      give .nothing
      flowPairs node bound false

/-- The key of a pair in a flow sequence. A mark in its place is passed. -/
def pairKey (node : NodeGrammar) : Grammar Unit := do
  if [.value, .comma, .flowSequenceEnd].contains (← peek) then
    advance
    give .nothing
  else node false false

/-- The entries of a flow sequence; `bound` bounds their number. -/
def flowEntries (node : NodeGrammar) : (bound : Nat) → (first : Bool) → Grammar Unit
  | 0, _ => throw .missingComma
  | bound + 1, first => do
    if (← peek) != .flowSequenceEnd then separator first
    match ← peek with
    | .flowSequenceEnd => do
      advance
      give .sequenceEnd
    | .key => do
      advance
      give (.mappingStart none)
      pairKey node
      flowValue node .flowSequenceEnd
      give .mappingEnd
      flowEntries node bound false
    | _ => do
      node false false
      flowEntries node bound false

/-! ### Nodes and documents -/

/-- What a node consists of after its properties; `bound` bounds the entries of a collection. -/
def content (node : NodeGrammar) (bound : Nat) (block indentless : Bool) (anchor : Option Nat)
    (tagged : Bool) : Grammar Unit := do
  match ← peek, block, indentless with
  | .scalar style text, _, _ => do
    advance
    give (.scalar style text anchor)
  | .flowSequenceStart, _, _ => do
    advance
    give (.sequenceStart anchor)
    flowEntries node bound true
  | .flowMappingStart, _, _ => do
    advance
    give (.mappingStart anchor)
    flowPairs node bound true
  | .blockSequenceStart, true, _ => do
    advance
    give (.sequenceStart anchor)
    blockEntries node bound
  | .blockMappingStart, true, _ => do
    advance
    give (.mappingStart anchor)
    blockPairs node bound
  | .entry, _, true => do
    give (.sequenceStart anchor)
    indentlessEntries node bound
  | _, _, _ =>
    if anchor.isSome || tagged then give (.scalar .plain "~" anchor) else throw .missingContent

/-- A node; `depth` bounds the depth of nesting and the number of entries. -/
def node : (depth : Nat) → NodeGrammar
  | 0, _, _ => throw .missingContent
  | depth + 1, block, indentless => do
    match ← peek with
    | .alias name => do
      advance
      match Dict.get? (← get).anchors name with
      | some number => give (.alias number)
      | none => throw (.unknownAnchor name)
    | _ => do
      let (anchor, tagged) ← properties
      content (node depth) (depth + 1) block indentless anchor tagged

/-- The directives before a document: the last one counts; `bound` bounds their number. -/
def directives : (bound : Nat) → (versioned : Bool) → Grammar Unit
  | 0, _ => return
  | bound + 1, versioned => do
    match ← peek with
    | .directive .version =>
      if versioned then throw .directive
      else
        advance
        modify fun r => { r with handle := none }
        directives bound true
    | .directive (.handle name) => do
      advance
      modify fun r => { r with handle := some name }
      directives bound versioned
    | _ => return

/-- A document that begins with its marker. -/
def markedDocument (bound : Nat) : Grammar Unit := do
  directives bound false
  match ← peek with
  | .documentStart => do
    advance
    give .documentStart
    match ← peek with
    | .directive _ | .documentStart | .documentEnd | .streamEnd => give .nothing
    | _ => node bound true false
  | _ => throw .missingDocumentStart

/-- The end of a document; tells whether it has a marker, after which the next one needs none. -/
def documentEnd : Grammar Bool := do
  let marked := (← peek) == .documentEnd
  if marked then advance
  match marked, ← peek with
  | false, .directive _ => throw .directive
  | _, _ => do
    modify fun r => { r with handle := none }
    give .documentEnd
    return marked

/-- Passes the end markers of documents; `bound` bounds their number. -/
def skipEnds : (bound : Nat) → Grammar Unit
  | 0 => return
  | bound + 1 => do
    if (← peek) == .documentEnd then
      advance
      skipEnds bound

/-- The documents of a text; `bare` tells whether the first one may do without its marker. -/
def documents (bound : Nat) : (count : Nat) → (bare : Bool) → Grammar Unit
  | 0, _ => return
  | count + 1, bare => do
    skipEnds bound
    match ← peek, bare with
    | .streamEnd, _ => return
    | .directive _, _ | .documentStart, _ | _, false => do
      markedDocument bound
      documents bound count (← documentEnd)
    | _, true => do
      give .documentStart
      node bound true false
      documents bound count (← documentEnd)

end Grammar

/-- The events of a text. -/
def events (s : String) : Stream Event :=
  let tokens := tokenize s
  let bound := tokens.items.length + 1
  let start : Reading :=
    ⟨tokens.items, tokens.violation.getD .endOfStream, [], 0, none, []⟩
  let (result, reading) := ((Grammar.documents bound bound true).run).run start
  ⟨reading.reversed.reverse, match result with | .ok _ => none | .error violation => some violation⟩

end Stencil.Yaml
