import Stencil.Text.Quoted

/-!
# Errors in YAML

## Main definitions

* `Yaml.Violation` — the rules of the grammar a text can break
* `Yaml.Error`, `Yaml.Error.message` — why a text has no value, and its wording
-/

namespace Stencil.Yaml

/-- A rule of the grammar that a text breaks. -/
inductive Violation where
  | tabIndentation | indentation | gluedComment | documentMarker
  | unclosedQuote | trailingContent | escape
  | blockHeader | emptyScalar | dashBeforeMark
  | directive | tag | undeclaredHandle (handle : String)
  | anchorName | unknownAnchor (name : String)
  | keyPlace | valuePlace | entryPlace | lineBreakInKey | missingColon | missingBlank
  | bracket | nesting | reservedCharacter (c : Char)
  | missingContent | missingDocumentStart | missingKey | missingEntry | missingComma | endOfStream
  deriving DecidableEq, Repr

/-- What a broken rule is called. -/
def Violation.message : Violation → String
  | .tabIndentation => "a tab cannot indent content"
  | .indentation => "invalid indentation"
  | .gluedComment => "a comment needs a blank before it"
  | .documentMarker => "unexpected document marker"
  | .unclosedQuote => "unexpected end of a quoted scalar"
  | .trailingContent => "unexpected content at the end of a line"
  | .escape => "invalid escape sequence"
  | .blockHeader => "invalid header of a block scalar"
  | .emptyScalar => "unexpected end of a plain scalar"
  | .dashBeforeMark => "a dash cannot stand before a flow mark"
  | .directive => "invalid directive"
  | .tag => "invalid tag"
  | .undeclaredHandle handle => s!"tag handle {Text.quoted handle} is not declared"
  | .anchorName => "expected an anchor name"
  | .unknownAnchor name => s!"unknown anchor {Text.quoted name}"
  | .keyPlace => "a key is not allowed here"
  | .valuePlace => "a value is not allowed here"
  | .entryPlace => "an entry is not allowed here"
  | .lineBreakInKey => "a key cannot span lines"
  | .missingColon => "expected a colon after a key"
  | .missingBlank => "expected a blank"
  | .bracket => "misplaced bracket"
  | .nesting => "collections are nested too deeply"
  | .reservedCharacter c => s!"unexpected character {Text.quotedChar c}"
  | .missingContent => "expected content"
  | .missingDocumentStart => "expected the start of a document"
  | .missingKey => "expected a key"
  | .missingEntry => "expected an entry"
  | .missingComma => "expected a comma or a closing bracket"
  | .endOfStream => "unexpected end of stream"

/-- Why a text has no value: it breaks a rule of the grammar, or its events are not those of a
document. -/
inductive Error where
  | malformed (violation : Violation)
  | unexpectedEnd
  | missingValue (key : String)
  | unexpectedEvent
  deriving DecidableEq, Repr

/-- The wording of an error. -/
def Error.message : Error → String
  | .malformed violation => s!"YAML: {violation.message}"
  | .unexpectedEnd => "YAML: unexpected end of input"
  | .missingValue key => s!"YAML: missing value for key {Text.quoted key}"
  | .unexpectedEvent => "YAML: unexpected document structure event"

end Stencil.Yaml
