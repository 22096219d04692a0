import Stencil.Yaml.Error

/-!
# Places in a YAML text

## Main definitions

* `isSpace`, `isBreak`, `isFlowMark`, `isWordChar` — the character classes of the grammar
* `endsWord`, `endsLine`, `startsDocument`, `endsDocument` — what the rest of a text begins with
* `Cursor` — a place, with its line, its column and what follows
* `Cursor.skipGap`, `Cursor.skipToContent` — passing blanks and comments

## Design notes

A cursor is `leading` while nothing but blanks and comments has been passed on its line; only there
do blanks indent. Text ends at its first null character.
-/

namespace Stencil.Yaml

/-! ### Characters -/

/-- A blank within a line. -/
def isSpace (c : Char) : Bool := c == ' ' || c == '\t'

/-- A line break. -/
def isBreak (c : Char) : Bool := c == '\n' || c == '\r'

/-- A mark of the flow collections. -/
def isFlowMark (c : Char) : Bool :=
  c == ',' || c == '[' || c == ']' || c == '\x7b' || c == '\x7d'

/-- A character of directive names and tag handles. -/
def isWordChar (c : Char) : Bool := c.isAlphanum || c == '_' || c == '-'

/-- Whether a blank, a line break or the end comes next. -/
def endsWord : List Char → Bool
  | [] => true
  | c :: _ => isSpace c || isBreak c

/-- Whether a line break or the end comes next. -/
def endsLine : List Char → Bool
  | [] => true
  | c :: _ => isBreak c

/-- Whether a mark of the flow collections comes next. -/
def startsFlowMark (cs : List Char) : Bool := (cs.head?.map isFlowMark).getD false

/-- Whether the marker of a document's start comes next. -/
def startsDocument : List Char → Bool
  | '-' :: '-' :: '-' :: cs => endsWord cs
  | _ => false

/-- Whether the marker of a document's end comes next. -/
def endsDocument : List Char → Bool
  | '.' :: '.' :: '.' :: cs => endsWord cs
  | _ => false

/-- Whether a document marker comes next. -/
def atMarker (cs : List Char) : Bool := startsDocument cs || endsDocument cs

/-! ### Cursors -/

/-- A place in a text. -/
structure Cursor where
  rest : List Char
  index : Nat
  line : Nat
  column : Nat
  leading : Bool

namespace Cursor

/-- The start of a text. -/
def start (cs : List Char) : Cursor := ⟨cs.takeWhile (· != '\x00'), 0, 0, 0, true⟩

/-- Passes characters that leave open whether blanks indent. -/
def skipSpaces (c : Cursor) (count : Nat) : Cursor :=
  { c with rest := c.rest.drop count, index := c.index + count, column := c.column + count }

/-- Passes characters of content. -/
def skip (c : Cursor) (count : Nat) : Cursor := { c.skipSpaces count with leading := false }

/-- Passes the content before a later place of the same line. -/
def skipTo (c : Cursor) (rest : List Char) : Cursor :=
  if rest.length < c.rest.length then c.skip (c.rest.length - rest.length) else c

/-- Passes a line break, if one comes next. -/
def skipBreak (c : Cursor) : Cursor :=
  match c.rest with
  | '\r' :: '\n' :: cs => ⟨cs, c.index + 2, c.line + 1, 0, true⟩
  | '\r' :: cs | '\n' :: cs => ⟨cs, c.index + 1, c.line + 1, 0, true⟩
  | _ => c

/-- Passes everything up to the end of the line. -/
def skipLine (c : Cursor) : Cursor :=
  c.skipSpaces (c.rest.takeWhile (!isBreak ·)).length

/-- The blanks passed in a gap. -/
structure Gap where
  spaces : Bool
  tabs : Bool

/-- Passes blanks, and a comment after them, up to the end of the line; `tabs` tells whether tabs
count. -/
def skipGap (c : Cursor) (tabs : Bool) : Except Violation (Cursor × Gap) :=
  let blanks := c.rest.takeWhile fun ch => ch == ' ' || (tabs && ch == '\t')
  let after := c.skipSpaces blanks.length
  let gap : Gap := ⟨blanks.contains ' ', blanks.contains '\t'⟩
  match after.rest with
  | '#' :: _ => if blanks.isEmpty then .error .gluedComment else .ok (after.skipLine, gap)
  | _ => .ok (after, gap)

/-- Passes blanks and a comment up to the end of the line. -/
def skipBlanks (c : Cursor) : Except Violation Cursor := (c.skipGap true).map (·.1)

/-- Passes blanks, comments and line breaks; `bound` bounds their number. Also tells whether there
was a line break. A tab may not indent content up to the column `indent`. -/
def skipUpToContent (indent : Int) : (bound : Nat) → Cursor → Except Violation (Cursor × Bool)
  | 0, c => .ok (c, false)
  | bound + 1, c =>
    match c.rest with
    | ' ' :: _ => skipUpToContent indent bound (c.skipSpaces 1)
    | '\t' :: _ =>
      if c.leading && (c.column : Int) < indent then do
        let after ← c.skipBlanks
        if endsLine after.rest then skipUpToContent indent bound after
        else .error .tabIndentation
      else skipUpToContent indent bound (c.skipSpaces 1)
    | '#' :: _ => skipUpToContent indent bound c.skipLine
    | '\n' :: _ | '\r' :: _ =>
      (skipUpToContent indent bound c.skipBreak).map fun (after, _) => (after, true)
    | _ => .ok (c, false)

/-- Passes blanks, comments and line breaks up to the next content. -/
def skipToContent (c : Cursor) (indent : Int) : Except Violation (Cursor × Bool) :=
  c.skipUpToContent indent (c.rest.length + 1)

end Cursor
end Stencil.Yaml
