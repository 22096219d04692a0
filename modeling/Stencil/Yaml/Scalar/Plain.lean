import Stencil.Yaml.Cursor
import Stencil.Yaml.Scalar.Fold

/-!
# Plain scalars

Text without quotes. It ends at a comment, at a colon with a blank after it, at a line that is not
indented enough and, within flow collections, at their marks.

## Main definitions

* `takeWord` — the next characters without a blank
* `readPlain` — a plain scalar
-/

namespace Stencil.Yaml

/-- Whether a character before `cs` may belong to a plain scalar. -/
def mayBePlain (inFlow : Bool) (c : Char) (cs : List Char) : Bool :=
  if c == ':' then !(endsWord cs || (inFlow && startsFlowMark cs))
  else !(inFlow && isFlowMark c)

/-- The characters of a plain scalar up to the next blank or line break. -/
def takeWord (inFlow : Bool) : List Char → List Char
  | [] => []
  | c :: cs =>
    if isSpace c || isBreak c || !mayBePlain inFlow c cs then []
    else c :: takeWord inFlow cs

/-- Passes the gap after a word; gives what it stands for. The indentation of a line in it may not
use tabs, unless the line is empty. -/
def skipPlainGap (indent : Int) :
    (bound : Nat) → (spaces : List Char) → (breaks : Nat) → Cursor →
      Except Violation (List Char × Cursor)
  | 0, spaces, breaks, c => .ok (if breaks = 0 then spaces else foldBreaks breaks, c)
  | bound + 1, spaces, breaks, c =>
    match c.rest with
    | [] => .ok (if breaks = 0 then spaces else foldBreaks breaks, c)
    | ch :: _ =>
      if isBreak ch then skipPlainGap indent bound [] (breaks + 1) c.skipBreak
      else if !isSpace ch then .ok (if breaks = 0 then spaces else foldBreaks breaks, c)
      else if breaks = 0 then skipPlainGap indent bound (spaces ++ [ch]) 0 (c.skipSpaces 1)
      else if (c.column : Int) < indent && ch == '\t' then do
        let after ← c.skipBlanks
        if endsLine after.rest then skipPlainGap indent bound [] breaks after
        else .error .tabIndentation
      else skipPlainGap indent bound [] breaks (c.skipSpaces 1)

/-- The words of a plain scalar; `joint` is what the gap before the next one stands for. -/
def readPlainWords (inFlow : Bool) (indent : Int) :
    (bound : Nat) → (joint : List Char) → Cursor → Except Violation (List Char × Cursor)
  | 0, _, c => .ok ([], c)
  | bound + 1, joint, c =>
    if (c.leading && atMarker c.rest) || c.rest.head? == some '#' then .ok ([], c)
    else if inFlow && c.rest.head? == some '-' && startsFlowMark c.rest.tail then
      .error .dashBeforeMark
    else
      let word := takeWord inFlow c.rest
      if word.isEmpty then .ok ([], c)
      else do
        let after := c.skip word.length
        if after.rest.isEmpty || !endsWord after.rest then .ok (joint ++ word, after)
        else do
          let (gap, next) ← skipPlainGap indent (after.rest.length + 1) [] 0 after
          if !inFlow && (next.column : Int) < indent then .ok (joint ++ word, next)
          else do
            let (others, next) ← readPlainWords inFlow indent bound gap next
            .ok (joint ++ word ++ others, next)

/-- A plain scalar whose lines are indented by `indent` at least, and the place after it. -/
def readPlain (inFlow : Bool) (indent : Int) (c : Cursor) : Except Violation (String × Cursor) :=
  if inFlow && (c.column : Int) < indent then .error .indentation
  else do
    let (text, after) ← readPlainWords inFlow indent (c.rest.length + 1) [] c
    if text.isEmpty then .error .emptyScalar else .ok (String.ofList text, after)

end Stencil.Yaml
