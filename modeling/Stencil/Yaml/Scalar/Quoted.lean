import Stencil.Yaml.Cursor
import Stencil.Yaml.Scalar.Fold

/-!
# Quoted scalars

Text in single or double quotes. Line breaks in it are folded; between double quotes a backslash
escapes.

## Main definitions

* `takeEscape?` — the character an escape sequence stands for
* `readQuoted` — a quoted scalar
-/

namespace Stencil.Yaml

/-- The value of a digit of base 16. -/
def hexDigit? (c : Char) : Option Nat :=
  if c.isDigit then some (c.toNat - '0'.toNat)
  else if 'a' ≤ c ∧ c ≤ 'f' then some (c.toNat - 'a'.toNat + 10)
  else if 'A' ≤ c ∧ c ≤ 'F' then some (c.toNat - 'A'.toNat + 10)
  else none

/-- The character with a number, if there is one. -/
def charOfCode? (code : Nat) : Option Char :=
  if code.isValidChar then some (Char.ofNat code) else none

/-- The character given by so many digits of base 16, and what follows them. -/
def takeCodePoint? (digits : Nat) (cs : List Char) : Option (Char × List Char) := do
  let values ← (cs.take digits).mapM hexDigit?
  if values.length < digits then none
  else (charOfCode? (values.foldl (fun n d => 16 * n + d) 0)).map (·, cs.drop digits)

/-- The character an escape of one letter stands for. -/
def simpleEscape? : Char → Option Char
  | '0' => some '\x00'
  | 'a' => some '\x07'
  | 'b' => some '\x08'
  | 't' | '\t' => some '\t'
  | 'n' => some '\n'
  | 'v' => some '\x0b'
  | 'f' => some '\x0c'
  | 'r' => some '\r'
  | 'e' => some '\x1b'
  | ' ' => some ' '
  | '"' => some '"'
  | '/' => some '/'
  | '\\' => some '\\'
  | 'N' => some '\u0085'
  | '_' => some '\u00a0'
  | 'L' => some '\u2028'
  | 'P' => some '\u2029'
  | _ => none

/-- The character an escape sequence stands for after its backslash, and what follows it. -/
def takeEscape? : List Char → Option (Char × List Char)
  | 'x' :: cs => takeCodePoint? 2 cs
  | 'u' :: cs => takeCodePoint? 4 cs
  | 'U' :: cs => takeCodePoint? 8 cs
  | c :: cs => (simpleEscape? c).map (·, cs)
  | [] => none

/-- A word of a quoted scalar: its text, what follows it, and whether an escaped line break ends it.
-/
structure QuotedWord where
  text : List Char
  rest : List Char
  brokenOff : Bool

/-- The characters of a quoted scalar up to the next blank, line break or closing quote; `bound`
bounds their number. -/
def takeQuotedWord (quote : Char) : (bound : Nat) → List Char → Except Violation QuotedWord
  | 0, cs => .ok ⟨[], cs, false⟩
  | _, [] => .ok ⟨[], [], false⟩
  | bound + 1, c :: cs =>
    if isSpace c || isBreak c then .ok ⟨[], c :: cs, false⟩
    else if c == quote then
      if quote == '\'' && cs.head? == some '\'' then
        (takeQuotedWord quote bound cs.tail).map fun w => { w with text := '\'' :: w.text }
      else .ok ⟨[], c :: cs, false⟩
    else if c == '\\' && quote == '"' then
      if !cs.isEmpty && endsLine cs then .ok ⟨[], cs, true⟩
      else
        match takeEscape? cs with
        | some (e, cs) =>
          (takeQuotedWord quote bound cs).map fun w => { w with text := e :: w.text }
        | none => .error .escape
    else (takeQuotedWord quote bound cs).map fun w => { w with text := c :: w.text }

/-- What the gap after a word stands for: an escaped line break joins, others fold. -/
def quotedJoint (brokenOff : Bool) (spaces : List Char) (breaks : Nat) : List Char :=
  if brokenOff then List.replicate breaks '\n'
  else if breaks = 0 then spaces else foldBreaks breaks

/-- Passes the gap after a word; gives what it stands for. -/
def skipQuotedGap (indent : Int) (brokenOff : Bool) :
    (bound : Nat) → (spaces : List Char) → (breaks : Nat) → Cursor →
      Except Violation (List Char × Cursor)
  | 0, spaces, breaks, c => .ok (quotedJoint brokenOff spaces breaks, c)
  | bound + 1, spaces, breaks, c =>
    match c.rest with
    | [] => .ok (quotedJoint brokenOff spaces breaks, c)
    | ch :: _ =>
      if isBreak ch then skipQuotedGap indent brokenOff bound [] (breaks + 1) c.skipBreak
      else if !isSpace ch then .ok (quotedJoint brokenOff spaces breaks, c)
      else if brokenOff || breaks != 0 then
        if ch == '\t' && (c.column : Int) < indent then .error .tabIndentation
        else skipQuotedGap indent brokenOff bound [] breaks (c.skipSpaces 1)
      else skipQuotedGap indent brokenOff bound (spaces ++ [ch]) 0 (c.skipSpaces 1)

/-- The content of a quoted scalar after its opening quote, and the place after the closing one. -/
def readQuotedWords (quote : Char) (indent : Int) :
    (bound : Nat) → Cursor → Except Violation (List Char × Cursor)
  | 0, _ => .error .unclosedQuote
  | bound + 1, c =>
    if c.column = 0 && atMarker c.rest then .error .documentMarker
    else if c.rest.isEmpty then .error .unclosedQuote
    else if (c.column : Int) < indent then .error .indentation
    else do
      let word ← takeQuotedWord quote (c.rest.length + 1) c.rest
      let after := c.skipTo word.rest
      if after.rest.head? == some quote then .ok (word.text, after.skip 1)
      else do
        let start := if word.brokenOff then after.skipBreak else after
        let (joint, next) ←
          skipQuotedGap indent word.brokenOff (start.rest.length + 1) [] 0 start
        let (others, next) ← readQuotedWords quote indent bound next
        .ok (word.text ++ joint ++ others, next)

/-- Whether something may follow a quoted scalar on its line. -/
def mayFollowQuoted (inFlow sameLine : Bool) : List Char → Bool
  | [] => true
  | c :: _ =>
    isBreak c || (c == ':' && (inFlow || sameLine)) ||
      (inFlow && (c == ',' || c == ']' || c == '\x7d'))

/-- A quoted scalar, and the place of what follows it. -/
def readQuoted (quote : Char) (inFlow : Bool) (indent : Int) (c : Cursor) :
    Except Violation (String × Cursor) := do
  let (text, after) ← readQuotedWords quote indent (c.rest.length + 1) (c.skip 1)
  let next ← after.skipBlanks
  if mayFollowQuoted inFlow (c.line == next.line) next.rest then .ok (String.ofList text, next)
  else .error .trailingContent

end Stencil.Yaml
