import Stencil.Yaml.Cursor

/-!
# Block scalars

Indented lines of text after a header: literal ones keep their line breaks, folded ones join lines.

## Main definitions

* `BlockHeader`, `readBlockHeader` — how the end is chomped, and an explicit indentation
* `readBlockLines` — the lines of text
* `readBlock` — a block scalar
-/

namespace Stencil.Yaml

/-- What becomes of the line breaks at the end. -/
inductive Chomping where
  | strip | clip | keep
  deriving DecidableEq

/-- The header of a block scalar; no explicit indentation is zero. -/
structure BlockHeader where
  chomping : Chomping
  indentation : Nat

/-- A chomping mark at the start of a text. -/
def takeChomping? : List Char → Option (Chomping × List Char)
  | '+' :: cs => some (.keep, cs)
  | '-' :: cs => some (.strip, cs)
  | _ => none

/-- An indentation digit at the start of a text, zero if there is none. -/
def takeIndentation : List Char → Except Violation (Nat × List Char)
  | '0' :: _ => .error .blockHeader
  | c :: cs => .ok (if c.isDigit then (c.toNat - '0'.toNat, cs) else (0, c :: cs))
  | [] => .ok (0, [])

/-- A chomping mark and an indentation digit, in either order. -/
def readBlockHeader (cs : List Char) : Except Violation (BlockHeader × List Char) :=
  match takeChomping? cs with
  | some (chomping, cs) => (takeIndentation cs).map fun (n, cs) => (⟨chomping, n⟩, cs)
  | none => do
    let (n, cs) ← takeIndentation cs
    if n = 0 then .ok (⟨.clip, 0⟩, cs)
    else
      match takeChomping? cs with
      | some (chomping, cs) => .ok (⟨chomping, n⟩, cs)
      | none => .ok (⟨.clip, n⟩, cs)

/-- Passes the spaces of an indentation. -/
def skipIndentation (indent : Nat) (c : Cursor) : Cursor :=
  c.skipSpaces ((c.rest.take (indent - c.column)).takeWhile (· == ' ')).length

/-- Passes empty lines and the indentation after them; counts their line breaks. -/
def skipEmptyLines (indent : Nat) : (bound breaks : Nat) → Cursor → Nat × Cursor
  | 0, breaks, c => (breaks, c)
  | bound + 1, breaks, c =>
    let after := skipIndentation indent c
    if !after.rest.isEmpty && endsLine after.rest then
      skipEmptyLines indent bound (breaks + 1) after.skipBreak
    else (breaks, after)

/-- Passes lines of spaces alone and the spaces after them. Also gives the greatest column reached.
-/
def skipSpaceLines : (bound breaks widest : Nat) → Cursor → Nat × Nat × Cursor
  | 0, breaks, widest, c => (breaks, widest, c)
  | bound + 1, breaks, widest, c =>
    let after := c.skipSpaces (c.rest.takeWhile (· == ' ')).length
    let widest := max widest after.column
    if !after.rest.isEmpty && endsLine after.rest then
      skipSpaceLines bound (breaks + 1) widest after.skipBreak
    else (breaks, widest, after)

/-- Where a line of a block scalar stands after the last one: whether that ended with a line break,
how many empty lines came since, and whether it began with a blank. -/
structure BlockState where
  broken : Bool
  breaks : Nat
  spaced : Bool

/-- The line breaks between the last line and what follows. -/
def BlockState.lineBreaks (s : BlockState) : List Char :=
  (if s.broken then ['\n'] else []) ++ List.replicate s.breaks '\n'

/-- What stands between the last line and a next one. A folded line break is a space, unless empty
lines follow or one of the lines begins with a blank. -/
def BlockState.joint (s : BlockState) (literal spaced : Bool) : List Char :=
  if !literal && s.broken && !s.spaced && !spaced then
    if s.breaks = 0 then [' '] else List.replicate s.breaks '\n'
  else s.lineBreaks

/-- The lines of a block scalar, with the state after them. -/
def readBlockLines (literal : Bool) (indent : Nat) :
    (bound : Nat) → BlockState → Cursor → List Char × BlockState × Cursor
  | 0, s, c => ([], s, c)
  | bound + 1, s, c =>
    if c.column != indent || c.rest.isEmpty || (indent == 0 && endsDocument c.rest) then ([], s, c)
    else
      let line := c.rest.takeWhile (!isBreak ·)
      let spaced := (c.rest.head?.map isSpace).getD false
      let text := s.joint literal spaced ++ line
      let after := c.skipLine
      if after.rest.isEmpty then (text, ⟨false, 0, spaced⟩, after)
      else
        let (breaks, next) := skipEmptyLines indent (after.rest.length + 1) 0 after.skipBreak
        let (others, s, next) := readBlockLines literal indent bound ⟨true, breaks, spaced⟩ next
        (text ++ others, s, next)

/-- The end of a block scalar after chomping; a last line that ends with the text counts as broken.
-/
def blockEnd (chomping : Chomping) (indent : Nat) (s : BlockState) (c : Cursor) : List Char :=
  let clipped :=
    (if s.broken then ['\n'] else []) ++
      (if c.rest.isEmpty && max indent 1 ≤ c.column then ['\n'] else [])
  match chomping with
  | .strip => []
  | .clip => clipped
  | .keep => clipped ++ List.replicate s.breaks '\n'

/-- A block scalar without any line of text. -/
def emptyBlock (chomping : Chomping) (sameLine headed : Bool) (breaks : Nat) : List Char :=
  if sameLine then []
  else
    match chomping with
    | .strip => []
    | .clip => if headed then ['\n'] else []
    | .keep => if breaks = 0 then (if headed then ['\n'] else []) else List.replicate breaks '\n'

/-- The indentation of the text, and the cursor at its first line with the line breaks passed. -/
def findBlockIndent (indentation : Nat) (parent : Int) (c : Cursor) : Nat × Nat × Cursor :=
  if indentation = 0 then
    let (breaks, widest, after) := skipSpaceLines (c.rest.length + 1) 0 0 c
    (max widest (parent + 1).toNat, breaks, after)
  else
    let indent := if 0 ≤ parent then (parent + indentation).toNat else indentation
    let (breaks, after) := skipEmptyLines indent (c.rest.length + 1) 0 c
    (indent, breaks, after)

/-- A block scalar after its mark, within a collection at the column `parent`; and the place after
it. -/
def readBlock (literal : Bool) (parent : Int) (c : Cursor) :
    Except Violation (String × Cursor) := do
  let (header, rest) ← readBlockHeader c.rest
  let headerEnd ← (c.skipTo rest).skipBlanks
  if !endsLine headerEnd.rest then .error .blockHeader
  else
    let body := headerEnd.skipBreak
    if body.rest.head? == some '\t' then .error .tabIndentation
    else
      let (indent, breaks, first) := findBlockIndent header.indentation parent body
      if first.rest.isEmpty then
        let headed := !headerEnd.rest.isEmpty
        .ok (String.ofList (emptyBlock header.chomping (first.line == c.line) headed breaks), first)
      else if first.column < indent && parent < (first.column : Int) then .error .indentation
      else
        let (text, s, after) :=
          readBlockLines literal indent (first.rest.length + 1) ⟨false, breaks, false⟩ first
        .ok (String.ofList (text ++ blockEnd header.chomping indent s after), after)

end Stencil.Yaml
