import Stencil.Text.Blank
import Stencil.Text.Name

/-!
# Splitting at the top level

Separators outside of quotes and brackets.

## Main definitions

* `splitTopLevel` — the pieces between top-level separators
* `topLevelPositions` — the byte positions of top-level separators
* `splitArgs` — the arguments between top-level commas
* `hasTopLevelPipe` — whether a text is a chain of pipe stages
* `asCall?` — the name and the arguments of a call that makes up all of a text

## Design notes

A bar that is doubled is an operator and separates nothing. Within quotes a backslash keeps the next
character from ending them.

Pieces are found by characters and positions by bytes: what separates, nests or escapes is a single
byte, and the bytes of other characters are none of these.
-/

namespace Stencil.Pipe

open Text

/-- Where a scan stands: how many brackets are open and which quote. Kinds of brackets are not told
apart, and a closing one may come first. -/
structure Nesting where
  depth : Int
  quote : Option Char
  deriving DecidableEq, Repr

/-- Outside of everything. -/
def Nesting.top : Nesting := ⟨0, none⟩

/-- Whether a separator would count here. -/
def Nesting.isTop (n : Nesting) : Bool := n.depth == 0 && n.quote.isNone

/-- Whether a character opens a bracket. -/
def opens (c : Char) : Bool := c == '(' || c == '[' || c == '\x7b'

/-- Whether a character closes a bracket. -/
def closes (c : Char) : Bool := c == ')' || c == ']' || c == '\x7d'

/-- The nesting after a character, other than a backslash within quotes. -/
def Nesting.after (n : Nesting) (c : Char) : Nesting :=
  match n.quote with
  | some q => if c == q then { n with quote := none } else n
  | none =>
    if isQuote c then { n with quote := some c }
    else if opens c then { n with depth := n.depth + 1 }
    else if closes c then { n with depth := n.depth - 1 }
    else n

/-- Puts a character at the front of the first of some pieces. -/
def extendFirst (c : Char) : List (List Char) → List (List Char)
  | [] => [[c]]
  | piece :: pieces => (c :: piece) :: pieces

/-- The pieces of a text between the separators at the top level, seen from a nesting. -/
def splitFrom (sep : Char) (n : Nesting) : List Char → List (List Char)
  | [] => [[]]
  | [c] => if n.isTop && c == sep then [[], []] else [[c]]
  | c :: d :: cs =>
    if c == '\\' && n.quote.isSome then extendFirst c (extendFirst d (splitFrom sep n cs))
    else if n.isTop && c == sep then
      if sep == '|' && d == '|' then extendFirst c (extendFirst d (splitFrom sep n cs))
      else [] :: splitFrom sep n (d :: cs)
    else extendFirst c (splitFrom sep (n.after c) (d :: cs))

/-- The pieces of a text between the separators at the top level, at least one. -/
def splitTopLevel (sep : Char) (cs : List Char) : List (List Char) := splitFrom sep .top cs

/-- The positions of the separators at the top level in bytes, seen from a position and a nesting,
after `skip` bytes that count for nothing. -/
def positionsFrom (sep : Char) : (skip position : Nat) → Nesting → List UInt8 → List Nat
  | _, _, _, [] => []
  | skip + 1, position, n, _ :: bytes => positionsFrom sep skip (position + 1) n bytes
  | 0, position, n, b :: bytes =>
    let c := Char.ofUInt8 b
    if c == '\\' && n.quote.isSome then positionsFrom sep 1 (position + 1) n bytes
    else if n.isTop && c == sep then
      if sep == '|' && bytes.head? == some '|'.toUInt8 then
        positionsFrom sep 1 (position + 1) n bytes
      else position :: positionsFrom sep 0 (position + 1) n bytes
    else positionsFrom sep 0 (position + 1) (n.after c) bytes

/-- The byte positions of the separators at the top level. -/
def topLevelPositions (sep : Char) (cs : List Char) : List Nat :=
  positionsFrom sep 0 0 .top (utf8 cs)

/-- Whether a text has a bar at its top level. -/
def hasTopLevelPipe (s : String) : Bool := 1 < (splitTopLevel '|' s.toList).length

/-- The arguments between the commas of a text, none if it is blank. -/
def splitArgs (cs : List Char) : List (List Char) :=
  if isBlankText cs then [] else (splitTopLevel ',' cs).map trim

/-- Whether the parentheses of a text outside of quotes are balanced and never close too early. -/
def balanced : (depth : Nat) → (quote : Option Char) → List Char → Bool
  | depth, _, [] => depth == 0
  | depth, some q, c :: cs => balanced depth (if c == q then none else some q) cs
  | depth, none, c :: cs =>
    if isQuote c then balanced depth (some c) cs
    else if c == '(' then balanced (depth + 1) none cs
    else if c == ')' then
      match depth with
      | 0 => false
      | depth + 1 => balanced depth none cs
    else balanced depth none cs

/-- What stands between an opening parenthesis and a closing one at the ends of a text. -/
def betweenParens? : List Char → Option (List Char)
  | '(' :: cs => if cs.getLast? == some ')' then some cs.dropLast else none
  | _ => none

/-- The name and the text of the arguments, if all of a text is one call. -/
def asCall? (cs : List Char) : Option (List Char × List Char) :=
  match trim cs with
  | [] => none
  | c :: cs =>
    if isNameStart c then
      (betweenParens? (cs.dropWhile isNameChar)).bind fun inner =>
        if balanced 0 none inner then some (c :: cs.takeWhile isNameChar, inner) else none
    else none

end Stencil.Pipe
