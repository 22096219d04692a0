import Stencil.Markup.Escape
import Stencil.Scope.Eval

/-!
# Interpolation

Text with expressions between double braces.

## Main definitions

* `Interpolation.Piece`, `Interpolation.split` — the static pieces and the expressions of a text
* `Interpolation.interpolate` — the text with the values of its expressions
* `Interpolation.isIn` — whether a text has an opening pair of braces

## Design notes

Quotes count only within an expression, where they can hide a closing pair of braces. An opening
pair that is never closed is static text, with all that follows.
-/

namespace Stencil.Interpolation

open Text

/-- A part of a text. -/
inductive Piece where
  | static (text : List Char)
  | code (source : List Char)

/-- The opening pair of braces. -/
def opening : List Char := ['\x7b', '\x7b']

/-- The closing pair of braces. -/
def closing : List Char := ['\x7d', '\x7d']

/-- Whether a text has an opening pair of braces. -/
def isIn (s : String) : Bool := hasInfix opening s.toList

/-- The text up to the closing pair of braces outside of quotes, and what follows the pair. -/
def takeCode? : (quote : Option Char) → List Char → Option (List Char × List Char)
  | _, [] => none
  | none, '\x7d' :: '\x7d' :: cs => some ([], cs)
  | none, c :: cs =>
    (takeCode? (if isQuote c then some c else none) cs).map fun (code, rest) => (c :: code, rest)
  | some _, ['\\'] => none
  | some q, '\\' :: c :: cs =>
    (takeCode? (some q) cs).map fun (code, rest) => ('\\' :: c :: code, rest)
  | some q, c :: cs =>
    (takeCode? (if c == q then none else some q) cs).map fun (code, rest) => (c :: code, rest)

/-- The pieces of a text; `bound` bounds the number of expressions. -/
def splitUpTo : (bound : Nat) → List Char → List Piece
  | 0, cs => [.static cs]
  | bound + 1, cs =>
    match splitOnce? opening cs with
    | none => [.static cs]
    | some (before, after) =>
      match takeCode? none after with
      | none => [.static cs]
      | some (code, rest) => .static before :: .code (trim code) :: splitUpTo bound rest

/-- The static pieces and the expressions of a text. -/
def split (s : String) : List Piece := splitUpTo s.toList.length s.toList

/-- The text of a value; `escaped` tells whether it is escaped for markup. -/
def valueText (escaped : Bool) (v : Value) : List Char :=
  let text := v.display.toList
  if escaped then Markup.escapeChars text else text

/-- The text of some pieces with the values of their expressions. -/
def evalPieces (scope : Scope) (escaped : Bool) : List Piece → Evaluation (List Char)
  | [] => return []
  | .static text :: pieces => do
    let rest ← evalPieces scope escaped pieces
    return text ++ rest
  | .code source :: pieces => do
    let v ← scope.evalPipe (String.ofList source)
    let rest ← evalPieces scope escaped pieces
    return valueText escaped v ++ rest

/-- The text with the values of its expressions in their places. -/
def interpolate (scope : Scope) (s : String) (escaped : Bool) : Evaluation String := do
  return String.ofList (← evalPieces scope escaped (split s))

end Stencil.Interpolation
