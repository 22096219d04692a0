import Stencil.Text.Blank
import Stencil.Text.Name

/-!
# Paths

References to data such as `a.b[0]['c'][i]`.

## Main definitions

* `Path`, `Path.Step` — a head and the steps from it
* `Path.parse?` — the path of a text

## Design notes

A bracket reaches to the first closing bracket, whatever stands between; only a quoted text, a
number or a name may. A number is a key like any other.
-/

namespace Stencil

/-- A step of a path: to the member under a key, or under the value of a variable. -/
inductive Path.Step where
  | key (key : String)
  | variable (name : String)
  deriving DecidableEq, Repr

/-- A reference to data: a top-level name and steps from its value. A number is a key like any
other, which a sequence reads as a position. -/
structure Path where
  head : String
  steps : List Path.Step
  deriving DecidableEq, Repr

namespace Path

open Text

/-- The step of a bracket with the given content. -/
def bracketStep? (inner : List Char) : Option Step :=
  match unquote? inner with
  | some text => some (.key (String.ofList text))
  | none =>
    if !inner.isEmpty && inner.all Char.isDigit then some (.key (String.ofList inner))
    else if isName inner then some (.variable (String.ofList inner))
    else none

/-- The step at the start of a text, and what follows it. -/
def takeStep? : List Char → Option (Step × List Char)
  | '.' :: cs =>
    let name := cs.takeWhile isNameChar
    if name.isEmpty then none else some (.key (String.ofList name), cs.dropWhile isNameChar)
  | '[' :: cs => do
    let (inner, rest) ← splitOnce? [']'] cs
    let step ← bracketStep? (trim inner)
    some (step, rest)
  | _ => none

/-- The steps that make up all of a text; `bound` bounds their number. -/
def readSteps? : (bound : Nat) → List Char → Option (List Step)
  | _, [] => some []
  | 0, _ :: _ => none
  | bound + 1, c :: cs => do
    let (step, rest) ← takeStep? (c :: cs)
    let steps ← readSteps? bound rest
    some (step :: steps)

/-- The path of a text without outer blanks. -/
def ofChars? : List Char → Option Path
  | [] => none
  | c :: cs =>
    if isNameStart c then
      let rest := cs.dropWhile isNameChar
      (readSteps? rest.length rest).map fun steps =>
        ⟨String.ofList (c :: cs.takeWhile isNameChar), steps⟩
    else none

/-- The path of a text, outer blanks aside. -/
def parse? (s : String) : Option Path := ofChars? (trim s.toList)

end Path
end Stencil
