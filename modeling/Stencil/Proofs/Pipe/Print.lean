import Stencil.Pipe.Basic
import Stencil.Proofs.Pipe.Path
import Stencil.Value.Text

/-!
# Printing pipes

Pipes as text with one blank on either side of a bar.

## Main definitions

* `Pipe.Arg.chars`, `Pipe.Stage.chars` — the texts of arguments and of stages after a bar
* `Pipe.text` — a pipe as text
* `Pipe.Closed` — a text that opens and closes quotes and brackets in pairs, with no single bar
  outside of them
* `Pipe.Printable` — the pipes that have a text of their own

## Design notes

What is printable is told by the characters of the texts, without the scanners that divide them.  A
pipe that begins with a path keeps the text that the path was read from, and the printer gives it
back.  A filter in front stands with parentheses even if it has no arguments, since a name there
would be a path.

An expression that has the shape of a call is read as a filter, so it has no text of its own.
Strings in the arguments of a filter have no escapes, and those of expressions do; a call is told by
the former, and where a text is divided by the latter.
-/

namespace Stencil

open Text

namespace Pipe

/-! ### Texts -/

/-- The text of an argument. -/
def Arg.chars : Arg → List Char
  | .literal (.str s) => '\'' :: (s.toList ++ ['\''])
  | .literal v => v.display.toList
  | .token text => text.toList

/-- The text of some arguments. -/
def argsChars (args : List Arg) : List Char := [',', ' '].intercalate (args.map Arg.chars)

/-- The text of a filter with parentheses. -/
def callChars (name : String) (args : List Arg) : List Char :=
  name.toList ++ '(' :: (argsChars args ++ [')'])

/-- The text of a stage after a bar. -/
def Stage.chars : Stage → List Char
  | .filter name [] => name.toList
  | .filter name args => callChars name args
  | .expression source => source.toList

/-- The texts between the bars of a pipe. -/
def pieces : Pipe → List (List Char)
  | ⟨some initial, stages⟩ => initial.source.toList :: stages.map Stage.chars
  | ⟨none, .filter name args :: stages⟩ => callChars name args :: stages.map Stage.chars
  | ⟨none, stages⟩ => stages.map Stage.chars

/-- A pipe as text. -/
def text (p : Pipe) : String := String.ofList ([' ', '|', ' '].intercalate p.pieces)

/-! ### What has a text of its own -/

/-- Names with points between them. -/
inductive Dotted : List Char → Prop where
  | name {word : List Char} : isName word = true → Dotted word
  | point {word rest : List Char} : isName word = true → Dotted rest → Dotted (word ++ '.' :: rest)

/-- An argument that is read as itself: a string without escapes, an integer, a truth value, or a
path that is no number and no truth value. -/
inductive Arg.Printable : Arg → Prop where
  | str {s : String} : (∀ c ∈ s.toList, c ≠ '\'' ∧ c ≠ '\\') → Printable (.literal (.str s))
  | int (i : Int64) : Printable (.literal (.int i))
  | bool (b : Bool) : Printable (.literal (.bool b))
  | token {text : String} : Dotted text.toList → boolWord? text.toList = none →
      Decimal.readFloat? text.toList = none → Printable (.token text)

/-- What is left of a text when some brackets are open and one quote may be: it closes them all, and
has no single bar outside of brackets and quotes. A backslash within quotes escapes. -/
inductive Closed : (depth : Nat) → (quote : Option Char) → List Char → Prop where
  | nil : Closed 0 none []
  | ordinary {depth : Nat} {c : Char} {cs : List Char} : isQuote c = false → opens c = false →
      closes c = false → c ≠ '|' → Closed depth none cs → Closed depth none (c :: cs)
  | opening {depth : Nat} {c : Char} {cs : List Char} : opens c = true →
      Closed (depth + 1) none cs → Closed depth none (c :: cs)
  | closing {depth : Nat} {c : Char} {cs : List Char} : closes c = true →
      Closed depth none cs → Closed (depth + 1) none (c :: cs)
  | bar {depth : Nat} {cs : List Char} : Closed (depth + 1) none cs →
      Closed (depth + 1) none ('|' :: cs)
  | bars {depth : Nat} {cs : List Char} : Closed depth none cs →
      Closed depth none ('|' :: '|' :: cs)
  | quoting {depth : Nat} {q : Char} {cs : List Char} : isQuote q = true →
      Closed depth (some q) cs → Closed depth none (q :: cs)
  | quoted {depth : Nat} {q c : Char} {cs : List Char} : c ≠ q → c ≠ '\\' →
      Closed depth (some q) cs → Closed depth (some q) (c :: cs)
  | escaped {depth : Nat} {q c : Char} {cs : List Char} : Closed depth (some q) cs →
      Closed depth (some q) ('\\' :: c :: cs)
  | unquoting {depth : Nat} {q : Char} {cs : List Char} : Closed depth none cs →
      Closed depth (some q) (q :: cs)

/-- A stage that is read as itself after a bar. -/
inductive Stage.Printable : Stage → Prop where
  | filter {name : String} {args : List Arg} : isName name.toList = true →
      (∀ a ∈ args, a.Printable) → Printable (.filter name args)
  | expression {source : String} : IsTrimmed source.toList → isName source.toList = false →
      asCall? source.toList = none → Closed 0 none source.toList → Printable (.expression source)

/-- A pipe that begins with a path or a filter, all of it read as itself. -/
inductive Printable : Pipe → Prop where
  | path {initial : Initial} {stages : List Stage} : initial.path.Written initial.source.toList →
      (∀ stage ∈ stages, stage.Printable) → Printable ⟨some initial, stages⟩
  | call {name : String} {args : List Arg} {stages : List Stage} : isName name.toList = true →
      (∀ a ∈ args, a.Printable) → (∀ stage ∈ stages, stage.Printable) →
      Printable ⟨none, .filter name args :: stages⟩

end Pipe
end Stencil
