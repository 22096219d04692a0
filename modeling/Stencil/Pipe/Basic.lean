import Stencil.Decimal.Read
import Stencil.Path
import Stencil.Pipe.TopLevel
import Stencil.Value.Basic

/-!
# Pipes

The language of bindings: a value and the stages it goes through, as in `name | trim |
default('x')`.

## Main definitions

* `Pipe`, `Pipe.Stage`, `Pipe.Arg` — a pipe and its parts
* `Pipe.parse` — the pipe of a text; every text is one
* `Pipe.asPath?` — the path that is all of a pipe

## Design notes

A piece of text is classified by its shape: a name or a call is a filter stage, a path at the start
is the initial value, and anything else is left to the expression language.
-/

namespace Stencil

/-- An argument of a filter: a value, or text that is a path if it resolves and itself otherwise.
Which of them it is, is told by its shape alone. -/
inductive Pipe.Arg where
  | literal (v : Value)
  | token (text : String)

/-- A stage of a pipe: a filter, or an expression that sees the current value. A stage with the
shape of neither a name nor a call is an expression. -/
inductive Pipe.Stage where
  | filter (name : String) (args : List Pipe.Arg)
  | expression (source : String)

/-- The path a pipe starts with, and its text. -/
structure Pipe.Initial where
  source : String
  path : Path

/-- A value and the stages it goes through. There is no value in front if a pipe does not begin with
a path; its first stage gives one then. -/
structure Pipe where
  initial : Option Pipe.Initial
  stages : List Pipe.Stage

namespace Pipe

open Text

/-- The truth value of a word. -/
def boolWord? (cs : List Char) : Option Bool :=
  if cs == "true".toList then some true else if cs == "false".toList then some false else none

/-- The argument of a text without outer blanks. -/
def argOf (cs : List Char) : Arg :=
  match unquote? cs with
  | some text => .literal (.str (String.ofList text))
  | none =>
    match Decimal.readInt64? cs with
    | some i => .literal (.int i)
    | none =>
      match Decimal.readFloat? cs with
      | some x => .literal (.float x)
      | none =>
        match boolWord? cs with
        | some b => .literal (.bool b)
        | none => .token (String.ofList cs)

/-- The argument of a text. -/
def parseArg (s : String) : Arg := argOf (trim s.toList)

/-- The filter stage of a name and the text of its arguments. -/
def filterStage (name args : List Char) : Stage :=
  .filter (String.ofList name) ((splitArgs args).map argOf)

/-- The stage of a piece after a bar. -/
def stageOf (piece : List Char) : Stage :=
  let cs := trim piece
  if isName cs then filterStage cs []
  else
    match asCall? cs with
    | some (name, args) => filterStage name args
    | none => .expression (String.ofList cs)

/-- The operators that leave a text without bars to the expression language. -/
def operatorTexts : List (List Char) :=
  [['=', '='], ['!', '='], ['<', '='], ['>', '='], ['<'], ['>'], ['&', '&'], ['|', '|']]

/-- Whether a text has one of the operators in it. -/
def hasOperator (cs : List Char) : Bool := operatorTexts.any (hasInfix · cs)

/-- What the first piece of a pipe is: an initial path or a first stage. -/
def startOf (isOnly : Bool) (piece : List Char) : Option Initial × List Stage :=
  let cs := trim piece
  let source := String.ofList cs
  match asCall? cs with
  | some (name, args) => (none, [filterStage name args])
  | none =>
    if isOnly && hasOperator cs then (none, [.expression source])
    else
      match Path.ofChars? cs with
      | some path => (some ⟨source, path⟩, [])
      | none => (none, [.expression source])

/-- The pipe of some pieces. -/
def ofPieces : List (List Char) → Pipe
  | [] => ⟨none, []⟩
  | first :: rest =>
    let (initial, stages) := startOf rest.isEmpty first
    ⟨initial, stages ++ rest.map stageOf⟩

/-- The pipe of a text. -/
def parse (s : String) : Pipe := ofPieces (splitTopLevel '|' s.toList)

/-- The path that is all of a pipe. -/
def asPath? (p : Pipe) : Option Initial := if p.stages.isEmpty then p.initial else none

end Pipe
end Stencil
