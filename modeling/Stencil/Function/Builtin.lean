import Stencil.Function.Table
import Stencil.Markup.Escape
import Stencil.Text.Case
import Stencil.Time.Layout

/-!
# Built-in functions

The functions that every engine has.

## Main definitions

* `Builtin.table` — the table of all of them
-/

namespace Stencil.Builtin

/-- A function of fixed parameters. -/
def fixed (params : List Kind) (apply : List Value → Except String Value) : Function :=
  ⟨⟨params, false⟩, apply⟩

/-- The text of the argument at a position. -/
def textAt (args : List Value) (position : Nat) : String :=
  ((args[position]?).map (·.display)).getD ""

/-- The first argument. -/
def first (args : List Value) : Value := args.headD .nil

/-- A function from text to text. -/
def onText (f : List Char → List Char) : Function :=
  fixed [.str] fun args => .ok (.str (String.ofList (f (textAt args 0).toList)))

/-- Formats a time, or a text that denotes one, by a layout; any other value stays as it is. -/
def formatTime : Function :=
  fixed [.any, .str] fun args =>
    let write (t : Time) : Except String Value := (t.format (textAt args 1)).map .str
    match first args with
    | .time t => write t
    | .str s =>
      match Time.readChars? (trimmedChars s) with
      | some t => write t
      | none => .ok (.str s)
    | v => .ok v

/-- A fallback in place of nil and of the empty string. -/
def defaultTo : Function :=
  fixed [.any, .any] fun args =>
    match args with
    | [value, fallback] =>
      .ok (match value with
        | .nil => fallback
        | .str s => if s.isEmpty then fallback else value
        | _ => value)
    | _ => .ok .nil

/-- The number of characters or members, zero for other values. -/
def length : Function :=
  fixed [.any] fun args => .ok (.int (Int64.ofNat (((first args).length?).getD 0)))

/-- The conversion of a value to an integer, with the wording of a failure. -/
def toInteger (v : Value) : Except String Value :=
  match coerce v .int with
  | .ok w => .ok w
  | .error e => .error e.message

/-- An integer from a truth value, a number or the text of a number; fractions are cut off. -/
def integer : Function :=
  fixed [.any] fun args =>
    match first args with
    | .bool b => .ok (.int (if b then 1 else 0))
    | .str s =>
      match Decimal.readInt64? (trimmedChars s), Decimal.readFloat? (trimmedChars s) with
      | some i, _ => .ok (.int i)
      | none, some x => if x.isFinite then .ok (.int x.toInt64) else toInteger (.str s)
      | none, none => toInteger (.str s)
    | v => toInteger v

/-- The texts of the items of a sequence with a separator between them. -/
def join : Function :=
  fixed [.seq, .str] fun args =>
    match first args with
    | .seq items => .ok (.str ((textAt args 1).intercalate (items.map (·.display))))
    | _ => .ok (.str "")

/-- All built-in functions. -/
def table : FunctionTable :=
  Dict.ofPairs [
    ("upper", onText Text.toUpper),
    ("lower", onText Text.toLower),
    ("title", onText (Text.titleFrom true)),
    ("trim", onText Text.trim),
    ("formatTime", formatTime),
    ("default", defaultTo),
    ("len", length),
    ("escape", fixed [.any] fun args => .ok (.str (Markup.escape (textAt args 0)))),
    ("int", integer),
    ("string", fixed [.any] fun args => .ok (.str (textAt args 0))),
    ("json", fixed [.any] fun args => .ok (.str (first args).prettyJson)),
    ("join", join)]

end Stencil.Builtin
