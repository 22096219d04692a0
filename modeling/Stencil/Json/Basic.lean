import Stencil.Decimal.Notation
import Stencil.Dict

/-!
# JSON

JSON documents and their text.

## Main definitions

* `Json`, `Json.Number` — documents
* `Json.compact` — the text without spaces
* `Json.pretty` — the text with a line for each member, indented by two spaces

## Design notes

A number is an integer of 64 bits, by its sign in one of two ranges, or a finite float.
-/

namespace Stencil

/-- A JSON number: an integer that is not negative, a negative one, or a finite float. -/
inductive Json.Number where
  | unsigned (n : UInt64)
  | negative (i : Int64)
  | float (x : Float)

/-- A JSON document. The keys of an object are strictly increasing, so an object that is read loses
the order and the repetitions of its text. -/
inductive Json where
  | null
  | bool (b : Bool)
  | number (n : Json.Number)
  | string (s : String)
  | array (items : List Json)
  | object (members : List (String × Json))

namespace Json

/-- The digits of a small number in four places of base 16. -/
def hexFour (n : Nat) : List Char :=
  let digits := Nat.toDigits 16 n
  List.replicate (4 - digits.length) '0' ++ digits

/-- A character of a string: quotes, backslashes and controls are escaped. -/
def escaped (c : Char) : List Char :=
  match c with
  | '"' => ['\\', '"']
  | '\\' => ['\\', '\\']
  | '\x08' => ['\\', 'b']
  | '\x0c' => ['\\', 'f']
  | '\n' => ['\\', 'n']
  | '\r' => ['\\', 'r']
  | '\t' => ['\\', 't']
  | c => if c.toNat < 0x20 then ['\\', 'u'] ++ hexFour c.toNat else [c]

/-- The text of a string. -/
def stringText (s : String) : List Char := ['"'] ++ s.toList.flatMap escaped ++ ['"']

/-- The text of a number. -/
def Number.text : Number → List Char
  | .unsigned n => (toString n.toNat).toList
  | .negative i => (toString i.toInt).toList
  | .float x => (Decimal.write Decimal.json x).toList

/-- The text of a document that has no members. -/
def atomText : Json → List Char
  | .null => "null".toList
  | .bool b => (if b then "true" else "false").toList
  | .number n => n.text
  | .string s => stringText s
  | .array _ => "[]".toList
  | .object _ => "\x7b\x7d".toList

mutual

/-- The compact text of a document. -/
def compactText : Json → List Char
  | .array items => ['['] ++ compactItems items ++ [']']
  | .object members => ['\x7b'] ++ compactMembers members ++ ['\x7d']
  | j => atomText j

/-- The items of an array between commas. -/
def compactItems : List Json → List Char
  | [] => []
  | [j] => compactText j
  | j :: rest => compactText j ++ [','] ++ compactItems rest

/-- The members of an object between commas. -/
def compactMembers : List (String × Json) → List Char
  | [] => []
  | [(key, j)] => stringText key ++ [':'] ++ compactText j
  | (key, j) :: rest => stringText key ++ [':'] ++ compactText j ++ [','] ++ compactMembers rest

end

/-- A line break and the indentation of a depth. -/
def lineBreak (depth : Nat) : List Char := '\n' :: List.replicate (2 * depth) ' '

mutual

/-- The indented text of a document at a depth. -/
def prettyText (depth : Nat) : Json → List Char
  | .array (j :: rest) =>
    ['['] ++ prettyItems (depth + 1) (j :: rest) ++ lineBreak depth ++ [']']
  | .object ((key, j) :: rest) =>
    ['\x7b'] ++ prettyMembers (depth + 1) ((key, j) :: rest) ++ lineBreak depth ++ ['\x7d']
  | j => atomText j

/-- The items of an array, each on a line. -/
def prettyItems (depth : Nat) : List Json → List Char
  | [] => []
  | [j] => lineBreak depth ++ prettyText depth j
  | j :: rest => lineBreak depth ++ prettyText depth j ++ [','] ++ prettyItems depth rest

/-- The members of an object, each on a line. -/
def prettyMembers (depth : Nat) : List (String × Json) → List Char
  | [] => []
  | [(key, j)] => lineBreak depth ++ stringText key ++ [':', ' '] ++ prettyText depth j
  | (key, j) :: rest =>
    lineBreak depth ++ stringText key ++ [':', ' '] ++ prettyText depth j ++ [','] ++
      prettyMembers depth rest

end

/-- The text of a document without spaces. -/
def compact (j : Json) : String := String.ofList (compactText j)

/-- The text of a document with a line for each member. -/
def pretty (j : Json) : String := String.ofList (prettyText 0 j)

end Json
end Stencil
