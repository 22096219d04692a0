import Stencil.Text.Blank
import Stencil.Text.CaseTables

/-!
# Upper and lower case

The full case mappings of text: a character may become several, and a capital sigma at the end of a
word becomes the final small sigma.

## Main definitions

* `upperChar`, `lowerChar` — the mappings of a character, without its context
* `toUpper`, `toLower` — the mappings of text
* `titleCase` — each word with an upper case first character
* `isUppercase` — the property `Uppercase`
-/

namespace Stencil.Text

/-- The distance a table of shifts lists for a character. -/
def shiftOf? (table : Array (Span × Int)) (c : Char) : Option Int :=
  (table.find? (·.1.contains c.toNat)).map (·.2)

/-- A character moved by a distance of code points. -/
def shifted (c : Char) (distance : Int) : Char := Char.ofNat (c.toNat + distance).toNat

/-- The upper case of a character. -/
def upperChar (c : Char) : List Char :=
  if c.toNat < 0x80 then [c.toUpper]
  else match upperExpansions.find? (·.1 == c.toNat) with
    | some (_, codes) => codes.map Char.ofNat
    | none => [((shiftOf? upperShifts c).map (shifted c)).getD c]

/-- The lower case of a character, regardless of its neighbours. -/
def lowerChar (c : Char) : List Char :=
  if c.toNat < 0x80 then [c.toLower]
  else if c.toNat == 0x130 then ['i', Char.ofNat 0x307]
  else [((shiftOf? lowerShifts c).map (shifted c)).getD c]

/-- Whether a character has the property `Uppercase`. -/
def isUppercase (c : Char) : Bool := c.isUpper || (0x80 ≤ c.toNat && inTable uppercase c)

/-- Text in upper case. -/
def toUpper (cs : List Char) : List Char := cs.flatMap upperChar

/-- Whether the first character that counts for casing is cased. -/
def beginsCased (cs : List Char) : Bool :=
  match cs.dropWhile (inTable caseIgnorable) with
  | [] => false
  | c :: _ => inTable cased c

/-- The lower case of what follows the characters `before`, given last first. A capital sigma after
a cased character and not before one ends a word. -/
def lowerAfter (before : List Char) : List Char → List Char
  | [] => []
  | c :: cs =>
    let lowered :=
      if c.toNat == 0x3A3 then
        [Char.ofNat (if beginsCased before && !beginsCased cs then 0x3C2 else 0x3C3)]
      else lowerChar c
    lowered ++ lowerAfter (c :: before) cs

/-- Text in lower case. -/
def toLower (cs : List Char) : List Char := lowerAfter [] cs

/-- The title case of what follows; `atStart` tells whether a word is about to begin. -/
def titleFrom (atStart : Bool) : List Char → List Char
  | [] => []
  | c :: cs =>
    if isBlank c then c :: titleFrom true cs
    else (if atStart then upperChar c else lowerChar c) ++ titleFrom false cs

/-- The first character of every blank-delimited word in upper case, the others in lower case. -/
def titleCase (s : String) : String := String.ofList (titleFrom true s.toList)

end Stencil.Text
