import Stencil.Json.Basic
import Stencil.Decimal.Read

/-!
# Reading JSON

The documents of a JSON text.

## Main definitions

* `Json.read?` — the document of a text, nothing if the text is not JSON
* `Json.nestingLimit` — how deep arrays and objects may be nested
* `readNumber?`, `readString?` — the leaves of the grammar

## Design notes

The recursion is on the depth of nesting still allowed, so the limit is also what makes reading
terminate.

A decimal keeps as many leading digits as fit into 64 bits and is scaled by one power of ten at a
time, so its last bit can differ from the nearest float.
-/

namespace Stencil.Json

open Stencil.Decimal

/-- Takes a piece off the start of a text and gives it with the rest. -/
abbrev Reader (α : Type) := List Char → Option (α × List Char)

/-- The blanks JSON allows between tokens. -/
def isSpace (c : Char) : Bool := c == ' ' || c == '\n' || c == '\t' || c == '\r'

/-- A text without the blanks at its start. -/
def skipSpace (cs : List Char) : List Char := cs.dropWhile isSpace

/-! ### Numbers -/

/-- Reads digits onto a number as long as it stays within 64 bits; counts them. -/
def takeDigits (n count : Nat) : List Char → Nat × Nat × List Char
  | [] => (n, count, [])
  | c :: cs =>
    if c.isDigit && 10 * n + digitValue c < Nat.pow 2 64 then
      takeDigits (10 * n + digitValue c) (count + 1) cs
    else (n, count, c :: cs)

/-- Divides by ten to the 308 until the exponent is within one table of powers. -/
def scaleDown (x : Float) (exponent : Int) : (steps : Nat) → Float × Int
  | 0 => (x, exponent)
  | steps + 1 =>
    if -308 ≤ exponent || x == 0 then (x, exponent)
    else scaleDown (x / floatOfRatio false (Nat.pow 10 308) 1) (exponent + 308) steps

/-- A float from leading digits and a decimal exponent; nothing if it is out of range. -/
def scaled? (negative : Bool) (significand : Nat) (exponent : Int) : Option Float :=
  let start := floatOfRatio false significand 1
  let finish (x : Float) : Float := if negative then -x else x
  if 308 < exponent then if start == 0 then some (finish start) else none
  else
    let (x, e) := scaleDown start exponent (exponent.natAbs / 308 + 1)
    if 0 ≤ e then
      let y := x * floatOfRatio false (Nat.pow 10 e.toNat) 1
      if y.isInf then none else some (finish y)
    else if e < -308 then some (finish x)
    else some (finish (x / floatOfRatio false (Nat.pow 10 (-e).toNat) 1))

/-- The float whose exponent has more digits than any that matters. -/
def hugeExponent? (negative zero positive : Bool) : Option Float :=
  if !zero && positive then none else some (floatOfRatio negative 0 1)

/-- The exponent part after its mark, applied to the digits before it. -/
def readExponentPart? (negative : Bool) (significand : Nat) (exponent : Int) (cs : List Char) :
    Option (Number × List Char) :=
  let (down, cs) := match cs with
    | '+' :: rest => (false, rest)
    | '-' :: rest => (true, rest)
    | rest => (false, rest)
  let digits := cs.takeWhile Char.isDigit
  let rest := cs.dropWhile Char.isDigit
  if digits.isEmpty then none
  else
    let size := natOfDigits digits
    let value? :=
      if Nat.pow 2 31 ≤ size then hugeExponent? negative (significand == 0) (!down)
      else scaled? negative significand (if down then exponent - size else exponent + size)
    value?.map fun x => (.float x, rest)

/-- What may follow the digits of a number that has become a float. -/
def readFloatEnd? (negative : Bool) (significand : Nat) (exponent : Int) : Reader Number
  | 'e' :: cs | 'E' :: cs => readExponentPart? negative significand exponent cs
  | cs => (scaled? negative significand exponent).map fun x => (.float x, cs)

/-- The digits after the point. Those that do not fit into 64 bits are skipped. -/
def readFraction? (negative : Bool) (significand : Nat) (exponent : Int) (cs : List Char) :
    Option (Number × List Char) :=
  let (n, count, rest) := takeDigits significand 0 cs
  let skipped := rest.dropWhile Char.isDigit
  if count == 0 && rest.length == skipped.length then none
  else readFloatEnd? negative n (exponent - count) skipped

/-- What may follow the integer digits of a number. -/
def readNumberEnd? (negative : Bool) (significand : Nat) : Reader Number
  | '.' :: cs => readFraction? negative significand 0 cs
  | 'e' :: cs | 'E' :: cs => readExponentPart? negative significand 0 cs
  | cs =>
    if !negative then some (.unsigned (UInt64.ofNat significand), cs)
    else if 0 < significand ∧ significand ≤ Nat.pow 2 63 then
      some (.negative (Int64.ofInt (-(significand : Int))), cs)
    else some (.float (floatOfRatio true significand 1), cs)

/-- The unsigned part of a number: no digit may follow a leading zero. -/
def readMagnitude? (negative : Bool) : Reader Number
  | '0' :: cs =>
    match cs with
    | c :: _ => if c.isDigit then none else readNumberEnd? negative 0 cs
    | [] => readNumberEnd? negative 0 []
  | c :: cs =>
    if c.isDigit then
      let (n, _, rest) := takeDigits 0 0 (c :: cs)
      let extra := rest.takeWhile Char.isDigit
      if extra.isEmpty then readNumberEnd? negative n rest
      else
        match rest.dropWhile Char.isDigit with
        | '.' :: cs => readFraction? negative n extra.length cs
        | cs => readFloatEnd? negative n extra.length cs
    else none
  | [] => none

/-- A number. -/
def readNumber? : Reader Number
  | '-' :: cs => readMagnitude? true cs
  | cs => readMagnitude? false cs

/-! ### Strings -/

/-- The value of a digit of base 16. -/
def hexValue? (c : Char) : Option Nat :=
  if c.isDigit then some (c.toNat - '0'.toNat)
  else if 'a' ≤ c ∧ c ≤ 'f' then some (c.toNat - 'a'.toNat + 10)
  else if 'A' ≤ c ∧ c ≤ 'F' then some (c.toNat - 'A'.toNat + 10)
  else none

/-- Four digits of base 16. -/
def takeHexFour? : Reader Nat
  | a :: b :: c :: d :: cs => do
    let a ← hexValue? a
    let b ← hexValue? b
    let c ← hexValue? c
    let d ← hexValue? d
    some (((a * 16 + b) * 16 + c) * 16 + d, cs)
  | _ => none

/-- The character of an escape by number; a high surrogate needs a low one after it. -/
def takeCodePoint? (cs : List Char) : Option (Char × List Char) := do
  let (high, cs) ← takeHexFour? cs
  if 0xD800 ≤ high ∧ high ≤ 0xDBFF then
    match cs with
    | '\\' :: 'u' :: cs => do
      let (low, cs) ← takeHexFour? cs
      if 0xDC00 ≤ low ∧ low ≤ 0xDFFF then
        some (Char.ofNat (0x10000 + (high - 0xD800) * 0x400 + (low - 0xDC00)), cs)
      else none
    | _ => none
  else if 0xDC00 ≤ high ∧ high ≤ 0xDFFF then none
  else some (Char.ofNat high, cs)

/-- The character of an escape of one letter. -/
def simpleEscape? : Char → Option Char
  | '"' => some '"'
  | '\\' => some '\\'
  | '/' => some '/'
  | 'b' => some '\x08'
  | 'f' => some '\x0c'
  | 'n' => some '\n'
  | 'r' => some '\r'
  | 't' => some '\t'
  | _ => none

/-- The characters of a string after its opening quote; `steps` bounds their number. -/
def readStringChars? : (steps : Nat) → Reader (List Char)
  | 0, _ | _, [] => none
  | _ + 1, '"' :: cs => some ([], cs)
  | steps + 1, '\\' :: 'u' :: cs => do
    let (c, cs) ← takeCodePoint? cs
    let (others, rest) ← readStringChars? steps cs
    some (c :: others, rest)
  | steps + 1, '\\' :: e :: cs => do
    let c ← simpleEscape? e
    let (others, rest) ← readStringChars? steps cs
    some (c :: others, rest)
  | _ + 1, ['\\'] => none
  | steps + 1, c :: cs =>
    if c.toNat < 0x20 then none
    else (readStringChars? steps cs).map fun (others, rest) => (c :: others, rest)

/-- A string after its opening quote. -/
def readString? (cs : List Char) : Option (String × List Char) :=
  (readStringChars? (cs.length + 1) cs).map fun (chars, rest) => (String.ofList chars, rest)

/-! ### Arrays, objects and documents -/

/-- The items of an array after a comma or the opening bracket; `steps` bounds their number. -/
def readItems? (item : Reader Json) : (steps : Nat) → Reader (List Json)
  | 0, _ => none
  | steps + 1, cs => do
    let (j, cs) ← item cs
    match skipSpace cs with
    | ']' :: rest => some ([j], rest)
    | ',' :: rest =>
      (readItems? item steps rest).map fun (others, rest) => (j :: others, rest)
    | _ => none

/-- A member of an object: a key, a colon and a document. -/
def readMember? (item : Reader Json) (cs : List Char) : Option ((String × Json) × List Char) :=
  match skipSpace cs with
  | '"' :: cs => do
    let (key, cs) ← readString? cs
    match skipSpace cs with
    | ':' :: cs => (item cs).map fun (j, rest) => ((key, j), rest)
    | _ => none
  | _ => none

/-- The members of an object after a comma or the opening brace; `steps` bounds their number. -/
def readMembers? (item : Reader Json) :
    (steps : Nat) → Reader (List (String × Json))
  | 0, _ => none
  | steps + 1, cs => do
    let (member, cs) ← readMember? item cs
    match skipSpace cs with
    | '\x7d' :: rest => some ([member], rest)
    | ',' :: rest =>
      (readMembers? item steps rest).map fun (others, rest) => (member :: others, rest)
    | _ => none

/-- An array after its opening bracket. -/
def readArray? (item : Reader Json) (cs : List Char) : Option (Json × List Char) :=
  match skipSpace cs with
  | ']' :: rest => some (.array [], rest)
  | _ => (readItems? item (cs.length + 1) cs).map fun (items, rest) => (.array items, rest)

/-- An object after its opening brace; of two members with one key the later one counts. -/
def readObject? (item : Reader Json) (cs : List Char) : Option (Json × List Char) :=
  match skipSpace cs with
  | '\x7d' :: rest => some (.object [], rest)
  | _ =>
    (readMembers? item (cs.length + 1) cs).map fun (members, rest) =>
      (.object (Dict.ofPairs members), rest)

/-- A document whose members, if it may have any, are read by `item?`. -/
def readWith? (item? : Option (Reader Json)) (cs : List Char) : Option (Json × List Char) :=
  match skipSpace cs with
  | '[' :: cs => item?.bind (readArray? · cs)
  | '\x7b' :: cs => item?.bind (readObject? · cs)
  | '"' :: cs => (readString? cs).map fun (s, rest) => (.string s, rest)
  | 'n' :: 'u' :: 'l' :: 'l' :: rest => some (.null, rest)
  | 't' :: 'r' :: 'u' :: 'e' :: rest => some (.bool true, rest)
  | 'f' :: 'a' :: 'l' :: 's' :: 'e' :: rest => some (.bool false, rest)
  | cs => (readNumber? cs).map fun (n, rest) => (.number n, rest)

/-- A document with arrays and objects nested to a depth at most. -/
def readNested? : (depth : Nat) → Reader Json
  | 0 => readWith? none
  | depth + 1 => readWith? (some (readNested? depth))

/-- How deep arrays and objects may be nested. -/
def nestingLimit : Nat := 127

/-- The document of a text. -/
def read? (s : String) : Option Json :=
  match readNested? nestingLimit s.toList with
  | some (j, rest) => if (skipSpace rest).isEmpty then some j else none
  | none => none

end Stencil.Json
