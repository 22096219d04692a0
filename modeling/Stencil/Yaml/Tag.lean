import Stencil.Yaml.Cursor
import Stencil.Yaml.Scalar.Quoted

/-!
# Tags and directives

What is checked of them: values do not depend on tags, but a malformed or undeclared one is an
error.

## Main definitions

* `skipUri` — the characters of a tag, with escaped bytes
* `skipTag` — a tag, with the handle that has to be declared for it
* `Directive`, `skipDirective` — a directive line
-/

namespace Stencil.Yaml

/-- A character of a tag's full form. -/
def isUriChar (c : Char) : Bool := isWordChar c || "#;/?:@&=+$,_.!~*'()[]%".toList.contains c

/-- A character of a tag after its handle. -/
def isTagChar (c : Char) : Bool := isUriChar c && !isFlowMark c && c != '!'

/-- A byte as a percent sign and two digits of base 16. -/
def takeEscapedByte? : List Char → Option (Nat × List Char)
  | '%' :: a :: b :: cs => do
    let high ← hexDigit? a
    let low ← hexDigit? b
    some (16 * high + low, cs)
  | _ => none

/-- What follows an escaped character: one byte below 128, or a first byte of the two-byte form
whose number together with its continuation is a code point. -/
def skipEscapedChar? (cs : List Char) : Option (List Char) := do
  let (first, cs) ← takeEscapedByte? cs
  if first < 0x80 then some cs
  else if 0xC0 ≤ first ∧ first < 0xE0 then
    let (second, cs) ← takeEscapedByte? cs
    if 0x80 ≤ second ∧ second < 0xC0 ∧ (0x100 * first + second).isValidChar then some cs else none
  else none

/-- What follows the characters of a tag; `bound` bounds their number. -/
def skipUri (allowed : Char → Bool) : (bound : Nat) → List Char → Except Violation (List Char)
  | 0, cs => .ok cs
  | _, [] => .ok []
  | bound + 1, c :: cs =>
    if !allowed c then .ok (c :: cs)
    else if c == '%' then
      match skipEscapedChar? (c :: cs) with
      | some rest => skipUri allowed bound rest
      | none => .error .tag
    else skipUri allowed bound cs

/-- What follows all characters of a tag. -/
def skipUriChars (allowed : Char → Bool) (cs : List Char) : Except Violation (List Char) :=
  skipUri allowed cs.length cs

/-- A handle: an exclamation mark, a word and perhaps a second exclamation mark. -/
def takeHandle (cs : List Char) : Except Violation (List Char × List Char) :=
  match cs with
  | '!' :: cs =>
    let word := cs.takeWhile isWordChar
    match cs.dropWhile isWordChar with
    | '!' :: rest => .ok ('!' :: word ++ ['!'], rest)
    | rest => .ok ('!' :: word, rest)
  | _ => .error .tag

/-- Whether a handle is enclosed in exclamation marks, so that it stands for a prefix. -/
def isNamedHandle (handle : List Char) : Bool :=
  2 ≤ handle.length && handle.getLast? == some '!'

/-- What follows a tag in angle brackets, after the first of them. -/
def skipVerbatim (cs : List Char) : Except Violation (List Char) := do
  match ← skipUriChars isUriChar cs with
  | '>' :: rest => .ok rest
  | _ => .error .tag

/-- What follows a tag with a handle, and the handle if it has to be declared. -/
def skipShorthand (cs : List Char) : Except Violation (Option String × List Char) := do
  let (handle, cs) ← takeHandle cs
  let rest ← skipUriChars isTagChar cs
  if isNamedHandle handle then
    if rest.length == cs.length then .error .tag
    else .ok (if handle == ['!', '!'] then none else some (String.ofList handle), rest)
  else .ok (none, rest)

/-- What follows a tag, and the handle that has to be declared for it. -/
def skipTag (inFlow : Bool) (cs : List Char) : Except Violation (Option String × List Char) := do
  let (handle, rest) ← match cs with
    | '!' :: '<' :: cs => (skipVerbatim cs).map (none, ·)
    | cs => skipShorthand cs
  if endsWord rest || (inFlow && startsFlowMark rest) then .ok (handle, rest) else .error .tag

/-! ### Directives -/

/-- A directive: the version of the language, or a handle and its prefix. Those that are not known
count as an empty handle. -/
inductive Directive where
  | version
  | handle (name : String)
  deriving DecidableEq, Repr

/-- What follows the blanks at the start of a text. -/
def dropSpaces (cs : List Char) : List Char := cs.dropWhile isSpace

/-- What follows a number of one to nine digits. -/
def skipVersionNumber (cs : List Char) : Except Violation (List Char) :=
  let digits := cs.takeWhile Char.isDigit
  if digits.isEmpty || 9 < digits.length then .error .directive
  else .ok (cs.dropWhile Char.isDigit)

/-- What follows the two numbers of a version. -/
def skipVersion (cs : List Char) : Except Violation (List Char) := do
  match ← skipVersionNumber (dropSpaces cs) with
  | '.' :: cs => skipVersionNumber cs
  | _ => .error .directive

/-- What follows the prefix a handle stands for. -/
def skipTagPrefix (cs : List Char) : Except Violation (List Char) :=
  match cs with
  | '!' :: cs => skipUriChars isUriChar cs
  | c :: _ => if isTagChar c then skipUriChars isUriChar cs else .error .tag
  | [] => .error .tag

/-- A handle and its prefix. -/
def takeHandleDefinition (cs : List Char) : Except Violation (String × List Char) := do
  let (handle, cs) ← takeHandle (dropSpaces cs)
  if handle != ['!'] && !isNamedHandle handle then .error .tag
  else
    let rest ← skipTagPrefix (dropSpaces cs)
    if endsWord rest then .ok (String.ofList handle, rest) else .error .tag

/-- A directive after its percent sign, and the place after its line. -/
def skipDirective (c : Cursor) : Except Violation (Directive × Cursor) := do
  let name := c.rest.takeWhile isWordChar
  let rest := c.rest.dropWhile isWordChar
  if name.isEmpty || !endsWord rest then .error .directive
  else
    let (directive, rest) ←
      if name == "YAML".toList then (skipVersion rest).map (.version, ·)
      else if name == "TAG".toList then
        (takeHandleDefinition rest).map fun (handle, rest) => (.handle handle, rest)
      else .ok (.handle "", rest.dropWhile (!isBreak ·))
    let lineEnd ← (c.skipTo rest).skipBlanks
    if endsLine lineEnd.rest then .ok (directive, lineEnd.skipBreak) else .error .directive

end Stencil.Yaml
