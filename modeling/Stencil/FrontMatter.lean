import Stencil.Error
import Stencil.Text.Blank
import Stencil.Text.Scan
import Stencil.Yaml.Reader

/-!
# Front matter

A block of settings between fences at the start of a source.

## Main definitions

* `FrontMatter.lines` — a text cut after its line breaks
* `FrontMatter.isOpening`, `FrontMatter.isClosing` — the lines that fence a block
* `FrontMatter.split` — the block and the body
* `FrontMatter.parse` — the settings of a block

## Design notes

A block without a closing fence is no block: the whole source is the body then. Settings are a
mapping; a block without content has none.
-/

namespace Stencil

/-- The settings at the start of a source. -/
abbrev FrontMatter := Dict Value

namespace FrontMatter

open Text

/-- A text cut after each of its line breaks. -/
def lines : List Char → List (List Char)
  | [] => []
  | c :: cs =>
    if c == '\n' then [c] :: lines cs
    else
      match lines cs with
      | [] => [[c]]
      | line :: others => (c :: line) :: others

/-- Whether a line opens a block. -/
def isOpening (line : List Char) : Bool := trimEnd line == ['-', '-', '-']

/-- Whether a line closes a block. -/
def isClosing (line : List Char) : Bool :=
  trimEnd line == ['-', '-', '-'] || trimEnd line == ['.', '.', '.']

/-- The text before the first closing line, and what follows that line. -/
def splitAtClosing? (lines : List (List Char)) : Option (List Char × List Char) :=
  match lines.dropWhile (!isClosing ·) with
  | [] => none
  | _ :: body => some ((lines.takeWhile (!isClosing ·)).flatten, body.flatten)

/-- A text without the byte order mark before it. -/
def dropMark : List Char → List Char
  | '\ufeff' :: cs => cs
  | cs => cs

/-- The block at the start of a source, if there is one, and the body. -/
def split (source : String) : Option String × String :=
  match lines (dropMark source.toList) with
  | first :: rest =>
    if isOpening first then
      match splitAtClosing? rest with
      | some (block, body) => (some (String.ofList block), String.ofList body)
      | none => (none, source)
    else (none, source)
  | [] => (none, source)

/-- The settings of a block. -/
def parse (block : String) : Except FrontMatterError FrontMatter :=
  match Yaml.parse block with
  | .error e => .error (.yaml e)
  | .ok (.map settings) => .ok settings
  | .ok .nil => .ok []
  | .ok v => .error (.notMapping v.typeName)

end FrontMatter
end Stencil
