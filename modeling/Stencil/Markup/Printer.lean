import Stencil.Markup.Escape
import Stencil.Markup.Tree
import Stencil.Markup.Vocabulary
import Stencil.Text.Blank

/-!
# Printing markup

Trees as indented text.

## Main definitions

* `Layout`, `layoutOf` — how the content of an element is laid out
* `block` — a node on lines of its own
* `inlined` — a node without any added white space
* `printForest` — a document, one top-level node per line

## Design notes

Blank text is dropped, and a single text or verbatim node stays on the line of its tags. Text is
escaped unless it seems to be escaped already; within `script` and `style` it never is. Directives
and bindings are not printed.
-/

namespace Stencil.Markup

open Text

/-- The indentation of a depth. -/
def indent (depth : Nat) : List Char := List.replicate (2 * depth) ' '

/-- Text as it is printed; `raw` tells whether it stands within `script` or `style`. -/
def printText (raw : Bool) (cs : List Char) : List Char :=
  if raw then cs else escapeUnlessEscaped cs

/-- An attribute as it is printed. -/
def printAttribute (name value : String) : List Char :=
  if isDirectiveAttribute name then []
  else [' '] ++ name.toList ++ ['=', '"'] ++ escapeUnlessEscaped value.toList ++ ['"']

/-- A start tag. -/
def openTag (tag : String) (attributes : List (String × String)) : List Char :=
  ['<'] ++ tag.toList ++ attributes.flatMap (fun (name, value) => printAttribute name value) ++
    ['>']

/-- An end tag. -/
def closeTag (tag : String) : List Char := ['<', '/'] ++ tag.toList ++ ['>']

/-- Whether a child takes part in the layout of its parent. -/
def isVisible : Tree → Bool
  | .text s => !isBlankText s.toList
  | _ => true

/-- How the content of an element is laid out. -/
inductive Layout where
  /-- Fixed text between the tags, on their line. -/
  | compact (content : List Char)
  /-- The children one after the other without added white space. -/
  | inlined
  /-- Each child on lines of its own. -/
  | lines

/-- The layout of the content of an element; `raw` holds for the content. -/
def layoutOf (tag : String) (raw : Bool) (children : List Tree) : Layout :=
  match children.filter isVisible with
  | [] => .compact []
  | [.text s] =>
    .compact (printText raw (if raw || isPreformatted tag then s.toList else trim s.toList))
  | [.raw s] => .compact s.toList
  | _ => if isPreformatted tag then .inlined else .lines

/-- An element with a payload; a `template` stands for its payload alone. -/
def payloadBlock (tag : String) (attributes : List (String × String)) (content : String) :
    List Char :=
  if tag == "template" then content.toList
  else openTag tag attributes ++ content.toList ++ closeTag tag

mutual

/-- A node without any added white space. -/
def inlined (raw : Bool) : Tree → List Char
  | .text s => printText raw s.toList
  | .raw s => s.toList
  | .element tag attributes payload children =>
    let content :=
      match payload with
      | some p => p.content.toList
      | none => inlinedAll (raw || isRawText tag) children
    openTag tag attributes ++ content ++ (if hasClosingTag tag then closeTag tag else [])

/-- Nodes one after the other without any added white space. -/
def inlinedAll (raw : Bool) : List Tree → List Char
  | [] => []
  | t :: rest => inlined raw t ++ inlinedAll raw rest

end

mutual

/-- A node on lines of its own at a depth; blank text is none. -/
def block (depth : Nat) (raw : Bool) : Tree → List Char
  | .text s =>
    if isBlankText s.toList then []
    else indent depth ++ printText raw (trim s.toList) ++ ['\n']
  | .raw s => indent depth ++ s.toList ++ ['\n']
  | .element tag attributes (some payload) _ =>
    indent depth ++ payloadBlock tag attributes payload.content ++ ['\n']
  | .element tag attributes none children =>
    let inner := raw || isRawText tag
    let content :=
      match layoutOf tag inner children with
      | .compact content => content
      | .inlined => inlinedAll inner children
      | .lines => ['\n'] ++ blocks (depth + 1) inner children ++ indent depth
    indent depth ++ openTag tag attributes ++
      (if hasClosingTag tag then content ++ closeTag tag else []) ++ ['\n']

/-- Nodes, each on lines of its own. -/
def blocks (depth : Nat) (raw : Bool) : List Tree → List Char
  | [] => []
  | t :: rest => block depth raw t ++ blocks depth raw rest

end

/-- A document, one top-level node per line. -/
def printForest (forest : List Tree) : String := String.ofList (blocks 0 false forest)

end Stencil.Markup
