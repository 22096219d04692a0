import Stencil.Markup.Token
import Stencil.Markup.Tree

/-!
# Parsing markup

Trees from tokens.

## Main definitions

* `Building` — the elements that are open and what they hold so far
* `Building.step`, `forestOfTokens` — trees from tokens
* `parseFragment`, `parseDocument` — the trees of a text; a document keeps its top-level
  declarations

## Design notes

An end tag closes all elements opened since the one it names, and is ignored if there is none. What
is still open at the end is closed there.
-/

namespace Stencil.Markup

/-- An element that is still open, its children in reverse. It is finished by its end tag, by that
of an element around it, or by the end of the document. -/
structure OpenElement where
  tag : String
  attributes : List (String × String)
  reversed : List Tree

/-- The open elements, innermost first, and the finished top-level nodes in reverse. It is all that
a parser knows of the tokens so far. -/
structure Building where
  elements : List OpenElement
  reversed : List Tree

namespace Building

/-- Adds a finished node to the innermost open element. -/
def add (b : Building) (t : Tree) : Building :=
  match b.elements with
  | [] => { b with reversed := t :: b.reversed }
  | e :: outer => { b with elements := { e with reversed := t :: e.reversed } :: outer }

/-- An open element as a finished node. -/
def finish (e : OpenElement) : Tree := .element e.tag e.attributes none e.reversed.reverse

/-- Closes the innermost open elements, so many of them. -/
def close (b : Building) : (count : Nat) → Building
  | 0 => b
  | count + 1 =>
    match b.elements with
    | [] => b
    | e :: outer => (({ b with elements := outer } : Building).add (finish e)).close count

/-- Closes the innermost open element of a tag and all within it; does nothing if there is none. -/
def closeTag (b : Building) (tag : String) : Building :=
  match b.elements.findIdx? (·.tag == tag) with
  | some i => b.close (i + 1)
  | none => b

/-- The children that raw text content stands for. -/
def rawTextChildren (content : List Char) : List Tree :=
  if Text.isBlankText content then [] else [.text (String.ofList content)]

/-- Takes in a token; `declarations` tells whether top-level declarations are kept. -/
def step (declarations : Bool) (b : Building) : Token → Building
  | .text cs => b.add (.text (String.ofList cs))
  | .declaration cs =>
    if declarations && b.elements.isEmpty then b.add (.raw (String.ofList cs)) else b
  | .startTag tag attributes => { b with elements := ⟨tag, attributes, []⟩ :: b.elements }
  | .leaf tag attributes => b.add (.element tag attributes none [])
  | .rawText tag attributes content =>
    b.add (.element tag attributes none (rawTextChildren content))
  | .endTag tag => b.closeTag tag

/-- The finished trees, once everything is closed. -/
def forest (b : Building) : List Tree := (b.close b.elements.length).reversed.reverse

end Building

/-- The trees of a list of tokens. -/
def forestOfTokens (declarations : Bool) (tokens : List Token) : List Tree :=
  (tokens.foldl (Building.step declarations) ⟨[], []⟩).forest

/-- The trees of a fragment; declarations are dropped. -/
def parseFragment (s : String) : Except SyntaxError (List Tree) :=
  (tokenize s).map (forestOfTokens false)

/-- The trees of a document; top-level declarations are kept as they are written. -/
def parseDocument (s : String) : Except SyntaxError (List Tree) :=
  (tokenize s).map (forestOfTokens true)

end Stencil.Markup
