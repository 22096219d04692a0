/-!
# Markup trees

Documents as trees of elements, text and verbatim markup.

## Main definitions

* `Tree` — a node with all that is below it
* `Payload` — content written in place of the children of an element
* `Tree.size`, `Tree.forestSize` — the number of nodes
-/

namespace Stencil.Markup

/-- Content written in place of the children of an element. The children are still there, and are
not printed. -/
inductive Payload where
  /-- Markup, written as it is. -/
  | html (s : String)
  /-- Text that is escaped already. -/
  | text (s : String)
  deriving DecidableEq, Repr

/-- The content of a payload. -/
def Payload.content : Payload → String
  | .html s => s
  | .text s => s

/-- A node of a document with all that is below it. It is what ids in an arena stand for, and what a
parser builds and a printer prints. -/
inductive Tree where
  | text (s : String)
  /-- Markup, written as it is. -/
  | raw (s : String)
  | element (tag : String) (attributes : List (String × String)) (payload : Option Payload)
      (children : List Tree)

instance : Inhabited Tree := ⟨.text ""⟩

namespace Tree

mutual

/-- The number of nodes of a tree. -/
def size : Tree → Nat
  | .text _ => 1
  | .raw _ => 1
  | .element _ _ _ children => forestSize children + 1

/-- The number of nodes of a list of trees. -/
def forestSize : List Tree → Nat
  | [] => 0
  | t :: rest => size t + forestSize rest

end

end Tree
end Stencil.Markup
