import Stencil.Render.Context

/-!
# Loops

Evaluation of an element once per member of a collection.

## Main definitions

* `LoopClause`, `LoopClause.parse?` — `item in items`, `(index, item) in items`
* `loopEntries` — the members of a collection, with their positions or keys
* `Render.loop` — a piece of a template evaluated for each member
-/

namespace Stencil

open Markup Text

/-- What a loop goes over, and the variables it sets. -/
structure LoopClause where
  index : Option String
  item : String
  collection : String
  deriving DecidableEq, Repr

namespace LoopClause

/-- The text between the parentheses that enclose a text. -/
def betweenParentheses? (cs : List Char) : Option (List Char) :=
  (stripPrefix? ['('] cs).bind (stripSuffix? [')'])

/-- The index and the item variable of a clause, not checked yet. -/
def splitVariables? (cs : List Char) : Option (Option (List Char) × List Char) :=
  match betweenParentheses? cs with
  | some inner => (splitOnce? [','] inner).map fun (index, item) => (some (trim index), trim item)
  | none => some (none, cs)

/-- The clause of a text. -/
def parse? (s : String) : Option LoopClause := do
  let (names, collection) ← splitOnce? [' ', 'i', 'n', ' '] s.toList
  let collection := trim collection
  let (index, item) ← splitVariables? (trim names)
  if collection.isEmpty || !isName item || !(index.map isName).getD true then none
  else some ⟨index.map String.ofList, String.ofList item, String.ofList collection⟩

/-- The variables of an iteration; an index takes precedence over an item of the same name. -/
def frame (clause : LoopClause) (key value : Value) : Frame :=
  let items := Dict.insert clause.item value []
  match clause.index with
  | some index => Dict.insert index key items
  | none => items

end LoopClause

/-- The positions and values of counting from one. -/
def countEntries (n : Nat) : List (Value × Value) :=
  (List.range n).map fun i => (.uint (.ofNat i), .uint (.ofNat (i + 1)))

/-- The members of a collection with their positions or keys. A positive integer counts up to
itself. -/
def loopEntries : Value → List (Value × Value)
  | .int n => countEntries n.toInt.toNat
  | .uint n => countEntries n.toNat
  | v => (v.entries?).getD []

namespace Render

/-- The collection of a clause, nothing if it does not resolve. -/
def collection? (source : String) : Render (Option Value) := do
  if (Path.parse? source).isSome then return (← get).scope.resolve? source
  else evaluate (·.evalPipe? source)

/-- Evaluates a body for each member of a collection, one after the other. -/
def eachEntry (clause : LoopClause) (body : Render (List NodeId)) :
    List (Value × Value) → Render (List NodeId)
  | [] => return []
  | (key, value) :: entries => do
    let here ← withFrame (clause.frame key value) body
    let others ← eachEntry clause body entries
    return here ++ others

/-- Evaluates a body for each member of the collection that a loop names. -/
def loop (source : String) (body : Render (List NodeId)) : Render (List NodeId) := do
  match LoopClause.parse? source with
  | none => fail (.expression source .loopClause)
  | some clause => do
    let value? ← collection? clause.collection
    eachEntry clause body ((value?.map loopEntries).getD [])

end Render
end Stencil
