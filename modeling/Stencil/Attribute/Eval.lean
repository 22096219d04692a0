import Stencil.Attribute.Style
import Stencil.Interpolation
import Stencil.Markup.Vocabulary

/-!
# Evaluating attributes

The attributes of an output element, from the static ones and the bindings of a template element.

## Main definitions

* `evalAttributes` — the attributes of the output
* `hide` — the attributes of an element that is not shown
* `objectLiteral?` — a binding written as properties with conditions or values

## Design notes

Static attributes come first, in order. A binding is merged into the first attribute of its name, or
added if it counts as true; for `class` and `style` a binding that does not count as true adds
nothing.
-/

namespace Stencil

/-- Attributes with their values, in order. -/
abbrev Attributes := List (String × String)

namespace Attribute

open Text Markup

/-- Whether an attribute steers evaluation without being a directive or a binding. -/
def isControl (name : String) : Bool :=
  name == "v-keep" || name == "v-slot" || hasPrefix "v-slot:" name || hasPrefix "#" name

/-- The attribute that `\:x` or `[x]` stands for literally. -/
def literalName? (name : String) : Option String :=
  (nameAfter? "\\:" name).or
    ((stripPrefix? ['['] name.toList).bind fun rest => (stripSuffix? [']'] rest).map String.ofList)

/-! ### Object literals -/

/-- The text before and after the first colon outside of quotes. -/
def splitColon? : (quote : Option Char) → List Char → Option (List Char × List Char)
  | _, [] => none
  | some q, c :: cs =>
    (splitColon? (if c == q then none else some q) cs).map fun (key, value) => (c :: key, value)
  | none, c :: cs =>
    if c == ':' then some ([], cs)
    else
      (splitColon? (if isQuote c then some c else none) cs).map
        fun (key, value) => (c :: key, value)

/-- The key and the value text of an item of an object literal. -/
def objectEntry? (item : List Char) : Option (String × String) :=
  (splitColon? none item).map fun (key, value) =>
    let key := trim key
    (String.ofList ((unquote? key).getD key), String.ofList (trim value))

/-- The text between the braces that enclose a text. -/
def betweenBraces? (cs : List Char) : Option (List Char) :=
  (stripPrefix? ['\x7b'] cs).bind (stripSuffix? ['\x7d'])

/-- The keys and the value texts of `{a: x, 'b-c': y}`. -/
def objectLiteral? (s : String) : Option (List (String × String)) :=
  (betweenBraces? (trim s.toList)).bind fun inner =>
    ((Pipe.splitArgs inner).filter (!·.isEmpty)).mapM objectEntry?

/-- The value of a text in an object literal: an expression, else a path, else nil. -/
def objectValue (scope : Scope) (source : String) : Evaluation Value := do
  match ← (scope.evalExpr source).attempt with
  | .ok v => return v
  | .error _ => return (scope.resolve? source).getD .nil

/-- The values of the entries of an object literal under their keys. -/
def objectValues (scope : Scope) : List (String × String) → Evaluation (List (String × Value))
  | [] => return []
  | (key, source) :: entries => do
    let v ← objectValue scope source
    let others ← objectValues scope entries
    return (key, v) :: others

/-- The text of an object literal: for `class` the keys whose values count as true, for `style` the
declarations with a value, and the values for any other attribute. -/
def objectText (name : String) (values : List (String × Value)) : String :=
  if name == "class" then " ".intercalate ((values.filter (·.2.truthy)).map (·.1))
  else if name == "style" then
    Style.write ((values.map fun (key, v) => (kebabCase key, v.display)).filter (!·.2.isEmpty))
  else " ".intercalate ((values.map (·.2.display)).filter (!·.isEmpty))

/-! ### Bindings -/

/-- The text of a binding, and whether it counts as true. -/
def evalBinding (scope : Scope) (name source : String) : Evaluation (String × Bool) :=
  match objectLiteral? source with
  | some entries => do
    let text := objectText name (← objectValues scope entries)
    return (text, !text.isEmpty)
  | none =>
    if Interpolation.isIn source then do
      let text ← Interpolation.interpolate scope source false
      return (text, !text.isEmpty)
    else do
      let v ← scope.evalPipeOrNil source
      return (v.display, v.truthy)

/-- A bound value over a static one: classes add up, declarations override, anything else replaces.
-/
def mergeValue (name static bound : String) : String :=
  if name == "class" then
    " ".intercalate ([trimmed static, trimmed bound].filter (!·.isEmpty))
  else if name == "style" then Style.merge static bound
  else bound

/-- Whether values of the attribute are merged rather than replaced. -/
def isMerged (name : String) : Bool := name == "class" || name == "style"

/-- Puts a bound value into the first attribute of its name, or adds it if it counts as true. -/
def addBinding (name bound : String) (truthy : Bool) : Attributes → Attributes
  | [] => if truthy then [(name, bound)] else []
  | (key, value) :: rest =>
    if key = name then
      if !truthy && isMerged name then (key, value) :: rest
      else (key, mergeValue name value bound) :: rest
    else (key, value) :: addBinding name bound truthy rest

/-! ### Elements -/

/-- The output attributes that a static attribute stands for. -/
def evalStatic (scope : Scope) (name value : String) : Evaluation Attributes :=
  match literalName? name with
  | some literal => return [(literal, value)]
  | none =>
    if isDirectiveAttribute name || isControl name then return []
    else if Interpolation.isIn value then
      return [(name, ← Interpolation.interpolate scope value false)]
    else return [(name, value)]

/-- The output attributes of the static attributes. -/
def evalStatics (scope : Scope) : Attributes → Evaluation Attributes
  | [] => return []
  | (name, value) :: rest => do
    let here ← evalStatic scope name value
    let others ← evalStatics scope rest
    return here ++ others

/-- Adds the bindings among some attributes to the output. -/
def evalBindings (scope : Scope) : Attributes → Attributes → Evaluation Attributes
  | out, [] => return out
  | out, (key, source) :: rest =>
    match bindingName? key with
    | none => evalBindings scope out rest
    | some name => do
      let (bound, truthy) ← evalBinding scope name source
      evalBindings scope (addBinding name bound truthy out) rest

end Attribute

/-- The output attributes of a template element. -/
def evalAttributes (scope : Scope) (attributes : Attributes) : Evaluation Attributes := do
  let out ← Attribute.evalStatics scope attributes
  Attribute.evalBindings scope out attributes

/-- Adds the declaration that hides an element. -/
def hide : Attributes → Attributes
  | [] => [("style", "display:none;")]
  | (key, value) :: rest =>
    if key = "style" then (key, Style.merge value "display:none;") :: rest
    else (key, value) :: hide rest

end Stencil
