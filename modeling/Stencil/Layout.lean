import Stencil.Render.Nodes

/-!
# Layouts

Rendered pages are put into layouts, and those into further layouts.

## Main definitions

* `Options` — the settings of an engine, `Options.layoutFile` — the file of a layout
* `Run` — work that loads templates, `Run.load`, `Run.pageWithin`, `Run.page`
* `layoutName?` — the layout that a value names
* `Run.layouts` — content put into its layout, that into the next one, and so on

## Design notes

A layout sees the rendered content as a variable. Its own settings come next, then those of the
layouts and the page within it, then the data. Layouts may name each other without end; their number
is limited.
-/

namespace Stencil

open Text

/-- The settings of an engine. -/
structure Options where
  /-- The directory of the layouts. -/
  layoutsDir : String := "layouts"
  /-- What a layout's name ends with as a file name. -/
  extension : String := ".vuego"
  maxLayoutDepth : Nat := 100
  trace : Bool := false

/-- The file of a layout. -/
def Options.layoutFile (o : Options) (name : String) : String :=
  let hasExtension := (stripSuffix? o.extension.toList name.toList).isSome
  let file := if hasExtension then name else name ++ o.extension
  if o.layoutsDir.isEmpty then file
  else
    let directory := (o.layoutsDir.toList.reverse.dropWhile (· == '/')).reverse
    String.ofList directory ++ "/" ++ file

/-- The layout that a value names: text that is not blank. -/
def layoutName? : Option Value → Option String
  | some (.str s) => if isBlankText s.toList then none else some (trimmed s)
  | _ => none

/-- The layout of a template's settings. -/
def Template.layout? (t : Template) : Option String :=
  layoutName? (Dict.get? t.frontMatter "layout")

/-- Work that loads templates. -/
abbrev Run := Act Library

namespace Run

/-- The template of a file. -/
def load (file : String) : Run Template := do
  match ← modifyGet fun lib => Library.load lib file with
  | .ok t => return t
  | .error fault => throw (.error (.ofFault fault))

/-- The text of a template in a scope, nested to a depth at most, and the scope after it. -/
def pageWithin (depth : Nat) (t : Template) (scope : Scope) : Run (String × Scope) :=
  ExceptT.mk fun lib =>
    let (result, c) := (Render.pageWithin depth t).run (Context.new lib scope)
    (result.map (·, c.scope), c.library)

/-- The text of a template in a scope, and the scope after it. -/
def page (t : Template) (scope : Scope) : Run (String × Scope) :=
  pageWithin Render.depthLimit t scope

/-- Puts content into the layout named and that into the next one; `remaining` is how many layouts
may still follow those in `chain`. -/
def layouts (o : Options) :
    (remaining : Nat) → (chain : List String) → Scope → (content : String) → Option String →
      Run String
  | _, _, _, content, none => return content
  | 0, chain, _, _, some name =>
    throw (.error (.ofFault (.layoutDepth o.maxLayoutDepth (chain ++ [o.layoutFile name]))))
  | remaining + 1, chain, scope, content, some name => do
    let layout ← load (o.layoutFile name)
    let (content, scope) ← page layout (scope.push [("content", .str content)])
    layouts o remaining (chain ++ [o.layoutFile name]) (scope.pop.push layout.frontMatter) content
      layout.layout?

/-- Puts a rendered page into its layouts. The page's settings name the first one, or else the data.
-/
def wrap (o : Options) (t : Template) (data : Value) (content : String) : Run String :=
  layouts o o.maxLayoutDepth [t.file] ((Scope.ofData data).push t.frontMatter) content
    (t.layout?.or (layoutName? (data.child? "layout")))

end Run
end Stencil
