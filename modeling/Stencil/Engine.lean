import Stencil.Layout

/-!
# Engines

## Main definitions

* `Engine`, `Engine.new` — a library of templates with some options
* `Engine.render` — a file with its layouts; `Engine.renderTo` appends it to a text
* `Engine.renderFile`, `Engine.renderFragment` — a file, or a source text, without layouts
* `Engine.load`, `Engine.insert` — a template, and a new source for the loader

## Design notes

Every operation gives the engine after it, since templates that were loaded are kept.
-/

namespace Stencil

/-- A library of templates with some options. All state that lasts from one call to the next is in
the library. -/
structure Engine where
  library : Library
  options : Options

namespace Engine

variable {α : Type}

/-- An engine that has loaded no template yet. -/
def new (loader : Loader) (functions : FunctionTable) (options : Options) : Engine :=
  ⟨.new loader functions, options⟩

/-- Does work with the library of an engine. -/
def perform (engine : Engine) (work : Run α) : Except Halt α × Engine :=
  let (result, library) := work.run engine.library
  (result, { engine with library })

/-- The template of a file. -/
def load (engine : Engine) (file : String) : Except Halt Template × Engine :=
  engine.perform (Run.load file)

/-- The text of a file in its layouts. -/
def render (engine : Engine) (file : String) (data : Value) : Except Halt String × Engine :=
  engine.perform do
    let t ← Run.load file
    let (content, _) ← Run.page t (Scope.ofData data)
    Run.wrap engine.options t data content

/-- Appends the text of a file in its layouts, once it is complete. -/
def renderTo (engine : Engine) (out : String) (file : String) (data : Value) :
    Except Halt Unit × String × Engine :=
  match engine.render file data with
  | (.ok text, engine) => (.ok (), out ++ text, engine)
  | (.error halt, engine) => (.error halt, out, engine)

/-- The text of a file without layouts. -/
def renderFile (engine : Engine) (file : String) (data : Value) : Except Halt String × Engine :=
  engine.perform do
    let t ← Run.load file
    let (content, _) ← Run.page t (Scope.ofData data)
    return content

/-- What the source text of a fragment is called. -/
def fragmentFile : String := "fragment"

/-- The template of a source text; it is not kept. -/
def parseFragment (source : String) : Run Template :=
  ExceptT.mk fun lib =>
    match lib.parse fragmentFile source with
    | .ok t => (.ok t, lib.handOut)
    | .error e => (.error (.error (.ofFault (.io fragmentFile (.invalid e)))), lib)

/-- The text of a source text without layouts. -/
def renderFragment (engine : Engine) (source : String) (data : Value) :
    Except Halt String × Engine :=
  engine.perform do
    let t ← parseFragment source
    let (content, _) ← Run.page t (Scope.ofData data)
    return content

/-- Puts a source under a name in the loader. Templates that were loaded stay as they are. -/
def insert (engine : Engine) (file source : String) : Engine :=
  let loader := engine.library.loader.insert file source
  { engine with library := { engine.library with loader } }

end Engine
end Stencil
