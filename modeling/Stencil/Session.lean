import Stencil.Engine

/-!
# Sessions

An engine in use: one call after the other, with new sources for its loader between them.

## Main definitions

* `Session.Step` — a call that renders, or a new source
* `Session.Answer` — what a step shows
* `Session.Step.run` — what a step shows and the engine after it
-/

namespace Stencil.Session

/-- A call to an engine that renders, or a new source for its loader. These are all the ways in
which an engine is used. -/
inductive Step where
  | render (file : String) (data : Value)
  /-- A file in its layouts, appended to what is in `out`. -/
  | renderTo (out file : String) (data : Value)
  | renderFile (file : String) (data : Value)
  | renderFragment (source : String) (data : Value)
  | insert (file source : String)

/-- What a step shows. Of a failed call with an output it shows what that output holds, too. -/
inductive Answer where
  | text (result : Except Halt String)
  | written (result : Except Halt Unit) (out : String)
  | done

/-- What a step shows, and the engine after it. -/
def Step.run (engine : Engine) : Step → Answer × Engine
  | .render file data =>
    let (result, engine) := engine.render file data
    (.text result, engine)
  | .renderTo out file data =>
    let (result, out, engine) := engine.renderTo out file data
    (.written result out, engine)
  | .renderFile file data =>
    let (result, engine) := engine.renderFile file data
    (.text result, engine)
  | .renderFragment source data =>
    let (result, engine) := engine.renderFragment source data
    (.text result, engine)
  | .insert file source => (.done, engine.insert file source)

end Stencil.Session
