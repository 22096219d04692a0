import Stencil.Time.Pattern
import Stencil.Text.Scan
import Stencil.Text.Quoted

/-!
# Time layouts

A layout says how a time is written, either as a percent pattern or by example: the reference time
`Mon Jan 2 15:04:05 MST 2006` written the way times should be.

## Main definitions

* `Layout.examples` — the pieces of the reference time and the directives they stand for
* `Layout.pattern` — the percent pattern of a layout
* `Time.format` — the text of a time by a layout
-/

namespace Stencil.Time

open Stencil.Text

/-- The pieces of the reference time with their directives; of two that fit, the first one counts.
-/
def Layout.examples : List (String × String) :=
  [("2006", "%Y"), ("January", "%B"), ("Jan", "%b"), ("Monday", "%A"), ("Mon", "%a"), ("MST", "%Z"),
    ("Z07:00", "%:z"), ("-07:00", "%:z"), ("-0700", "%z"), (".000000", "%.6f"), (".000", "%.3f"),
    ("01", "%m"), ("02", "%d"), ("03", "%I"), ("04", "%M"), ("05", "%S"), ("06", "%y"),
    ("15", "%H"), ("_2", "%e"), ("PM", "%p"), ("pm", "%P"), ("1", "%-m"), ("2", "%-d"),
    ("3", "%-I"), ("4", "%-M"),
    ("5", "%-S")]

/-- The directive of the example at the start of a text, and the length of that example. -/
def Layout.exampleAt? (cs : List Char) : Option (List Char × Nat) :=
  (Layout.examples.find? fun (sample, _) => startsWith sample.toList cs).map
    fun (sample, directive) => (directive.toList, sample.length)

/-- Replaces examples while `skip` more characters belong to the last one. -/
def Layout.replaceExamples : (skip : Nat) → List Char → List Char
  | _, [] => []
  | skip + 1, _ :: cs => Layout.replaceExamples skip cs
  | 0, c :: cs =>
    match Layout.exampleAt? (c :: cs) with
    | some (directive, length) => directive ++ Layout.replaceExamples (length - 1) cs
    | none => c :: Layout.replaceExamples 0 cs

/-- The percent pattern of a layout: the layout itself if it has a percent sign, else by example. -/
def Layout.pattern (layout : String) : String :=
  if layout.toList.contains '%' then layout
  else String.ofList (Layout.replaceExamples 0 layout.toList)

/-- The text of a time by a layout, or the complaint about a layout that is no pattern. -/
def format (t : Time) (layout : String) : Except String String :=
  let pattern := Layout.pattern layout
  match Pattern.parse? pattern.toList with
  | some items => .ok (Pattern.write items t)
  | none => .error s!"invalid time layout {quoted pattern}"

end Stencil.Time
