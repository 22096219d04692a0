import Stencil.Text.Blank
import Stencil.Text.Case
import Stencil.Text.Scan

/-!
# Style attributes

Style values as lists of declarations.

## Main definitions

* `Style.Declaration`, `Style.parse`, `Style.write` — declarations and their text
* `Style.override`, `Style.merge` — declarations over others of the same property
* `kebabCase` — the property of a name with inner capitals
-/

namespace Stencil

/-- A property and its value. -/
abbrev Style.Declaration := String × String

namespace Style

open Text

/-- The declaration of a text with a colon and something before it. -/
def declaration? (cs : List Char) : Option Declaration := do
  let (property, value) ← splitOnce? [':'] cs
  let property := trim property
  if property.isEmpty then none else some (String.ofList property, String.ofList (trim value))

/-- The declarations between the semicolons of a text; anything else is dropped. -/
def parse (s : String) : List Declaration := (splitOnChar ';' s.toList).filterMap declaration?

/-- The text of declarations. -/
def write (ds : List Declaration) : String := String.join (ds.map fun d => s!"{d.1}:{d.2};")

/-- Gives the first declaration of a property a value, or adds a declaration. -/
def override (ds : List Declaration) (d : Declaration) : List Declaration :=
  match ds with
  | [] => [d]
  | e :: rest => if e.1 = d.1 then (e.1, d.2) :: rest else e :: override rest d

/-- The declarations of two texts, those of the second one winning. -/
def merge (static bound : String) : String := write ((parse bound).foldl override (parse static))

end Style

/-- The kebab case of a name: `fontSize` is `font-size`. A name with a hyphen stays as it is. -/
def kebabCase (s : String) : String :=
  if s.toList.contains '-' then s
  else
    String.ofList (s.toList.flatMap fun c =>
      if Text.isUppercase c then '-' :: Text.lowerChar c else [c])

end Stencil
