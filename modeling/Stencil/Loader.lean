import Stencil.Dict
import Stencil.Error
import Stencil.Text.Scan

/-!
# Loaders

Where the sources of templates come from.

## Main definitions

* `Loader` — whether there is a source under a name, and the source
* `Loader.find` — the source under a name, if there is one
* `Loader.memory`, `Loader.directory` — sources kept in memory, or files below a directory
* `Loader.overlay`, `Loader.insert` — sources put in front of what a loader has

## Design notes

A path is a list of parts. A path that is absolute, or has a part leading upwards, could leave the
directory and is refused, whatever there is. Empty parts and dots change nothing, but at the end
they stand for a directory and not for a file.
-/

namespace Stencil

/-- Where the sources of templates come from. There are two questions since a loader may have a name
and still fail to give the source. -/
structure Loader where
  /-- Whether there is a source under a name. -/
  contains : String → Bool
  /-- The source under a name. -/
  load : String → Except LoadError String

namespace Loader

open Text

/-- The source under a name, if there is one. -/
def find (l : Loader) (name : String) : Except LoadError String :=
  if l.contains name then l.load name else .error .notFound

/-! ### In memory -/

/-- Sources by name. -/
def memory (sources : Dict String) : Loader where
  contains name := Dict.contains sources name
  load name :=
    match Dict.get? sources name with
    | some source => .ok source
    | none => .error (.unnamed name)

/-- Sources in front of those of a loader. -/
def overlay (l : Loader) (source? : String → Option String) : Loader where
  contains name := (source? name).isSome || l.contains name
  load name :=
    match source? name with
    | some source => .ok source
    | none => l.load name

/-- Puts a source under a name. -/
def insert (l : Loader) (name source : String) : Loader := l.overlay (Dict.get? [(name, source)])

theorem find_overlay (l : Loader) (source? : String → Option String) (name : String) :
    (l.overlay source?).find name =
      match source? name with
      | some source => .ok source
      | none => l.find name := by
  cases h : source? name <;> simp [find, overlay, h]

/-- Putting a source in front of sources in memory puts it among them. -/
theorem insert_memory (sources : Dict String) (name source : String) :
    (memory sources).insert name source = memory (Dict.insert name source sources) := by
  simp only [insert, overlay, memory, Loader.mk.injEq]
  constructor
  · funext key
    by_cases h : name = key <;>
      simp [Dict.contains, Dict.get?_insert, Dict.get?_cons, Dict.get?_nil, h]
  · funext key
    by_cases h : name = key <;> simp [Dict.get?_insert, Dict.get?_cons, Dict.get?_nil, h]

/-! ### Directories -/

/-- The parts of a path between its slashes. -/
def parts (path : String) : List (List Char) := splitOnChar '/' path.toList

/-- Whether a path could leave its directory. -/
def leaves (path : String) : Bool :=
  path.toList.head? == some '/' || (parts path).contains ['.', '.']

/-- Whether a part of a path changes nothing. -/
def isIdle (part : List Char) : Bool := part.isEmpty || part == ['.']

/-- The plain form of a path to a file, if it can be one. -/
def filePath? (path : String) : Option String :=
  let parts := parts path
  if (parts.getLast?.map isIdle).getD true then none
  else some ("/".intercalate ((parts.filter (!isIdle ·)).map String.ofList))

/-- Files below a directory, by the plain forms of their paths. -/
def directory (files : Dict String) : Loader where
  contains name := !leaves name && ((filePath? name).bind (Dict.get? files)).isSome
  load name :=
    if leaves name then .error (.outside name)
    else
      match (filePath? name).bind (Dict.get? files) with
      | some source => .ok source
      | none => .error (.unreadable name)

end Loader
end Stencil
