import Stencil.Path
import Stencil.Value.Text

/-!
# Scopes

The variables visible at a place in a template.

## Main definitions

* `Scope` — a stack of frames over a fallback value
* `Scope.ofData`, `Scope.push`, `Scope.pop`, `Scope.set` — building and changing it
* `Scope.lookup?`, `Scope.resolve?` — names and paths
* `Scope.flatten` — all variables in one frame

## Design notes

The innermost frame is a part of its own, so that a scope always has one. A name that no frame binds
is looked up as a member of the fallback value.
-/

namespace Stencil

/-- Variables with their values. -/
abbrev Frame := Dict Value

/-- A stack of frames, and the value whose members stand behind all of them. The innermost frame is
a field of its own, so a scope is never without one. -/
structure Scope where
  innermost : Frame
  outer : List Frame
  root : Option Value

namespace Scope

/-- A scope without variables. -/
def empty : Scope := ⟨[], [], none⟩

/-- The scope of some data: a mapping is its frame, anything else but nil its fallback value. -/
def ofData : Value → Scope
  | .map entries => ⟨entries, [], none⟩
  | .nil => empty
  | v => ⟨[], [], some v⟩

/-- The number of frames. -/
def depth (s : Scope) : Nat := s.outer.length + 1

/-- The frames from the innermost to the outermost. -/
def frames (s : Scope) : List Frame := s.innermost :: s.outer

/-- Adds a frame. -/
def push (s : Scope) (frame : Frame) : Scope := ⟨frame, s.innermost :: s.outer, s.root⟩

/-- Removes the innermost frame; the last one becomes empty instead. -/
def pop (s : Scope) : Scope :=
  match s.outer with
  | [] => { s with innermost := [] }
  | frame :: outer => ⟨frame, outer, s.root⟩

/-- Sets a variable in the innermost frame. -/
def set (s : Scope) (name : String) (value : Value) : Scope :=
  { s with innermost := Dict.insert name value s.innermost }

/-- The value of a name, from the innermost frame outwards. -/
def lookup? (s : Scope) (name : String) : Option Value :=
  (s.frames.findSome? (Dict.get? · name)).or (s.root.bind (·.child? name))

/-- Whether a name has a value. -/
def contains (s : Scope) (name : String) : Bool := (s.lookup? name).isSome

/-- The key that a step stands for: that of a variable is its text, if it is a string or an integer.
-/
def stepKey? (s : Scope) : Path.Step → Option String
  | .key key => some key
  | .variable name =>
    match s.lookup? name with
    | some (.str text) => some text
    | some (.int i) => some (Value.int i).display
    | some (.uint n) => some (Value.uint n).display
    | _ => none

/-- The value some steps lead to. -/
def follow? (s : Scope) : List Path.Step → Value → Option Value
  | [], v => some v
  | step :: steps, v => do
    let key ← s.stepKey? step
    let member ← v.child? key
    follow? s steps member

/-- The value a path leads to. -/
def resolvePath? (s : Scope) (path : Path) : Option Value :=
  (s.lookup? path.head).bind (s.follow? path.steps)

/-- The value of a text read as a path. -/
def resolve? (s : Scope) (path : String) : Option Value := (Path.parse? path).bind s.resolvePath?

/-- The members at a path with their positions or keys; none if there is no collection. -/
def entriesAt (s : Scope) (path : String) : List (Value × Value) :=
  ((s.resolve? path).bind Value.entries?).getD []

/-- Acts on each member at a path. -/
def forEach {m : Type → Type} [Monad m] (s : Scope) (path : String) (act : Value → Value → m Unit) :
    m Unit :=
  (s.entriesAt path).forM fun (key, value) => act key value

/-- All variables in one frame, inner ones over outer ones of the same name. -/
def flatten (s : Scope) : Frame := s.frames.foldr (fun frame all => Dict.overlay all frame) []

/-- Removing an added frame restores the scope. -/
@[simp] theorem pop_push (s : Scope) (frame : Frame) : (s.push frame).pop = s := rfl

@[simp] theorem depth_push (s : Scope) (frame : Frame) : (s.push frame).depth = s.depth + 1 := rfl

/-- A scope always has a frame. -/
theorem depth_pos (s : Scope) : 0 < s.depth := Nat.succ_pos _

end Scope
end Stencil
