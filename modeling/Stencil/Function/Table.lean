import Stencil.Error

/-!
# Function tables

The functions that pipes and expressions can call.

## Main definitions

* `Function` — a signature and what the function does with arguments of its kinds
* `FunctionTable`, `FunctionTable.call` — functions by name
* `Signature.coerceArgs` — the arguments a function gets
-/

namespace Stencil

/-- What a function needs and does. It gets arguments that are of the kinds of its signature, and
fails with a problem in words. -/
structure Function where
  signature : Signature
  apply : List Value → Except String Value

/-- Converts a value to a kind. -/
def coerce (v : Value) (target : Kind) : Except Fault Value :=
  match coerce? target v with
  | some w => .ok w
  | none => .error (.coercion v target)

/-- Converts values to the kinds of a signature from a position on. -/
def Signature.coerceFrom (s : Signature) : (position : Nat) → List Value → Except Fault (List Value)
  | _, [] => .ok []
  | position, v :: rest => do
    let w ← coerce v (s.kindOf position)
    let others ← s.coerceFrom (position + 1) rest
    .ok (w :: others)

/-- The arguments that a function of a name gets: as many as it takes, and of the kinds it takes. -/
def Signature.coerceArgs (s : Signature) (name : String) (args : List Value) :
    Except Fault (List Value) :=
  if s.accepts args.length then s.coerceFrom 0 args
  else .error (.arity name s.count args.length)

/-- Functions by name. -/
abbrev FunctionTable := Dict Function

namespace FunctionTable

/-- The function of a name. -/
def find? (functions : FunctionTable) (name : String) : Option Function :=
  Dict.get? functions name

/-- Registers a function, in place of one with the same name. -/
def register (functions : FunctionTable) (name : String) (f : Function) : FunctionTable :=
  Dict.insert name f functions

/-- Calls a function by its name. -/
def call (functions : FunctionTable) (name : String) (args : List Value) : Except Fault Value :=
  match find? functions name with
  | none => .error (.functionNotFound name)
  | some f => do
    let args ← f.signature.coerceArgs name args
    (f.apply args).mapError (Fault.filter name ·)

/-- The names of a table as messages show them. -/
def describe (functions : FunctionTable) : String :=
  let names := ", ".intercalate (functions.map fun entry => Text.quoted entry.1)
  "FuncMap \x7b names: [" ++ names ++ "] \x7d"

end FunctionTable
end Stencil
