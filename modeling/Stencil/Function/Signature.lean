import Stencil.Function.Kind

/-!
# Signatures

The declared parameters of functions.

## Main definitions

* `Signature` — parameter kinds, of which the last one can repeat
* `ArgumentCount` — how many arguments a signature takes
* `Signature.accepts`, `Signature.kindOf` — which arguments fit
-/

namespace Stencil

/-- The declared parameters of a function. If it is variadic, the last kind is that of any number of
arguments, none included. -/
structure Signature where
  params : List Kind
  variadic : Bool
  deriving DecidableEq, Repr

/-- How many arguments a function takes. A function with a last parameter that repeats takes any
number from some number on. -/
inductive ArgumentCount where
  | exactly (n : Nat)
  | atLeast (n : Nat)
  deriving DecidableEq, Repr

/-- The wording of a number of arguments. -/
def ArgumentCount.text : ArgumentCount → String
  | .exactly n => toString n
  | .atLeast n => s!"at least {n}"

namespace Signature

/-- How many arguments a signature takes. -/
def count (s : Signature) : ArgumentCount :=
  if s.variadic then .atLeast (s.params.length - 1) else .exactly s.params.length

/-- Whether a number of arguments fits a signature. -/
def accepts (s : Signature) (n : Nat) : Bool :=
  if s.variadic then s.params.length ≤ n + 1 else n == s.params.length

/-- The kind of the argument at a position, the last one beyond the end. -/
def kindOf (s : Signature) (position : Nat) : Kind :=
  (s.params[position]?).getD (s.params.getLast?.getD .any)

/-- The kinds of a signature between commas, dots after the one that can repeat. -/
def paramTexts (s : Signature) : List String :=
  s.params.zipIdx.map fun (k, i) =>
    if s.variadic && i + 1 == s.params.length then k.name ++ "..." else k.name

/-- A signature as messages show it. -/
def display (s : Signature) : String := "(" ++ ", ".intercalate s.paramTexts ++ ")"

end Signature
end Stencil
