/-!
# Spans of code points

Character classes are tables of spans: code points from a first to a last, each or every second one.

## Main definitions

* `Span`, `Span.contains`
* `inTable` — whether a character lies in one of the spans of a table
-/

namespace Stencil.Text

/-- The code points `first`, `first + stride`, … up to `last`. -/
structure Span where
  first : Nat
  last : Nat
  stride : Nat

/-- Whether a code point belongs to the span. -/
def Span.contains (s : Span) (n : Nat) : Bool :=
  s.first ≤ n && n ≤ s.last && (n - s.first) % s.stride == 0

/-- Whether a character lies in one of the spans. -/
def inTable (table : Array Span) (c : Char) : Bool := table.any (·.contains c.toNat)

end Stencil.Text
