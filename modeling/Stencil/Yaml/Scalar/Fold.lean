/-!
# Folded line breaks

## Main definitions

* `foldBreaks` — what the line breaks between two words of a scalar stand for
-/

namespace Stencil.Yaml

/-- One line break is a space, more of them are all but the first. -/
def foldBreaks : (breaks : Nat) → List Char
  | 0 => []
  | 1 => [' ']
  | breaks + 2 => List.replicate (breaks + 1) '\n'

end Stencil.Yaml
