import Stencil.Text.Quoted

/-!
# Errors in markup

## Main definitions

* `Markup.SyntaxError` — why a text is no markup
* `SyntaxError.message` — its wording; positions are in bytes
-/

namespace Stencil.Markup

/-- Why a text is no markup. Only what is cut off by the end of the text is an error; any other text
is read somehow. -/
inductive SyntaxError where
  | unterminatedStartTag (tag : String) (position : Nat)
  | unterminatedValue (name tag : String) (position : Nat)
  | unterminatedDeclaration (position : Nat)
  | unterminatedEndTag (tag : String) (position : Nat)
  deriving DecidableEq, Repr

/-- The wording of a markup error. -/
def SyntaxError.message : SyntaxError → String
  | .unterminatedStartTag tag position => s!"unterminated start tag <{tag} at byte {position}"
  | .unterminatedValue name tag position =>
    s!"unterminated value of attribute {Text.quoted name} in <{tag}> at byte {position}"
  | .unterminatedDeclaration position => s!"unterminated declaration at byte {position}"
  | .unterminatedEndTag tag position => s!"unterminated end tag </{tag} at byte {position}"

end Stencil.Markup
