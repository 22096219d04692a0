import Stencil.Text.Scan

/-!
# Escaping markup

How text is written so that it is not read as markup.

## Main definitions

* `escape` — characters that markup reserves as references
* `looksEscaped`, `escapeUnlessEscaped` — the same, but for text that seems to hold references
  already
-/

namespace Stencil.Markup

/-- A character as text of markup. -/
def escapeChar (c : Char) : List Char :=
  match c with
  | '&' => "&amp;".toList
  | '<' => "&lt;".toList
  | '>' => "&gt;".toList
  | '"' => "&quot;".toList
  | '\'' => "&#39;".toList
  | c => [c]

/-- Text with the characters that markup reserves as references. -/
def escapeChars (cs : List Char) : List Char := cs.flatMap escapeChar

/-- Whether a text has both marks of a reference. -/
def looksEscapedChars (cs : List Char) : Bool := cs.contains '&' && cs.contains ';'

/-- Text with reserved characters as references, unless it has the marks of a reference already. -/
def escapeUnlessEscaped (cs : List Char) : List Char :=
  if looksEscapedChars cs then cs else escapeChars cs

/-- A string with the characters that markup reserves as references. -/
def escape (s : String) : String := String.ofList (escapeChars s.toList)

/-- Whether a string has both marks of a reference. -/
def looksEscaped (s : String) : Bool := looksEscapedChars s.toList

/-- Escaping goes character by character. -/
@[simp] theorem escapeChars_append (a b : List Char) :
    escapeChars (a ++ b) = escapeChars a ++ escapeChars b := by
  simp [escapeChars]

end Stencil.Markup
