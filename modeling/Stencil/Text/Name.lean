import Stencil.Text.Scan

/-!
# Names and quotes

The identifiers of the expression language, and string literals taken as they are.

## Main definitions

* `isNameStart`, `isNameChar`, `isName` — identifiers of ASCII letters, digits, `_` and `$`
* `unquote?` — what stands between a pair of equal quotes
-/

namespace Stencil.Text

/-- Whether a character is an ASCII letter. -/
def isLetter (c : Char) : Bool := ('a' ≤ c && c ≤ 'z') || ('A' ≤ c && c ≤ 'Z')

/-- Whether a character can begin an identifier. -/
def isNameStart (c : Char) : Bool := isLetter c || c == '_' || c == '$'

/-- Whether a character can occur in an identifier. -/
def isNameChar (c : Char) : Bool := isLetter c || c.isDigit || c == '_' || c == '$'

/-- Whether all of a text is an identifier. -/
def isName : List Char → Bool
  | [] => false
  | c :: cs => isNameStart c && cs.all isNameChar

/-- Whether a character opens a string literal. -/
def isQuote (c : Char) : Bool := c == '\'' || c == '"'

/-- What stands between the first and the last character, if these are the same kind of quote. -/
def unquote? : List Char → Option (List Char)
  | [] => none
  | q :: rest => if isQuote q && rest.getLast? == some q then some rest.dropLast else none

/-- Every character that can begin an identifier can occur in it. -/
theorem isNameChar_of_isNameStart {c : Char} (h : isNameStart c = true) : isNameChar c = true := by
  simp only [isNameStart, isNameChar, Bool.or_eq_true] at h ⊢
  rcases h with (h | h) | h
  · exact .inl (.inl (.inl h))
  · exact .inl (.inr h)
  · exact .inr h

end Stencil.Text
