import Stencil.Text.PrintableTable

/-!
# Quoted text

How names and characters are quoted in messages: escapes for the quote, the backslash and the common
controls, the code point of anything else that would not be visible.

## Main definitions

* `quoted` — a string between double quotes
* `quotedChar` — a character between single quotes
-/

namespace Stencil.Text

/-- The digits of a number in base 16, lower case. -/
def hexDigits (n : Nat) : List Char := Nat.toDigits 16 n

/-- A character by its code point. -/
def codePointEscape (c : Char) : List Char :=
  ['\\', 'u', '\x7b'] ++ hexDigits c.toNat ++ ['\x7d']

/-- Whether a character stands for itself within quotes. -/
def isPrintable (c : Char) : Bool :=
  if c.toNat < 0x80 then 0x20 ≤ c.toNat && c.toNat < 0x7F else !inTable unprintable c

/-- A character within quotes of the kind `quote`. -/
def escapedWithin (quote c : Char) : List Char :=
  if c == '\\' then ['\\', '\\']
  else if c == quote then ['\\', quote]
  else if c == '\n' then ['\\', 'n']
  else if c == '\r' then ['\\', 'r']
  else if c == '\t' then ['\\', 't']
  else if c.toNat == 0 then ['\\', '0']
  else if isPrintable c then [c]
  else codePointEscape c

/-- A string between double quotes. -/
def quoted (s : String) : String :=
  String.ofList (['"'] ++ s.toList.flatMap (escapedWithin '"') ++ ['"'])

/-- A character between single quotes. -/
def quotedChar (c : Char) : String :=
  String.ofList (['\''] ++ escapedWithin '\'' c ++ ['\''])

end Stencil.Text
