/-!
# Blank characters

Which characters separate words, and how text is trimmed of them.

## Main definitions

* `isBlank` — the characters with the property `White_Space`
* `trim`, `trimStart`, `trimEnd` — a list of characters without its outer blanks
* `isBlankText` — text that holds nothing but blanks

## Design notes

Scanners in this library work on lists of characters, so the list forms are the primary ones and the
`String` forms wrap them.
-/

namespace Stencil.Text

/-- The characters with the property `White_Space`. -/
def isBlank (c : Char) : Bool :=
  let n := c.toNat
  (0x09 ≤ n && n ≤ 0x0D) || n == 0x20 || n == 0x85 || n == 0xA0 || n == 0x1680 ||
    (0x2000 ≤ n && n ≤ 0x200A) || n == 0x2028 || n == 0x2029 || n == 0x202F || n == 0x205F ||
    n == 0x3000

/-- Text without its leading blanks. -/
def trimStart (cs : List Char) : List Char := cs.dropWhile isBlank

/-- Text without its trailing blanks. -/
def trimEnd (cs : List Char) : List Char := (cs.reverse.dropWhile isBlank).reverse

/-- Text without the blanks on either side. -/
def trim (cs : List Char) : List Char := trimEnd (trimStart cs)

/-- Whether text holds nothing but blanks. -/
def isBlankText (cs : List Char) : Bool := cs.all isBlank

/-- A string without the blanks on either side. -/
def trimmed (s : String) : String := String.ofList (trim s.toList)

@[simp] theorem trim_nil : trim [] = [] := rfl

/-- Dropping blanks from blank text leaves nothing. -/
theorem trimStart_eq_nil_of_isBlankText {cs : List Char} (h : isBlankText cs = true) :
    trimStart cs = [] := by
  induction cs with
  | nil => rfl
  | cons c cs ih =>
    simp only [isBlankText, List.all_cons, Bool.and_eq_true] at h
    simpa [trimStart, List.dropWhile, h.1] using ih h.2

/-- Blank text trims to nothing. -/
theorem trim_eq_nil_of_isBlankText {cs : List Char} (h : isBlankText cs = true) : trim cs = [] := by
  simp [trim, trimStart_eq_nil_of_isBlankText h, trimEnd]

end Stencil.Text
