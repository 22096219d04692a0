/-!
# Scanning text

Searching, splitting and replacing in lists of characters.

## Main definitions

* `stripPrefix?` — the rest after a given beginning
* `splitOnce?` — the text before and after the first occurrence of a separator
* `hasInfix` — whether a text occurs in another
* `replaceAll` — every occurrence, from left to right without overlap, replaced
* `utf8`, `byteLength` — text in its UTF-8 form, and its length, the unit of positions in messages
-/

namespace Stencil.Text

/-- The bytes of text in its UTF-8 form. -/
def utf8 (cs : List Char) : List UInt8 := cs.flatMap String.utf8EncodeChar

/-- The number of bytes of text in its UTF-8 form. -/
def byteLength (cs : List Char) : Nat := cs.foldr (fun c length => c.utf8Size + length) 0

/-- What follows `start` in a text that begins with it. -/
def stripPrefix? : (start : List Char) → List Char → Option (List Char)
  | [], cs => some cs
  | _ :: _, [] => none
  | s :: start, c :: cs => if s = c then stripPrefix? start cs else none

/-- What precedes `ending` in a text that ends with it. -/
def stripSuffix? (ending cs : List Char) : Option (List Char) :=
  (stripPrefix? ending.reverse cs.reverse).map List.reverse

/-- Whether a text begins with `start`. -/
def startsWith (start cs : List Char) : Bool := (stripPrefix? start cs).isSome

/-- The text before and after the first occurrence of `sep`. -/
def splitOnce? (sep : List Char) : List Char → Option (List Char × List Char)
  | [] => (stripPrefix? sep []).map ([], ·)
  | c :: cs =>
    match stripPrefix? sep (c :: cs) with
    | some rest => some ([], rest)
    | none => (splitOnce? sep cs).map fun (before, after) => (c :: before, after)

/-- Whether `sub` occurs in a text. -/
def hasInfix (sub cs : List Char) : Bool := (splitOnce? sub cs).isSome

/-- Replaces occurrences of `old` while `skip` more characters belong to the last one. -/
def replaceFrom (old new : List Char) : (skip : Nat) → List Char → List Char
  | _, [] => []
  | skip + 1, _ :: cs => replaceFrom old new skip cs
  | 0, c :: cs =>
    if startsWith old (c :: cs) then new ++ replaceFrom old new (old.length - 1) cs
    else c :: replaceFrom old new 0 cs

/-- Every occurrence of the non-empty text `old`, from left to right without overlap, becomes `new`.
-/
def replaceAll (old new cs : List Char) : List Char := replaceFrom old new 0 cs

/-- The pieces between the separators, at least one. -/
def splitOnChar (sep : Char) (cs : List Char) : List (List Char) := cs.splitOnP (· == sep)

theorem stripPrefix?_eq_some_iff {start cs rest : List Char} :
    stripPrefix? start cs = some rest ↔ cs = start ++ rest := by
  induction start generalizing cs with
  | nil => simp [stripPrefix?, eq_comm]
  | cons s start ih =>
    cases cs with
    | nil => simp [stripPrefix?]
    | cons c cs =>
      by_cases h : s = c
      · simp [stripPrefix?, h, ih]
      · simp [stripPrefix?, h, eq_comm]

/-- A split text is the two parts around the separator. That it is the first place where the
separator stands is not said here. -/
theorem eq_of_splitOnce? {sep cs before after : List Char}
    (h : splitOnce? sep cs = some (before, after)) : cs = before ++ sep ++ after := by
  induction cs generalizing before with
  | nil =>
    cases hs : stripPrefix? sep [] with
    | none => simp [splitOnce?, hs] at h
    | some rest =>
      simp only [splitOnce?, hs, Option.map_some, Option.some.injEq, Prod.mk.injEq] at h
      obtain ⟨rfl, rfl⟩ := h
      simpa using stripPrefix?_eq_some_iff.1 hs
  | cons c cs ih =>
    unfold splitOnce? at h
    split at h
    · rename_i rest hs
      simp only [Option.some.injEq, Prod.mk.injEq] at h
      obtain ⟨rfl, rfl⟩ := h
      simpa using stripPrefix?_eq_some_iff.1 hs
    · obtain ⟨⟨b, a⟩, hb, he⟩ := Option.map_eq_some_iff.1 h
      simp only [Prod.mk.injEq] at he
      obtain ⟨rfl, rfl⟩ := he
      simp [ih hb]

theorem utf8_cons (c : Char) (cs : List Char) :
    utf8 (c :: cs) = String.utf8EncodeChar c ++ utf8 cs :=
  List.flatMap_cons

@[simp] theorem byteLength_nil : byteLength [] = 0 := rfl

@[simp] theorem byteLength_append (a b : List Char) :
    byteLength (a ++ b) = byteLength a + byteLength b := by
  induction a with
  | nil => simp
  | cons c a ih => simpa [byteLength, Nat.add_assoc] using ih

end Stencil.Text
