import Stencil.Json.Reader
import Stencil.Proofs.Decimal

/-!
# Leaves of JSON documents

Numbers and strings are read back from their texts.

## Main definitions

* `Json.Ends` — text in front of which a number ends
* `Json.Number.Exact` — numbers that have one text

## Main results

* `Json.readNumber?_text` — an integer is read from its text
* `Json.readString?_stringText` — a string is read from its text, whatever it holds
-/

namespace Stencil.Json

open Stencil.Decimal Stencil.Text

variable {rest : List Char}

/-! ### Numbers -/

/-- Neither digits nor a fraction nor an exponent go on at the start of a text. -/
def Ends (rest : List Char) : Prop :=
  ∀ c ∈ rest.head?, c.isDigit = false ∧ c ∉ ['.', 'e', 'E']

/-- Integers, negative ones in their own form. -/
def Number.Exact : Number → Prop
  | .unsigned _ => True
  | .negative i => i.toInt < 0
  | .float _ => False

/-- Nothing goes on at the end of a text. -/
theorem ends_nil : Ends [] := fun _ hc => nomatch hc

/-- A character that is in no number ends one. -/
theorem ends_cons {c : Char} (h : c.isDigit = false ∧ c ∉ ['.', 'e', 'E']) (cs : List Char) :
    Ends (c :: cs) := fun _ hd => Option.some.inj hd ▸ h

/-- Digits are read to their end if the number stays in range. The value so far is left free, as
each digit is added to that of those before. -/
theorem takeDigits_append {digits : List Char} (hdigits : ∀ c ∈ digits, c.isDigit = true)
    (hrest : ∀ c ∈ rest.head?, c.isDigit = false) (n count : Nat)
    (hvalue : onto n digits < Nat.pow 2 64) :
    takeDigits n count (digits ++ rest) = (onto n digits, count + digits.length, rest) := by
  induction digits generalizing n count with
  | nil =>
      rcases rest with _ | ⟨c, rest⟩
      · rfl
      · rw [List.nil_append, takeDigits, hrest c rfl]
        rfl
  | cons c digits ih =>
      have hc := hdigits c List.mem_cons_self
      have hle : 10 * n + digitValue c < Nat.pow 2 64 := Nat.lt_of_le_of_lt (le_onto _ _) hvalue
      have htail := ih (fun d hd => hdigits d (List.mem_cons_of_mem c hd)) (10 * n + digitValue c)
        (count + 1) hvalue
      rw [List.cons_append, takeDigits, hc, decide_eq_true hle, Bool.and_self, if_pos rfl, htail,
        List.length_cons, Nat.add_assoc, Nat.add_comm 1]
      rfl

/-- The digits of a number are read as the number, as long as it fits in 64 bits. A zero stands
alone: the reader takes no digit after it. -/
theorem readMagnitude?_toDigits (negative : Bool) {n : Nat} (hn : n < Nat.pow 2 64)
    (hrest : Ends rest) :
    readMagnitude? negative (Nat.toDigits 10 n ++ rest) = readNumberEnd? negative n rest := by
  have hstop : ∀ c ∈ rest.head?, c.isDigit = false := fun c hc => (hrest c hc).1
  rcases Nat.eq_zero_or_pos n with rfl | hpos
  · rcases rest with _ | ⟨c, rest⟩
    · rfl
    · show (if c.isDigit then none else readNumberEnd? negative 0 (c :: rest)) = _
      rw [hstop c rfl]
      rfl
  · have hdigits := isDigit_of_mem_toDigits (n := n)
    have hvalue : onto 0 (Nat.toDigits 10 n) = n := natOfDigits_toDigits n
    have htake := takeDigits_append hdigits hstop 0 0 (hvalue.symm ▸ hn)
    obtain ⟨hextra, -⟩ :=
      takeWhile_append (List.forall_mem_nil fun c => Char.isDigit c = true) hstop
    rw [hvalue] at htake
    rw [List.nil_append] at hextra
    obtain ⟨c, cs, hcs, hc⟩ := exists_toDigits_cons hpos
    rw [hcs] at htake hdigits ⊢
    rw [List.cons_append] at htake ⊢
    rw [readMagnitude?]
    · simp only [hdigits c List.mem_cons_self, if_true, htake, hextra, List.isEmpty_nil]
    · exact fun he => hc he

/-- Digits that nothing goes on are an unsigned integer. -/
theorem readNumberEnd?_of_ends {significand : Nat} (hrest : Ends rest) :
    readNumberEnd? false significand rest = some (.unsigned (UInt64.ofNat significand), rest) := by
  rcases rest with _ | ⟨c, rest⟩
  · rfl
  · have hc := (hrest c rfl).2
    simp only [List.mem_cons, List.not_mem_nil, or_false, not_or] at hc
    simp [readNumberEnd?, hc.1, hc.2.1, hc.2.2]

/-- With a sign in front they are a negative integer, down to the least one. -/
theorem readNumberEnd?_of_ends_negative {significand : Nat} (hpos : 0 < significand)
    (hle : significand ≤ Nat.pow 2 63) (hrest : Ends rest) :
    readNumberEnd? true significand rest =
      some (.negative (Int64.ofInt (-(significand : Int))), rest) := by
  have hbound : 0 < significand ∧ significand ≤ Nat.pow 2 63 := ⟨hpos, hle⟩
  rcases rest with _ | ⟨c, rest⟩
  · exact if_pos hbound
  · have hc := (hrest c rfl).2
    simp only [List.mem_cons, List.not_mem_nil, or_false, not_or] at hc
    simp [readNumberEnd?, hc.1, hc.2.1, hc.2.2, hbound]

/-- An unsigned integer is written with its digits. -/
theorem Number.text_unsigned (n : UInt64) :
    (Number.unsigned n).text = Nat.toDigits 10 n.toNat := String.toList_ofList

/-- A negative one is written with a sign and the digits of its magnitude. -/
theorem Number.text_negative {i : Int64} {m : Nat} (h : i.toInt = Int.negSucc m) :
    (Number.negative i).text = '-' :: Nat.toDigits 10 (m + 1) := by
  rw [Number.text, h]
  exact toList_toString_negSucc m

/-- The text of an integer begins with a digit or a sign. -/
theorem Number.Exact.exists_cons {n : Number} (h : n.Exact) :
    ∃ c cs, n.text = c :: cs ∧ (c = '-' ∨ c.isDigit = true) := by
  cases n with
  | unsigned n =>
      have hne : Nat.toDigits 10 n.toNat ≠ [] := Nat.toDigits_ne_nil
      obtain ⟨c, cs, hcs⟩ := List.exists_cons_of_ne_nil hne
      have hc : c ∈ Nat.toDigits 10 n.toNat := hcs ▸ List.mem_cons_self
      exact ⟨c, cs, (Number.text_unsigned n).trans hcs, .inr (isDigit_of_mem_toDigits c hc)⟩
  | negative i =>
      obtain ⟨m, hm⟩ := Int.eq_negSucc_of_lt_zero h
      exact ⟨'-', _, Number.text_negative hm, .inl rfl⟩
  | float x => exact h.elim

/-- An integer is read from its text, if what follows cannot be part of a number. The range of 64
bits is that of the magnitude, and one more for negative integers. -/
theorem readNumber?_text {n : Number} (hn : n.Exact) (hrest : Ends rest) :
    readNumber? (n.text ++ rest) = some (n, rest) := by
  cases n with
  | unsigned n =>
      have hread := readMagnitude?_toDigits false n.toNat_lt hrest
      have hsign : ∀ cs, Nat.toDigits 10 n.toNat ++ rest ≠ '-' :: cs := by
        intro cs he
        rcases List.append_eq_cons_iff.1 he with ⟨hnil, -⟩ | ⟨digits, hdigits, -⟩
        · exact Nat.toDigits_ne_nil hnil
        · have hdigit := isDigit_of_mem_toDigits (n := n.toNat) '-' (hdigits ▸ List.mem_cons_self)
          exact absurd hdigit (by decide)
      rw [Number.text_unsigned, readNumber?, hread, readNumberEnd?_of_ends hrest,
        UInt64.ofNat_toNat]
      exact hsign
  | negative i =>
      have hneg : i.toInt < 0 := hn
      obtain ⟨m, hm⟩ := Int.eq_negSucc_of_lt_zero hneg
      have hle : m + 1 ≤ 2 ^ 63 := by
        have := i.le_toInt
        omega
      have hread := readMagnitude?_toDigits (n := m + 1) true (show m + 1 < 2 ^ 64 by omega) hrest
      have hvalue : Int64.ofInt (-((m + 1 : Nat) : Int)) = i := by
        have hint : -((m + 1 : Nat) : Int) = i.toInt := hm.symm
        rw [hint, Int64.ofInt_toInt]
      rw [Number.text_negative hm, List.cons_append, readNumber?, hread,
        readNumberEnd?_of_ends_negative (Nat.succ_pos m) hle hrest, hvalue]
  | float x => exact hn.elim

/-! ### Strings -/

/-- Four hexadecimal digits are read the same whatever follows. -/
theorem takeHexFour?_append {n : Nat} {digits : List Char} (h : takeHexFour? digits = some (n, []))
    (cs : List Char) : takeHexFour? (digits ++ cs) = some (n, cs) := by
  rcases digits with _ | ⟨a, _ | ⟨b, _ | ⟨c, _ | ⟨d, digits⟩⟩⟩⟩
  · exact nomatch h
  · exact nomatch h
  · exact nomatch h
  · exact nomatch h
  · simp only [List.cons_append, takeHexFour?, Option.bind_eq_bind, Option.bind_eq_some_iff,
      Option.some.injEq, Prod.mk.injEq] at h ⊢
    obtain ⟨x, hx, y, hy, z, hz, w, hw, hvalue, rfl⟩ := h
    exact ⟨x, hx, y, hy, z, hz, w, hw, hvalue, rfl⟩

/-- A control character is read back from its four digits. -/
theorem takeHexFour?_hexFour {n : Nat} (hn : n < 0x20) (cs : List Char) :
    takeHexFour? (hexFour n ++ cs) = some (n, cs) := by
  have hcontrols : ∀ n < 0x20, takeHexFour? (hexFour n) = some (n, []) := by decide +kernel
  exact takeHexFour?_append (hcontrols n hn) cs

/-- A character that is escaped by its number is read back. -/
theorem takeCodePoint?_hexFour {c : Char} (hc : c.toNat < 0x20) (cs : List Char) :
    takeCodePoint? (hexFour c.toNat ++ cs) = some (c, cs) := by
  have hlow : ¬ (0xD800 ≤ c.toNat ∧ c.toNat ≤ 0xDBFF) := by omega
  have hhigh : ¬ (0xDC00 ≤ c.toNat ∧ c.toNat ≤ 0xDFFF) := by omega
  rw [takeCodePoint?, takeHexFour?_hexFour hc]
  show (if 0xD800 ≤ c.toNat ∧ c.toNat ≤ 0xDBFF then _ else _) = _
  rw [if_neg hlow, if_neg hhigh, Char.ofNat_toNat]

section Characters

variable (steps : Nat) (cs : List Char)

/-- An escape with a letter of its own stands for its character. -/
theorem readStringChars?_simple {e c : Char} (he : e ≠ 'u') (hvalue : simpleEscape? e = some c) :
    readStringChars? (steps + 1) ('\\' :: e :: cs) =
      (readStringChars? steps cs).map fun (others, rest) => (c :: others, rest) := by
  rw [readStringChars?]
  · rw [hvalue, Option.map_eq_bind]
    rfl
  · exact fun h => he h

/-- A control character is read back from its numeric escape. -/
theorem readStringChars?_number {c : Char} (hc : c.toNat < 0x20) :
    readStringChars? (steps + 1) ('\\' :: 'u' :: (hexFour c.toNat ++ cs)) =
      (readStringChars? steps cs).map fun (others, rest) => (c :: others, rest) := by
  rw [readStringChars?, takeCodePoint?_hexFour hc, Option.map_eq_bind]
  rfl

/-- Any other character stands for itself. -/
theorem readStringChars?_plain {c : Char} (hquote : c ≠ '"') (hescape : c ≠ '\\')
    (hc : ¬ c.toNat < 0x20) :
    readStringChars? (steps + 1) (c :: cs) =
      (readStringChars? steps cs).map fun (others, rest) => (c :: others, rest) := by
  rw [readStringChars?]
  · exact if_neg hc
  · exact hquote
  · exact fun _ h _ => hescape h
  · exact fun _ _ h _ => hescape h
  · exact fun h _ => hescape h

/-- A character is read from its text, be it the character itself, a short escape, or the number of
a control character. -/
theorem readStringChars?_escaped (c : Char) :
    readStringChars? (steps + 1) (escaped c ++ cs) =
      (readStringChars? steps cs).map fun (others, rest) => (c :: others, rest) := by
  unfold escaped
  split
  · exact readStringChars?_simple steps cs (by decide) rfl
  · exact readStringChars?_simple steps cs (by decide) rfl
  · exact readStringChars?_simple steps cs (by decide) rfl
  · exact readStringChars?_simple steps cs (by decide) rfl
  · exact readStringChars?_simple steps cs (by decide) rfl
  · exact readStringChars?_simple steps cs (by decide) rfl
  · exact readStringChars?_simple steps cs (by decide) rfl
  · rename_i hquote hescape _ _ _ _ _
    split
    · rename_i hc
      exact readStringChars?_number steps cs hc
    · rename_i hc
      exact readStringChars?_plain steps cs hquote hescape hc

end Characters

/-- A string is read back from its escaped characters, up to its quote. -/
theorem readStringChars?_flatMap {chars : List Char} {steps : Nat} (hsteps : chars.length < steps) :
    readStringChars? steps (chars.flatMap escaped ++ '"' :: rest) = some (chars, rest) := by
  induction chars generalizing steps with
  | nil =>
      obtain ⟨steps, rfl⟩ : ∃ n, steps = n + 1 := ⟨steps - 1, by simp at hsteps; omega⟩
      rfl
  | cons c chars ih =>
      obtain ⟨steps, rfl⟩ : ∃ n, steps = n + 1 := ⟨steps - 1, by omega⟩
      rw [List.flatMap_cons, List.append_assoc, readStringChars?_escaped,
        ih (by rw [List.length_cons] at hsteps; omega)]
      rfl

/-- Every character is written with at least one. -/
theorem escaped_ne_nil (c : Char) : escaped c ≠ [] := by
  unfold escaped
  split <;> try exact List.cons_ne_nil _ _
  split
  · exact List.cons_ne_nil _ _
  · exact List.cons_ne_nil _ _

/-- The written string is no shorter, so the steps that its length allows are enough. -/
theorem length_le_flatMap_escaped (chars : List Char) :
    chars.length ≤ (chars.flatMap escaped).length := by
  induction chars with
  | nil => exact Nat.le_refl 0
  | cons c chars ih =>
      have hpos : 0 < (escaped c).length := List.length_pos_iff.2 (escaped_ne_nil c)
      rw [List.flatMap_cons, List.length_append, List.length_cons]
      omega

/-- A string is read from its text. The induction is on its characters, with one lemma for each way
in which one may be written. -/
theorem readString?_stringText (s : String) :
    readString? (s.toList.flatMap escaped ++ '"' :: rest) = some (s, rest) := by
  have hlength := length_le_flatMap_escaped s.toList
  rw [readString?, readStringChars?_flatMap (by rw [List.length_append]; omega)]
  show some (String.ofList s.toList, rest) = _
  rw [String.ofList_toList]

end Stencil.Json
