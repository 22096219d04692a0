import Stencil.Decimal.Read
import Stencil.Proofs.Text

/-!
# Decimal digits

The digits that natural numbers and integers are written in, read back.

## Main definitions

* `Decimal.onto` — the value of digits after those of a number

## Main results

* `Decimal.natOfDigits_toDigits`, `Decimal.toDigits_natOfDigits` — digits without zeros in front are
  those of their value
* `Decimal.exists_toDigits_cons` — only zero begins with the digit of zero
* `Decimal.readInt?_toString`, `Decimal.readInt64?_toDigits` — integers are read back
-/

namespace Stencil.Decimal

open Text

/-! ### Values of digits -/

/-- The value of digits after those of a number. -/
abbrev onto (n : Nat) (digits : List Char) : Nat :=
  digits.foldl (fun n c => 10 * n + digitValue c) n

theorem le_onto (n : Nat) (digits : List Char) : n ≤ onto n digits := by
  induction digits generalizing n with
  | nil => exact Nat.le_refl n
  | cons c digits ih =>
      calc n ≤ 10 * n + digitValue c := by omega
        _ ≤ onto n (c :: digits) := ih _

theorem isDigit_of_mem_toDigits {n : Nat} : ∀ c ∈ Nat.toDigits 10 n, c.isDigit = true := by
  intro c hc
  exact Nat.isDigit_of_mem_toDigits (by omega) (Nat.le_refl 10) hc

/-- The digits of a number have its value, which is what lets a written number be read back. -/
theorem natOfDigits_toDigits (n : Nat) : natOfDigits (Nat.toDigits 10 n) = n :=
  Nat.ofDigitChars_eq_foldl.symm.trans Nat.ofDigitChars_ten_toDigits

/-- A number but zero does not begin with the digit of zero. Readers that refuse zeros in front
depend on it. -/
theorem exists_toDigits_cons {n : Nat} (hn : 0 < n) :
    ∃ c cs, Nat.toDigits 10 n = c :: cs ∧ c ≠ '0' := by
  induction n using Nat.strongRecOn with
  | ind n ih =>
      rcases Nat.lt_or_ge n 10 with hlt | hge
      · exact ⟨n.digitChar, [], Nat.toDigits_of_lt_base hlt,
          fun h => absurd (Nat.digitChar_eq_zero.1 h) (by omega)⟩
      · obtain ⟨c, cs, hcs, hc⟩ := ih (n / 10) (by omega) (by omega)
        refine ⟨c, cs ++ [(n % 10).digitChar], ?_, hc⟩
        rw [Nat.toDigits_of_base_le (by omega) hge, hcs, List.cons_append]

theorem digitValue_lt {c : Char} (hc : c.isDigit = true) : digitValue c < 10 := by
  have hle := (toNat_of_isDigit hc).2
  show c.toNat - 48 < 10
  omega

theorem digitChar_digitValue {c : Char} (hc : c.isDigit = true) : (digitValue c).digitChar = c := by
  have hvalue : 48 + digitValue c = c.toNat := Nat.add_sub_of_le (toNat_of_isDigit hc).1
  apply Char.toNat_inj.1
  rw [Nat.toNat_digitChar_of_lt_ten (digitValue_lt hc), hvalue]

theorem toDigits_onto {n : Nat} (hn : 0 < n) {digits : List Char}
    (hdigits : ∀ c ∈ digits, c.isDigit = true) :
    Nat.toDigits 10 (onto n digits) = Nat.toDigits 10 n ++ digits := by
  induction digits generalizing n with
  | nil => exact (List.append_nil _).symm
  | cons c digits ih =>
      have hc := hdigits c List.mem_cons_self
      have hlt := digitValue_lt hc
      have hlast : Nat.toDigits 10 (10 * n + digitValue c) = Nat.toDigits 10 n ++ [c] := by
        have hdiv : (10 * n + digitValue c) / 10 = n := by omega
        have hmod : (10 * n + digitValue c) % 10 = digitValue c := by omega
        have hge : 10 ≤ 10 * n + digitValue c := by omega
        rw [Nat.toDigits_of_base_le (by decide) hge, hdiv, hmod, digitChar_digitValue hc]
      have hpos : 0 < 10 * n + digitValue c := by omega
      calc Nat.toDigits 10 (onto n (c :: digits))
          = Nat.toDigits 10 (10 * n + digitValue c) ++ digits :=
            ih hpos fun d hd => hdigits d (List.mem_cons_of_mem c hd)
        _ = Nat.toDigits 10 n ++ c :: digits := by
            rw [hlast, List.append_assoc, List.singleton_append]

/-- Digits without zeros in front are those of their value. It is the converse of
`natOfDigits_toDigits`, for texts that a printer could have written. -/
theorem toDigits_natOfDigits {digits : List Char} (hne : digits ≠ [])
    (hdigits : ∀ c ∈ digits, c.isDigit = true) (hzero : digits.head? = some '0' → digits = ['0']) :
    Nat.toDigits 10 (natOfDigits digits) = digits := by
  rcases digits with _ | ⟨c, digits⟩
  · exact absurd rfl hne
  · have hc := hdigits c List.mem_cons_self
    by_cases h : c = '0'
    · rw [hzero (congrArg some h)]
      rfl
    · have hpos : 0 < digitValue c := by
        rw [Nat.pos_iff_ne_zero]
        exact fun hv => h ((digitChar_digitValue hc).symm.trans (congrArg Nat.digitChar hv))
      calc Nat.toDigits 10 (natOfDigits (c :: digits))
          = Nat.toDigits 10 (onto (digitValue c) digits) := by
            rw [natOfDigits, List.foldl_cons, Nat.mul_zero, Nat.zero_add]
        _ = Nat.toDigits 10 (digitValue c) ++ digits :=
            toDigits_onto hpos fun d hd => hdigits d (List.mem_cons_of_mem c hd)
        _ = c :: digits := by
            rw [Nat.toDigits_of_lt_base (digitValue_lt hc), digitChar_digitValue hc,
              List.singleton_append]

/-! ### Integers -/

/-- Digits have no sign. -/
theorem splitSign_of_isDigit {cs : List Char} (h : ∀ c ∈ cs, c.isDigit = true) :
    splitSign cs = (false, cs) := by
  unfold splitSign
  split
  · exact absurd (h '-' List.mem_cons_self) (by decide)
  · exact absurd (h '+' List.mem_cons_self) (by decide)
  · rfl

theorem digits_of_readNat? {digits : List Char} {n : Nat} (h : readNat? digits = some n) :
    digits ≠ [] ∧ ∀ c ∈ digits, c.isDigit = true := by
  unfold readNat? at h
  split at h
  · rename_i hdigits
    rw [Bool.and_eq_true, Bool.not_eq_true', List.isEmpty_eq_false_iff, List.all_eq_true]
      at hdigits
    exact hdigits
  · exact nomatch h

theorem readNat?_toDigits (n : Nat) : readNat? (Nat.toDigits 10 n) = some n := by
  have hne : (Nat.toDigits 10 n).isEmpty = false := by
    rw [List.isEmpty_eq_false_iff]
    exact Nat.toDigits_ne_nil
  have hall : (Nat.toDigits 10 n).all Char.isDigit = true :=
    List.all_eq_true.2 isDigit_of_mem_toDigits
  rw [readNat?, hne, hall, natOfDigits_toDigits]
  rfl

theorem int64?_toInt (i : Int64) : int64? i.toInt = some i := by
  have hrange : -Int.pow 2 63 ≤ i.toInt ∧ i.toInt < Int.pow 2 63 := ⟨i.le_toInt, i.toInt_lt⟩
  rw [int64?, if_pos hrange, Int64.ofInt_toInt]

/-- An integer in range is that of 64 bits with its value. -/
theorem int64?_eq_some_iff {z : Int} {i : Int64} : int64? z = some i ↔ i.toInt = z := by
  constructor
  · intro h
    unfold int64? at h
    split at h
    · rename_i hrange
      obtain rfl := Option.some.inj h
      exact Int64.toInt_ofInt_of_le hrange.1 hrange.2
    · exact nomatch h
  · rintro rfl
    exact int64?_toInt i

/-- A signed integer that is not negative is read back from its digits. It is in range by its type,
so the check of the reader succeeds. -/
theorem readInt64?_toDigits {i : Int64} (h : 0 ≤ i.toInt) :
    readInt64? (Nat.toDigits 10 i.toInt.toNat) = some i := by
  have hint : readInt? (Nat.toDigits 10 i.toInt.toNat) = some i.toInt := by
    rw [readInt?, splitSign_of_isDigit isDigit_of_mem_toDigits]
    simp only [readNat?_toDigits]
    exact congrArg some (Int.toNat_of_nonneg h)
  rw [readInt64?, hint]
  exact int64?_toInt i

theorem toList_toString_ofNat (n : Nat) : (toString (Int.ofNat n)).toList = Nat.toDigits 10 n :=
  String.toList_ofList

theorem toList_toString_negSucc (n : Nat) :
    (toString (Int.negSucc n)).toList = '-' :: Nat.toDigits 10 (n + 1) := by
  show ("-" ++ String.ofList (Nat.toDigits 10 (n + 1))).toList = _
  rw [String.toList_append, String.toList_ofList (l := Nat.toDigits 10 (n + 1))]
  rfl

/-- An integer is read back from its text, the sign included. Nothing is asked of its size: it is
the fixed width that bounds what is read. -/
theorem readInt?_toString (z : Int) : readInt? (toString z).toList = some z := by
  cases z with
  | ofNat n =>
      rw [toList_toString_ofNat, readInt?, splitSign_of_isDigit isDigit_of_mem_toDigits]
      simp only [readNat?_toDigits]
      rfl
  | negSucc n =>
      rw [toList_toString_negSucc, readInt?]
      simp only [splitSign, readNat?_toDigits]
      rfl

end Stencil.Decimal
