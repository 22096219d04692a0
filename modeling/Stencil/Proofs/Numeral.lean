import Stencil.Pipe.Basic
import Stencil.Proofs.Decimal
import Stencil.Proofs.Text
import Stencil.Yaml.Reader

/-!
# Text that is read as a number

A float is read from a numeral, which has a digit somewhere, and from a word for a float that is not
finite: `inf`, `infinity` and `nan`, in any case and with a sign. So a text without a digit can be a
number all the same, and what would be a name or a string is a float.

## Main definitions

* `Digitless` — a text has no decimal digit
* `Decimal.Numeral` — a text is a decimal
* `Decimal.Names` — a text is a word for a float that is not finite
* `Pipe.Arg.Reads` — what an argument without a digit is
* `Yaml.Reads` — what a plain scalar without a digit is

## Main results

* `Decimal.readFloat?_eq_some_iff` — a float is read from a numeral or a word, and from nothing else
* `reads_iff` — arguments and plain scalars without a digit, and scalars of the other styles

## Design notes

A block scalar is read as a plain one is; only quotes make a scalar a string.
-/

namespace Stencil

open Text

/-- There is no decimal digit in a text. -/
def Digitless (cs : List Char) : Prop := ∀ c ∈ cs, c.isDigit = false

instance (cs : List Char) : Decidable (Digitless cs) :=
  List.decidableBAll (fun c : Char => c.isDigit = false) cs

namespace Decimal

/-! ### Numerals and words -/

/-- One digit or more. -/
def IsRun (cs : List Char) : Prop := cs ≠ [] ∧ ∀ c ∈ cs, c.isDigit = true

/-- An optional sign, and whether it makes a number negative. -/
inductive Signs : List Char → Bool → Prop
  | none : Signs [] false
  | plus : Signs ['+'] false
  | minus : Signs ['-'] true

/-- The exponent part of a decimal, which may be missing. -/
inductive Exponent : List Char → Prop
  | none : Exponent []
  | some {mark : Char} {sign digits : List Char} {negative : Bool} (hmark : mark = 'e' ∨ mark = 'E')
      (hsign : Signs sign negative) (hdigits : IsRun digits) : Exponent (mark :: (sign ++ digits))

/-- A decimal without sign: digits, with a point somewhere or none, and an exponent part. -/
inductive Magnitude : List Char → Prop
  | whole {whole exponent : List Char} (hwhole : IsRun whole) (hexponent : Exponent exponent) :
      Magnitude (whole ++ exponent)
  | point {whole fraction exponent : List Char} (hdigits : IsRun (whole ++ fraction))
      (hexponent : Exponent exponent) : Magnitude (whole ++ '.' :: (fraction ++ exponent))

/-- A decimal. -/
inductive Numeral : List Char → Prop
  | mk {sign magnitude : List Char} {negative : Bool} (hsign : Signs sign negative)
      (hmagnitude : Magnitude magnitude) : Numeral (sign ++ magnitude)

/-- A word for a float that is not finite: `inf`, `infinity` or `nan`, after a sign or without one,
in letters of either case. -/
inductive Names : List Char → Float → Prop
  | infinity {sign word : List Char} {negative : Bool} (hsign : Signs sign negative)
      (hword : word.map Char.toLower ∈ ["inf".toList, "infinity".toList]) :
      Names (sign ++ word) (Parts.infinite negative).toFloat
  | nan {sign word : List Char} {negative : Bool} (hsign : Signs sign negative)
      (hword : word.map Char.toLower = "nan".toList) : Names (sign ++ word) Parts.nan.toFloat

variable {cs : List Char}

/-- Only runs of digits are read as natural numbers. -/
theorem IsRun.of_readNat? {n : Nat} (h : readNat? cs = some n) : IsRun cs :=
  digits_of_readNat? h

/-- Every run of digits is read, as the number that it denotes. -/
theorem IsRun.readNat? (h : IsRun cs) : readNat? cs = some (natOfDigits cs) := by
  rw [Decimal.readNat?, if_pos]
  simpa [IsRun] using h

/-- There is a digit in every magnitude, before the point or behind it. -/
theorem Magnitude.exists_isDigit (h : Magnitude cs) : ∃ c ∈ cs, c.isDigit = true := by
  cases h with
  | whole hwhole _ =>
      obtain ⟨c, hc⟩ := List.exists_mem_of_ne_nil _ hwhole.1
      exact ⟨c, List.mem_append_left _ hc, hwhole.2 c hc⟩
  | point hdigits _ =>
      obtain ⟨c, hc⟩ := List.exists_mem_of_ne_nil _ hdigits.1
      refine ⟨c, ?_, hdigits.2 c hc⟩
      simp only [List.mem_append, List.mem_cons] at hc ⊢
      rcases hc with hc | hc
      · exact .inl hc
      · exact .inr (.inr (.inl hc))

/-- So no numeral is without digits. -/
theorem Numeral.not_digitless (h : Numeral cs) : ¬Digitless cs := by
  intro hno
  obtain ⟨_, hmagnitude⟩ := h
  obtain ⟨c, hc, hdigit⟩ := hmagnitude.exists_isDigit
  exact absurd (hno c (List.mem_append_right _ hc)) (by rw [hdigit]; decide)

/-- A decimal without sign begins with a digit or with its point. -/
theorem Magnitude.head (h : Magnitude cs) :
    ∃ c rest, cs = c :: rest ∧ (c.isDigit = true ∨ c = '.') := by
  cases h with
  | @whole whole exponent hwhole _ =>
      obtain ⟨c, rest, rfl⟩ := List.exists_cons_of_ne_nil hwhole.1
      exact ⟨c, rest ++ exponent, rfl, .inl (hwhole.2 c List.mem_cons_self)⟩
  | @point whole fraction exponent hdigits _ =>
      rcases whole with _ | ⟨c, rest⟩
      · exact ⟨'.', _, rfl, .inr rfl⟩
      · exact ⟨c, _, rfl, .inl (hdigits.2 c List.mem_cons_self)⟩

/-! ### Signs -/

/-- A sign is split off. -/
theorem exists_signs_splitSign (cs : List Char) :
    ∃ sign, Signs sign (splitSign cs).1 ∧ cs = sign ++ (splitSign cs).2 := by
  unfold splitSign
  split
  · exact ⟨_, .minus, rfl⟩
  · exact ⟨_, .plus, rfl⟩
  · exact ⟨_, .none, rfl⟩

/-- A sign is split off where no further sign follows it. -/
theorem splitSign_append {sign rest : List Char} {negative : Bool} (hsign : Signs sign negative)
    (hrest : ∀ c ∈ rest.head?, c ≠ '-' ∧ c ≠ '+') :
    splitSign (sign ++ rest) = (negative, rest) := by
  cases hsign with
  | none =>
      show splitSign rest = _
      unfold splitSign
      split
      · exact absurd rfl (hrest '-' rfl).1
      · exact absurd rfl (hrest '+' rfl).2
      · rfl
  | plus => rfl
  | minus => rfl

/-- No digit is a sign. -/
theorem ne_sign_of_isDigit {c : Char} (h : c.isDigit = true) : c ≠ '-' ∧ c ≠ '+' := by
  constructor
  · rintro rfl
    exact absurd h (by decide)
  · rintro rfl
    exact absurd h (by decide)

/-- The sign in front of a run of digits is all that is split off. -/
theorem splitSign_run {sign digits : List Char} {negative : Bool} (hsign : Signs sign negative)
    (hdigits : IsRun digits) : splitSign (sign ++ digits) = (negative, digits) := by
  refine splitSign_append hsign fun c hc => ?_
  exact ne_sign_of_isDigit (hdigits.2 c (List.mem_of_mem_head? hc))

/-! ### What is read -/

/-- An exponent is read just if it is one: nothing, or an `e` with an optional sign and a run of
digits. -/
theorem readExponent?_isSome_iff : (readExponent? cs).isSome = true ↔ Exponent cs := by
  constructor
  · intro h
    rcases cs with _ | ⟨mark, cs⟩
    · exact .none
    · simp only [readExponent?] at h
      split at h
      · rename_i hmark
        obtain ⟨sign, hsign, hcs⟩ := exists_signs_splitSign cs
        rcases hn : readNat? (splitSign cs).2 with _ | n
        · simp [hn] at h
        · rw [hcs]
          exact .some (by simpa using hmark) hsign (.of_readNat? hn)
      · exact nomatch h
  · intro h
    cases h with
    | none => rfl
    | some hmark hsign hdigits =>
        rw [readExponent?, if_pos (by simpa using hmark), splitSign_run hsign hdigits]
        simp only [hdigits.readNat?]
        rfl

/-- An integer is a decimal. -/
theorem numeral_of_run {sign digits : List Char} {negative : Bool} (hsign : Signs sign negative)
    (hdigits : IsRun digits) : Numeral (sign ++ digits) := by
  have hmagnitude := Magnitude.whole hdigits .none
  rw [List.append_nil] at hmagnitude
  exact .mk hsign hmagnitude

/-- Whatever is read as a signed integer is a numeral. -/
theorem numeral_of_readInt64? {i : Int64} (h : readInt64? cs = some i) : Numeral cs := by
  obtain ⟨sign, hsign, hcs⟩ := exists_signs_splitSign cs
  rcases hn : readNat? (splitSign cs).2 with _ | n
  · simp [readInt64?, readInt?, hn] at h
  · rw [hcs]
    exact numeral_of_run hsign (.of_readNat? hn)

/-- Whatever is read as an unsigned integer is a numeral. -/
theorem numeral_of_readUInt64? {u : UInt64} (h : readUInt64? cs = some u) : Numeral cs := by
  obtain ⟨n, hn, -⟩ := Option.bind_eq_some_iff.1 h
  unfold readUnsigned? at hn
  split at hn
  · exact numeral_of_run .plus (.of_readNat? hn)
  · exact numeral_of_run .none (.of_readNat? hn)

/-- A decimal is its digits, a point between them or none, and what follows. -/
theorem append_splitDecimal (cs : List Char) :
    (cs = (splitDecimal cs).1 ++ (splitDecimal cs).2.2 ∧ (splitDecimal cs).2.1 = []) ∨
      cs = (splitDecimal cs).1 ++ '.' :: ((splitDecimal cs).2.1 ++ (splitDecimal cs).2.2) := by
  unfold splitDecimal
  split
  · rename_i rest hrest
    refine .inr ?_
    rw [List.takeWhile_append_dropWhile, ← hrest, List.takeWhile_append_dropWhile]
  · exact .inl ⟨(List.takeWhile_append_dropWhile).symm, rfl⟩

/-- What stands before and behind the point of a decimal are digits alone; all else is left for the
exponent. -/
theorem isDigit_of_mem_splitDecimal {c : Char}
    (h : c ∈ (splitDecimal cs).1 ++ (splitDecimal cs).2.1) : c.isDigit = true := by
  unfold splitDecimal at h
  split at h
  · rcases List.mem_append.1 h with h | h
    · exact List.mem_takeWhile_imp h
    · exact List.mem_takeWhile_imp h
  · rw [List.append_nil] at h
    exact List.mem_takeWhile_imp h

/-- An exponent part begins with its mark. -/
theorem Exponent.head (h : Exponent cs) : ∀ c ∈ cs.head?, c.isDigit = false ∧ c ≠ '.' := by
  intro c hc
  cases h with
  | none => exact nomatch hc
  | some hmark _ _ =>
      cases hc
      rcases hmark with rfl | rfl
      · exact ⟨by decide, by decide⟩
      · exact ⟨by decide, by decide⟩

/-- Digits without a point have no fraction. -/
theorem splitDecimal_whole {whole exponent : List Char} (hwhole : ∀ c ∈ whole, c.isDigit = true)
    (hexponent : Exponent exponent) : splitDecimal (whole ++ exponent) = (whole, [], exponent) := by
  obtain ⟨htake, hdrop⟩ := takeWhile_append hwhole fun c hc => (hexponent.head c hc).1
  unfold splitDecimal
  rw [htake, hdrop]
  split
  · exact absurd rfl (hexponent.head '.' rfl).2
  · rfl

/-- Digits with a point are split there. -/
theorem splitDecimal_point {whole fraction exponent : List Char}
    (hdigits : ∀ c ∈ whole ++ fraction, c.isDigit = true) (hexponent : Exponent exponent) :
    splitDecimal (whole ++ '.' :: (fraction ++ exponent)) = (whole, fraction, exponent) := by
  have hpoint : ∀ c ∈ ('.' :: (fraction ++ exponent)).head?, c.isDigit = false := by
    rintro c hc
    cases hc
    rfl
  obtain ⟨htake, hdrop⟩ :=
    takeWhile_append (fun c hc => hdigits c (List.mem_append_left _ hc)) hpoint
  obtain ⟨htake', hdrop'⟩ := takeWhile_append
    (fun c hc => hdigits c (List.mem_append_right _ hc)) fun c hc => (hexponent.head c hc).1
  simp only [splitDecimal, htake, hdrop, htake', hdrop']

section Rounding

variable {round : Bool → Nat → Nat → Float} {negative : Bool}

/-- A decimal is read just if it is a magnitude, however it is rounded. The grammar of magnitudes
has an integral part, a fraction and an exponent, as the reader has. -/
theorem readDecimal?_isSome_iff :
    (readDecimal? round negative cs).isSome = true ↔ Magnitude cs := by
  constructor
  · intro h
    have hdigits := @isDigit_of_mem_splitDecimal cs
    have hsplit := append_splitDecimal cs
    simp only [readDecimal?] at h
    split at h
    · exact nomatch h
    · rename_i hne
      rw [Option.isSome_map, readExponent?_isSome_iff] at h
      have hrun : IsRun ((splitDecimal cs).1 ++ (splitDecimal cs).2.1) :=
        ⟨by simpa using hne, fun c hc => hdigits hc⟩
      rcases hsplit with ⟨hcs, hfraction⟩ | hcs
      · rw [hfraction, List.append_nil] at hrun
        rw [hcs]
        exact .whole hrun h
      · rw [hcs]
        exact .point hrun h
  · intro h
    cases h with
    | whole hwhole hexponent =>
        have hne := hwhole.1
        simpa [readDecimal?, splitDecimal_whole hwhole.2 hexponent, hne] using
          readExponent?_isSome_iff.2 hexponent
    | point hdigits hexponent =>
        have hne := hdigits.1
        rw [Ne, List.append_eq_nil_iff] at hne
        simpa [readDecimal?, splitDecimal_point hdigits.2 hexponent, hne] using
          readExponent?_isSome_iff.2 hexponent

end Rounding

/-! ### Words -/

theorem toLower_of_isDigit {c : Char} (h : c.isDigit = true) : c.toLower = c := by
  refine dif_neg fun hupper => ?_
  have hlow : 65 ≤ c.toNat := UInt32.le_iff_toNat_le.1 hupper.1
  have := toNat_of_isDigit h
  omega

/-- The words for infinities and for what is no number, in any case. -/
theorem isSpecialWord_iff : isSpecialWord cs = true ↔
    cs.map Char.toLower ∈ ["inf".toList, "infinity".toList] ∨
      cs.map Char.toLower = "nan".toList := by
  simp only [isSpecialWord, Bool.or_eq_true, beq_iff_eq, List.mem_cons, List.not_mem_nil, or_false]

/-- A word begins with a letter: with no sign, no point and no quote. So it is not mistaken for a
number or a string. -/
theorem head_of_isSpecialWord (h : isSpecialWord cs = true) :
    ∀ c ∈ cs.head?, c.isDigit = false ∧ c ∉ ['-', '+', '.', '\'', '"'] := by
  intro c hc
  obtain ⟨rest, rfl⟩ : ∃ rest, cs = c :: rest := by
    rcases cs with _ | ⟨d, rest⟩
    · exact nomatch hc
    · cases hc
      exact ⟨rest, rfl⟩
  have hletter : c.toLower = 'i' ∨ c.toLower = 'n' := by
    rw [isSpecialWord_iff, List.map_cons] at h
    simp only [List.mem_cons, List.not_mem_nil, or_false] at h
    rcases h with (h | h) | h
    · exact .inl (List.cons.inj h).1
    · exact .inl (List.cons.inj h).1
    · exact .inr (List.cons.inj h).1
  constructor
  · rw [Bool.eq_false_iff]
    intro hdigit
    rw [toLower_of_isDigit hdigit] at hletter
    rcases hletter with rfl | rfl
    · exact absurd hdigit (by decide)
    · exact absurd hdigit (by decide)
  · intro hmem
    simp only [List.mem_cons, List.not_mem_nil, or_false] at hmem
    rcases hmem with rfl | rfl | rfl | rfl | rfl
    all_goals exact absurd hletter (by decide)

/-- A magnitude has a digit, so it is none of the special words. -/
theorem isSpecialWord_of_magnitude (h : Magnitude cs) : isSpecialWord cs = false := by
  obtain ⟨c, rest, rfl, hc⟩ := h.head
  rw [Bool.eq_false_iff]
  intro hword
  obtain ⟨hdigit, hmem⟩ := head_of_isSpecialWord hword c rfl
  rcases hc with hc | rfl
  · exact Bool.false_ne_true (hdigit.symm.trans hc)
  · exact hmem (by decide)

/-- The sign in front of a special word is all that is split off. -/
theorem splitSign_word {sign word : List Char} {negative : Bool} (hsign : Signs sign negative)
    (hword : isSpecialWord word = true) : splitSign (sign ++ word) = (negative, word) := by
  refine splitSign_append hsign fun c hc => ?_
  have hmem := (head_of_isSpecialWord hword c hc).2
  constructor
  · rintro rfl
    exact hmem (by decide)
  · rintro rfl
    exact hmem (by decide)

/-- The sign in front of a magnitude is all that is split off. -/
theorem splitSign_magnitude {sign magnitude : List Char} {negative : Bool}
    (hsign : Signs sign negative) (h : Magnitude magnitude) :
    splitSign (sign ++ magnitude) = (negative, magnitude) := by
  obtain ⟨c, rest, rfl, hc⟩ := h.head
  refine splitSign_append hsign fun d hd => ?_
  cases hd
  rcases hc with hc | rfl
  · exact ne_sign_of_isDigit hc
  · decide

/-- Every name of a float is read as the float. -/
theorem readFloat?_of_names {x : Float} (h : Names cs x) : readFloat? cs = some x := by
  cases h with
  | @infinity sign word negative hsign hword =>
      have hspecial : isSpecialWord word = true :=
        isSpecialWord_iff.2 (.inl hword)
      have hnan : (word.map Char.toLower == "nan".toList) = false := by
        rw [beq_eq_false_iff_ne]
        intro hnan
        rw [hnan] at hword
        exact absurd hword (by decide)
      simp only [readFloat?, readRounded?, splitSign_word hsign hspecial, hspecial, hnan, if_true]
      rfl
  | @nan sign word negative hsign hword =>
      have hspecial : isSpecialWord word = true := isSpecialWord_iff.2 (.inr hword)
      simp only [readFloat?, readRounded?, splitSign_word hsign hspecial, hspecial, hword, if_true]
      rfl

/-- A numeral is read as some float. -/
theorem readFloat?_isSome_of_numeral (h : Numeral cs) : (readFloat? cs).isSome = true := by
  obtain ⟨hsign, hmagnitude⟩ := h
  simp only [readFloat?, readRounded?, splitSign_magnitude hsign hmagnitude,
    isSpecialWord_of_magnitude hmagnitude, Bool.false_eq_true, if_false]
  exact readDecimal?_isSome_iff.2 hmagnitude

/-- A float is read from a numeral or a word, and from nothing else. The sign in front belongs to
either. -/
theorem numeral_or_names_of_readFloat? {x : Float} (h : readFloat? cs = some x) :
    Numeral cs ∨ Names cs x := by
  obtain ⟨sign, hsign, hcs⟩ := exists_signs_splitSign cs
  rcases hsplit : splitSign cs with ⟨negative, rest⟩
  rw [hsplit] at hsign hcs
  simp only [readFloat?, readRounded?, hsplit] at h
  split at h
  · rename_i hspecial
    refine .inr ?_
    obtain rfl := Option.some.inj h
    rw [hcs]
    split
    · rename_i hnan
      exact .nan hsign (beq_iff_eq.1 hnan)
    · rename_i hnan
      rw [beq_iff_eq] at hnan
      exact .infinity hsign ((isSpecialWord_iff.1 hspecial).resolve_right hnan)
  · rw [hcs]
    exact .inl (.mk hsign (readDecimal?_isSome_iff.1 (Option.isSome_of_mem h)))

/-- A text without digits is read as a float just if it is one of the special words with an optional
sign. -/
theorem readFloat?_eq_some_iff {x : Float} (hcs : Digitless cs) :
    readFloat? cs = some x ↔ Names cs x := by
  refine ⟨fun h => ?_, readFloat?_of_names⟩
  rcases numeral_or_names_of_readFloat? h with h | h
  · exact absurd hcs h.not_digitless
  · exact h

/-- All other texts without digits are no floats. -/
theorem readFloat?_eq_none_iff (hcs : Digitless cs) :
    readFloat? cs = none ↔ ∀ x, ¬Names cs x := by
  simp only [Option.eq_none_iff_forall_ne_some, Ne, readFloat?_eq_some_iff hcs]

theorem readInt64?_of_digitless (hcs : Digitless cs) : readInt64? cs = none :=
  Option.eq_none_iff_forall_ne_some.2 fun _ hi => (numeral_of_readInt64? hi).not_digitless hcs

theorem readUInt64?_of_digitless (hcs : Digitless cs) : readUInt64? cs = none :=
  Option.eq_none_iff_forall_ne_some.2 fun _ hu => (numeral_of_readUInt64? hu).not_digitless hcs

/-- A word with its sign begins with no quote. -/
theorem unquote?_of_names {x : Float} (h : Names cs x) : unquote? cs = none := by
  have hquotes : ∀ q, isQuote q = true → q ∈ ['-', '+', '.', '\'', '"'] := by
    intro q hq
    simp only [isQuote, Bool.or_eq_true, beq_iff_eq] at hq
    rcases hq with rfl | rfl <;> decide
  have hword : ∀ {sign word negative}, Signs sign negative → isSpecialWord word = true →
      unquote? (sign ++ word) = none := by
    intro sign word negative hsign hspecial
    refine unquote?_eq_none fun c hc => ?_
    cases hsign with
    | none =>
        rw [Bool.eq_false_iff]
        exact fun hq => (head_of_isSpecialWord hspecial c hc).2 (hquotes c hq)
    | plus =>
        cases hc
        rfl
    | minus =>
        cases hc
        rfl
  cases h with
  | infinity hsign hmem => exact hword hsign (isSpecialWord_iff.2 (.inl hmem))
  | nan hsign heq => exact hword hsign (isSpecialWord_iff.2 (.inr heq))

end Decimal

open Decimal

/-! ### Arguments -/

namespace Pipe

/-- What an argument without a digit is, once the blanks around it are gone. -/
inductive Arg.Reads (cs : List Char) : Arg → Prop
  | quoted {content : List Char} (hcontent : unquote? cs = some content) :
      Reads cs (.literal (.str (String.ofList content)))
  | named {x : Float} (hx : Names cs x) : Reads cs (.literal (.float x))
  | bool {b : Bool} (hb : boolWord? cs = some b) : Reads cs (.literal (.bool b))
  | token (hquote : unquote? cs = none) (hx : ∀ x, ¬Names cs x) (hb : boolWord? cs = none) :
      Reads cs (.token (String.ofList cs))

/-- The words for truth values are neither quoted nor floats, so the order of the tests on an
argument does not matter for them. -/
theorem of_boolWord? {cs : List Char} {b : Bool} (h : boolWord? cs = some b) :
    unquote? cs = none ∧ readFloat? cs = none := by
  unfold boolWord? at h
  split at h
  · rename_i hcs
    rw [beq_iff_eq.1 hcs]
    exact ⟨rfl, rfl⟩
  · split at h
    · rename_i hcs
      rw [beq_iff_eq.1 hcs]
      exact ⟨rfl, rfl⟩
    · exact nomatch h

/-- What an argument without digits is read as, told by its spelling alone. Without digits it is no
number, so the only floats left are those that words name. -/
theorem argOf_eq_iff {cs : List Char} (hcs : Digitless cs) {a : Arg} :
    argOf cs = a ↔ Arg.Reads cs a := by
  have hint := readInt64?_of_digitless hcs
  constructor
  · rintro rfl
    rcases hquote : unquote? cs with _ | content
    · rcases hfloat : readFloat? cs with _ | x
      · rcases hbool : boolWord? cs with _ | b
        · simp only [argOf, hquote, hint, hfloat, hbool]
          exact .token hquote ((readFloat?_eq_none_iff hcs).1 hfloat) hbool
        · simp only [argOf, hquote, hint, hfloat, hbool]
          exact .bool hbool
      · simp only [argOf, hquote, hint, hfloat]
        exact .named ((readFloat?_eq_some_iff hcs).1 hfloat)
    · simp only [argOf, hquote]
      exact .quoted hquote
  · intro ha
    cases ha with
    | quoted hcontent => simp only [argOf, hcontent]
    | named hx => simp only [argOf, unquote?_of_names hx, hint, readFloat?_of_names hx]
    | bool hb => simp only [argOf, of_boolWord? hb, hint, hb]
    | token hquote hx hb => simp only [argOf, hquote, hint, (readFloat?_eq_none_iff hcs).2 hx, hb]

end Pipe

/-- Trimming adds no digit. -/
theorem digitless_trim {cs : List Char} (hcs : Digitless cs) : Digitless (trim cs) := by
  obtain ⟨pre, post, htrim, -⟩ := exists_trim cs
  intro c hc
  refine hcs c ?_
  rw [htrim]
  exact List.mem_append_left _ (List.mem_append_right _ hc)

/-! ### Scalars -/

namespace Yaml

/-- The spellings of nothing. -/
abbrev nilWords : List String := ["null", "Null", "NULL", "~", ""]

/-- A text without quotes is a string: it is no spelling of another value and no number. -/
structure IsString (s : String) : Prop where
  not_nil : s ∉ nilWords
  not_bool : boolOfText? s = none
  not_numeral : ¬Numeral s.toList
  not_named : ∀ x, ¬Names s.toList x
  not_special : specialFloat? s = none

/-- What a plain scalar without a digit is. -/
inductive Reads (s : String) : Value → Prop
  | nil (hs : s ∈ nilWords) : Reads s .nil
  | bool {b : Bool} (hb : boolOfText? s = some b) : Reads s (.bool b)
  | named {x : Float} (hx : Names s.toList x) : Reads s (.float x)
  | special {x : Float} (hx : specialFloat? s = some x) : Reads s (.float x)
  | str (hs : IsString s) : Reads s (.str s)

variable {s : String}

/-- The spellings of truth values that are known. -/
theorem mem_of_boolOfText? {b : Bool} (h : boolOfText? s = some b) :
    s ∈ ["true", "True", "TRUE"] ++ ["false", "False", "FALSE"] := by
  unfold boolOfText? at h
  split at h
  · rename_i hs
    exact List.mem_append_left _ hs
  · split at h
    · rename_i hs
      exact List.mem_append_right _ hs
    · exact nomatch h

/-- The spellings of special floats that are known, with a point in front. -/
theorem mem_of_specialFloat? {x : Float} (h : specialFloat? s = some x) :
    s ∈ [".inf", ".Inf", ".INF"] ++ ["-.inf", "-.Inf", "-.INF"] ++ [".nan", ".NaN", ".NAN"] := by
  unfold specialFloat? at h
  split at h
  · rename_i hs
    exact List.mem_append_left _ (List.mem_append_left _ hs)
  · split at h
    · rename_i hs
      exact List.mem_append_left _ (List.mem_append_right _ hs)
    · split at h
      · rename_i hs
        exact List.mem_append_right _ hs
      · exact nomatch h

/-- No spelling of nil is that of a float. -/
theorem of_nilWord (h : s ∈ nilWords) : (readFloat? s.toList).isNone = true := by
  revert s
  decide

/-- A spelling of a truth value is none of nil or of a float. -/
theorem of_boolOfText? {b : Bool} (h : boolOfText? s = some b) :
    s ∉ nilWords ∧ (readFloat? s.toList).isNone = true := by
  have hs := mem_of_boolOfText? h
  clear h
  revert s
  decide

/-- A spelling of a special float with a point is read by no other rule. -/
theorem of_specialFloat? {x : Float} (h : specialFloat? s = some x) :
    s ∉ nilWords ∧ boolOfText? s = none ∧ (readFloat? s.toList).isNone = true := by
  have hs := mem_of_specialFloat? h
  clear h
  revert s
  decide

/-- The spellings of the other values are not words for floats. -/
theorem of_names {x : Float} (h : Names s.toList x) : s ∉ nilWords ∧ boolOfText? s = none := by
  have hread := readFloat?_of_names h
  constructor
  · intro hs
    have hnone := of_nilWord hs
    rw [hread] at hnone
    exact Bool.noConfusion hnone
  · rcases hb : boolOfText? s with _ | b
    · rfl
    · have hnone := (of_boolOfText? hb).2
      rw [hread] at hnone
      exact Bool.noConfusion hnone

/-- Text that fits none of the rules is text. -/
theorem valueOfText_of_isString (hs : IsString s) : valueOfText s = .str s := by
  have hint : readInt64? s.toList = none :=
    Option.eq_none_iff_forall_ne_some.2 fun _ hi => hs.not_numeral (numeral_of_readInt64? hi)
  have huint : readUInt64? s.toList = none :=
    Option.eq_none_iff_forall_ne_some.2 fun _ hu => hs.not_numeral (numeral_of_readUInt64? hu)
  have hfloat : readFloat? s.toList = none :=
    Option.eq_none_iff_forall_ne_some.2 fun x hx =>
      (numeral_or_names_of_readFloat? hx).elim hs.not_numeral (hs.not_named x)
  rw [valueOfText, if_neg hs.not_nil, hs.not_bool, hint, huint, hfloat, hs.not_special]

/-- What a text without quotes is, in the order in which it is tried. Later cases know that the
earlier ones did not apply. -/
theorem valueOfText_cases (s : String) :
    (s ∈ nilWords ∧ valueOfText s = .nil) ∨
    (∃ b, boolOfText? s = some b ∧ valueOfText s = .bool b) ∨
    (∃ i, readInt64? s.toList = some i ∧ valueOfText s = .int i) ∨
    (∃ u, readUInt64? s.toList = some u ∧ valueOfText s = .uint u) ∨
    (∃ x, readFloat? s.toList = some x ∧ valueOfText s = .float x) ∨
    (∃ x, specialFloat? s = some x ∧ valueOfText s = .float x) ∨
    (IsString s ∧ valueOfText s = .str s) := by
  by_cases hnil : s ∈ nilWords
  · exact .inl ⟨hnil, if_pos hnil⟩
  · rw [valueOfText, if_neg hnil]
    rcases hbool : boolOfText? s with _ | b
    · rcases hint : readInt64? s.toList with _ | i
      · rcases huint : readUInt64? s.toList with _ | u
        · rcases hfloat : readFloat? s.toList with _ | x
          · rcases hspecial : specialFloat? s with _ | x
            · have hs : IsString s :=
                { not_nil := hnil
                  not_bool := hbool
                  not_numeral := fun hs => by simpa [hfloat] using readFloat?_isSome_of_numeral hs
                  not_named := fun x hx => by simpa [hfloat] using readFloat?_of_names hx
                  not_special := hspecial }
              simp [hs]
            · simp
          · simp
        · simp
      · simp
    · simp

/-- What a scalar without digits is read as, told by its spelling alone. The words of YAML and those
that the reader of floats knows besides are told apart. -/
theorem valueOfText_eq_iff (hs : Digitless s.toList) {v : Value} :
    valueOfText s = v ↔ Reads s v := by
  constructor
  · rintro rfl
    rcases valueOfText_cases s with ⟨hnil, hv⟩ | ⟨b, hb, hv⟩ | ⟨i, hi, -⟩ | ⟨u, hu, -⟩ |
      ⟨x, hx, hv⟩ | ⟨x, hx, hv⟩ | ⟨hstr, hv⟩
    · exact hv ▸ .nil hnil
    · exact hv ▸ .bool hb
    · exact absurd hs (numeral_of_readInt64? hi).not_digitless
    · exact absurd hs (numeral_of_readUInt64? hu).not_digitless
    · exact hv ▸ .named ((readFloat?_eq_some_iff hs).1 hx)
    · exact hv ▸ .special hx
    · exact hv ▸ .str hstr
  · have hint := readInt64?_of_digitless hs
    have huint := readUInt64?_of_digitless hs
    intro hv
    cases hv with
    | nil hnil => rw [valueOfText, if_pos hnil]
    | bool hb => rw [valueOfText, if_neg (of_boolOfText? hb).1, hb]
    | named hx =>
        rw [valueOfText, if_neg (of_names hx).1, (of_names hx).2, hint, huint,
          readFloat?_of_names hx]
    | special hx =>
        obtain ⟨hnil, hbool, hfloat⟩ := of_specialFloat? hx
        rw [valueOfText, if_neg hnil, hbool, hint, huint, Option.isNone_iff_eq_none.1 hfloat, hx]
    | str hstr => exact valueOfText_of_isString hstr

/-- A scalar stays text just if it fits none of the rules. -/
theorem valueOfText_eq_str_iff : valueOfText s = .str s ↔ IsString s := by
  refine ⟨fun h => ?_, valueOfText_of_isString⟩
  rcases valueOfText_cases s with ⟨-, hv⟩ | ⟨_, -, hv⟩ | ⟨_, -, hv⟩ | ⟨_, -, hv⟩ | ⟨_, -, hv⟩ |
    ⟨_, -, hv⟩ | ⟨hstr, -⟩
  case inr.inr.inr.inr.inr.inr => exact hstr
  all_goals exact nomatch hv.symm.trans h

end Yaml

/-- How texts without digits are read as arguments and as plain scalars, and any text as a scalar of
another style. -/
theorem reads_iff (s : String) :
    (Digitless s.toList → ∀ a, Pipe.parseArg s = a ↔ Pipe.Arg.Reads (trim s.toList) a) ∧
    (Digitless s.toList → ∀ v, Yaml.valueOfScalar .plain s = v ↔ Yaml.Reads s v) ∧
    Yaml.valueOfScalar .singleQuoted s = .str s ∧ Yaml.valueOfScalar .doubleQuoted s = .str s ∧
    (Yaml.valueOfScalar .literal s = .str s ↔ Yaml.IsString s) ∧
    (Yaml.valueOfScalar .folded s = .str s ↔ Yaml.IsString s) ∧
    (Yaml.valueOfScalar .plain s = .str s ↔ Yaml.IsString s) :=
  ⟨fun hs _ => Pipe.argOf_eq_iff (digitless_trim hs), fun hs _ => Yaml.valueOfText_eq_iff hs,
    rfl, rfl, Yaml.valueOfText_eq_str_iff, Yaml.valueOfText_eq_str_iff,
    Yaml.valueOfText_eq_str_iff⟩

/-- An argument `inf` and a plain scalar `nan` are floats. -/
theorem reads_iff_words :
    Pipe.parseArg "inf" = .literal (.float (Parts.infinite false).toFloat) ∧
      Yaml.valueOfScalar .plain "nan" = .float Parts.nan.toFloat ∧
      Yaml.valueOfScalar .folded "name" = .str "name" := by
  refine ⟨((reads_iff "inf").1 (by decide) _).2 (.named ?_),
    ((reads_iff "nan").2.1 (by decide) _).2 (.named ?_), (reads_iff "name").2.2.2.2.2.1.2 ?_⟩
  · show Names ([] ++ ['i', 'n', 'f']) _
    exact .infinity .none (by decide)
  · show Names ([] ++ ['n', 'a', 'n']) _
    exact .nan .none (by decide)
  · have hname : Digitless "name".toList := by decide
    have hread : readFloat? "name".toList = none := by rfl
    exact ⟨by decide, by decide, fun h => h.not_digitless hname,
      (readFloat?_eq_none_iff hname).1 hread, by rfl⟩

/-- A word alone makes an argument or a plain scalar a float, and a block scalar can be a number. -/
theorem not_only_numerals_are_numbers :
    (¬∀ s : String, Digitless s.toList → ∀ x, Pipe.parseArg s ≠ .literal (.float x)) ∧
    (¬∀ s : String, Digitless s.toList → Yaml.specialFloat? s = none →
      ∀ x, Yaml.valueOfScalar .plain s ≠ .float x) ∧
    ¬∀ s : String,
      Yaml.valueOfScalar .literal s = .str s ∧ Yaml.valueOfScalar .folded s = .str s := by
  refine ⟨fun h => ?_, fun h => ?_, fun h => ?_⟩
  · exact h "inf" (by decide) _ rfl
  · exact h "nan" (by decide) rfl _ rfl
  · have htwelve : Yaml.valueOfScalar .literal "12" = .int 12 := rfl
    exact nomatch htwelve.symm.trans (h "12").1

end Stencil
