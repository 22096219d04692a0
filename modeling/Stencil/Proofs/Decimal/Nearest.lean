import Mathlib
import Stencil.Decimal.Binary

/-!
# Integers as floats

What an integer is when it becomes a float: the nearest of the integers that have 53 binary digits
and zeros behind them.

## Main definitions

* `Decimal.nearest`, `Decimal.rounded` — a number, and an integer, rounded to 53 digits
* `Decimal.Stands` — a float has the value of an integer

## Main results

* `Decimal.rounded_mono` — rounding keeps the order
* `Decimal.stands_toFloat`, `Decimal.stands_floatOfInt64` — the float of an integer has the value of
  the integer rounded
* `Decimal.Stands.compare_eq` — floats that have the values of integers are compared as these

## Design notes

Rounding shifts digits out one by one and keeps two bits of them, whether they are a half and
whether they are anything beside that; `Cut` says what the two bits mean for the quotient. All
integers in range are normal floats, with a mantissa of 53 digits, so that exponents are compared
first.
-/

namespace Stencil.Decimal

open Float.Model Float.Model.UnpackedFloat

/-! ### Rounding to 53 binary digits -/

/-- The whole number with at most 53 binary digits, and zeros behind them, that is nearest to a
number; the one with an even last digit of two. -/
def nearest (n : Nat) : Nat := roundHalfEven n (2 ^ (n.log2 - 52)) * 2 ^ (n.log2 - 52)

/-- A rounded quotient is the one rounded down, or the next. -/
theorem roundHalfEven_bounds (m d : Nat) :
    m / d ≤ roundHalfEven m d ∧ roundHalfEven m d ≤ m / d + 1 := by
  unfold roundHalfEven
  dsimp only
  split
  · omega
  · split
    · omega
    · split <;> omega

/-- Rounding keeps the order of quotients by one divisor. -/
theorem roundHalfEven_mono {m m' : Nat} (d : Nat) (h : m ≤ m') :
    roundHalfEven m d ≤ roundHalfEven m' d := by
  have hdiv : m / d ≤ m' / d := Nat.div_le_div_right h
  rcases Nat.eq_or_lt_of_le hdiv with heq | hlt
  · -- The quotients agree, and the remainders are in the order of the numbers.
    have hmod : m % d ≤ m' % d := by
      have hm := Nat.div_add_mod m d
      have hm' := Nat.div_add_mod m' d
      rw [heq] at hm
      omega
    unfold roundHalfEven
    rw [heq]
    grind
  · calc roundHalfEven m d ≤ m / d + 1 := (roundHalfEven_bounds m d).2
      _ ≤ m' / d := hlt
      _ ≤ roundHalfEven m' d := (roundHalfEven_bounds m' d).1

/-- With more than 53 digits, the first ones are a number of 53 digits. -/
theorem div_two_pow_bounds {n : Nat} (hn : 52 ≤ n.log2) :
    2 ^ 52 ≤ n / 2 ^ (n.log2 - 52) ∧ n / 2 ^ (n.log2 - 52) < 2 ^ 53 := by
  have hpos : 0 < n := by
    rcases Nat.eq_zero_or_pos n with rfl | h
    · simp at hn
    · exact h
  constructor
  · rw [Nat.le_div_iff_mul_le (Nat.two_pow_pos _), ← Nat.pow_add]
    have hsum : 52 + (n.log2 - 52) = n.log2 := by omega
    rw [hsum]
    exact Nat.log2_self_le hpos.ne'
  · rw [Nat.div_lt_iff_lt_mul (Nat.two_pow_pos _), ← Nat.pow_add]
    have hsum : 53 + (n.log2 - 52) = n.log2 + 1 := by omega
    rw [hsum]
    exact Nat.lt_log2_self

/-- Nothing is rounded in a quotient by one. -/
theorem roundHalfEven_one (n : Nat) : roundHalfEven n 1 = n := by
  simp [roundHalfEven, Nat.mod_one]

/-- Numbers of at most 53 digits are not rounded. -/
theorem nearest_of_log2_le {n : Nat} (h : n.log2 ≤ 52) : nearest n = n := by
  have hzero : n.log2 - 52 = 0 := by omega
  rw [nearest, hzero, Nat.pow_zero, Nat.mul_one, roundHalfEven_one]

/-- A rounded number does not leave the powers of two around it. -/
theorem nearest_bounds {n : Nat} (hn : 0 < n) :
    2 ^ n.log2 ≤ nearest n ∧ nearest n ≤ 2 ^ (n.log2 + 1) := by
  rcases Nat.lt_or_ge n.log2 52 with hlt | hge
  · rw [nearest_of_log2_le (by omega)]
    exact ⟨Nat.log2_self_le hn.ne', Nat.le_of_lt Nat.lt_log2_self⟩
  · have hdiv := div_two_pow_bounds hge
    have hround := roundHalfEven_bounds n (2 ^ (n.log2 - 52))
    have hlow : n.log2 = 52 + (n.log2 - 52) := by omega
    have hhigh : n.log2 + 1 = 53 + (n.log2 - 52) := by omega
    constructor
    · calc 2 ^ n.log2 = 2 ^ 52 * 2 ^ (n.log2 - 52) := by rw [← Nat.pow_add, ← hlow]
        _ ≤ nearest n := Nat.mul_le_mul_right _ (by omega)
    · calc nearest n ≤ 2 ^ 53 * 2 ^ (n.log2 - 52) := Nat.mul_le_mul_right _ (by omega)
        _ = 2 ^ (n.log2 + 1) := by rw [← Nat.pow_add, ← hhigh]

/-- Rounding keeps the order. -/
theorem nearest_mono {n n' : Nat} (h : n ≤ n') : nearest n ≤ nearest n' := by
  rcases Nat.eq_zero_or_pos n with rfl | hn
  · rw [nearest_of_log2_le (by decide)]
    exact Nat.zero_le _
  · have hlog : n.log2 ≤ n'.log2 :=
      (Nat.le_log2 (by omega)).2 (Nat.le_trans (Nat.log2_self_le hn.ne') h)
    rcases Nat.eq_or_lt_of_le hlog with heq | hlt
    · rw [nearest, nearest, heq]
      exact Nat.mul_le_mul_right _ (roundHalfEven_mono _ h)
    · calc nearest n ≤ 2 ^ (n.log2 + 1) := (nearest_bounds hn).2
        _ ≤ 2 ^ n'.log2 := Nat.pow_le_pow_right (by omega) hlt
        _ ≤ nearest n' := (nearest_bounds (by omega)).1

/-! ### Digits that are shifted out -/

/-- What is known of a quotient by `d` from the digits shifted out. -/
structure Cut (em : ExtendedMantissa) (m d : Nat) : Prop where
  mantissa : em.mantissa = m / d
  half : em.roundBit = decide (d ≤ 2 * (m % d))
  between : em.stickyBit = decide (2 * (m % d) ≠ 0 ∧ 2 * (m % d) ≠ d)

/-- One more digit is shifted out: the digit becomes the half, and what was known of the half goes
into what is between. -/
theorem Cut.shiftRightOne {em : ExtendedMantissa} {m d : Nat} (h : Cut em m d) (hd : 0 < d) :
    Cut em.shiftRightOne m (d * 2) := by
  have hmod : m % (d * 2) = m % d + d * (m / d % 2) := Nat.mod_mul
  have hlt : m % d < d := Nat.mod_lt m hd
  refine ⟨?_, ?_, ?_⟩
  · show em.mantissa / 2 = _
    rw [h.mantissa, Nat.div_div_eq_div_mul]
  · show (em.mantissa % 2 != 0) = _
    rw [h.mantissa, hmod]
    rcases Nat.mod_two_eq_zero_or_one (m / d) with hbit | hbit <;> rw [hbit] <;> simp <;> omega
  · show (em.roundBit || em.stickyBit) = _
    rw [h.half, h.between, hmod]
    rcases Nat.mod_two_eq_zero_or_one (m / d) with hbit | hbit <;> rw [hbit] <;> grind

/-- A shift by some digits knows the quotient by their power of two. -/
theorem cut_shiftRight (m k : Nat) :
    Cut (ExtendedMantissa.ofMantissaAndAccuracy m .exact >>> k) m (2 ^ k) := by
  show Cut (Nat.repeat ExtendedMantissa.shiftRightOne k _) m (2 ^ k)
  induction k with
  | zero =>
      have hexact : ExtendedMantissa.ofMantissaAndAccuracy m .exact = ⟨m, false, false⟩ := rfl
      rw [hexact, Nat.repeat, Nat.pow_zero]
      exact ⟨(Nat.div_one m).symm, by simp [Nat.mod_one], by simp [Nat.mod_one]⟩
  | succ k ih => exact ih.shiftRightOne (Nat.two_pow_pos k)

/-- What a shift remembers of the digits is enough to round half to even. -/
theorem Cut.roundedMantissa {em : ExtendedMantissa} {m d : Nat} (h : Cut em m d) :
    em.roundedMantissa = roundHalfEven m d := by
  obtain ⟨mantissa, half, between⟩ := em
  obtain ⟨rfl, rfl, rfl⟩ := h
  unfold roundHalfEven ExtendedMantissa.roundedMantissa ExtendedMantissa.accuracy
  dsimp only
  grind [Accuracy.roundToNearestEven]

/-! ### Floats of whole numbers -/

/-- A mantissa of 53 digits and an exponent for the whole number `v`, counted in units of
`2 ^ -52`. -/
structure Placed (m : Nat) (e : Int) (v : Nat) : Prop where
  le_mantissa : 2 ^ 52 ≤ m
  mantissa_lt : m < 2 ^ 53
  le_exponent : -52 ≤ e
  exponent_le : e ≤ 12
  value : m * 2 ^ (e + 52).toNat = v * 2 ^ 52

/-- A whole number is stored with 53 digits: its exponent is that of its first digit, less 52. -/
theorem targetExponent_eq {m : Nat} {e : Int} (he : 0 ≤ m.log2 + e) :
    Format.binary64.targetExponent (totalExponent m e) = m.log2 + e - 52 := by
  have hbits : (Format.binary64.mantissaBits : Int) = 53 := rfl
  have hmin : Format.binary64.minExponent = -1074 := rfl
  rw [Format.targetExponent, totalExponent, hbits, hmin]
  omega

/-- A whole number is shifted by the digits that it has beyond 53. -/
theorem shiftToTargetExponent_eq {m : Nat} {e : Int} (he : 0 ≤ m.log2 + e) :
    shiftToTargetExponent .binary64 m e .exact =
      (ExtendedMantissa.ofMantissaAndAccuracy m .exact >>> (m.log2 - 52),
        e + (m.log2 - 52 : Nat)) := by
  have hshift : (m.log2 + e - 52 - e).toNat = m.log2 - 52 := by omega
  rw [shiftToTargetExponent, targetExponent_eq he, shiftToExponent, hshift]

/-- The first of 53 digits is the one of `2 ^ 52`. -/
theorem log2_eq {m : Nat} (hle : 2 ^ 52 ≤ m) (hlt : m < 2 ^ 53) : m.log2 = 52 := by
  have h52 := (Nat.le_log2 (by omega)).2 hle
  have h53 := (Nat.log2_lt (by omega)).2 hlt
  omega

/-- Zeros behind a number move its first digit. -/
theorem log2_mul_two_pow {n : Nat} (hn : 0 < n) (k : Nat) : (n * 2 ^ k).log2 = n.log2 + k := by
  have hpos : n * 2 ^ k ≠ 0 := (Nat.mul_pos hn (Nat.two_pow_pos k)).ne'
  refine Nat.le_antisymm ?_ ((Nat.le_log2 hpos).2 ?_)
  · refine Nat.le_of_lt_succ ((Nat.log2_lt hpos).2 ?_)
    rw [← Nat.succ_add, Nat.pow_add]
    exact Nat.mul_lt_mul_of_pos_right Nat.lt_log2_self (Nat.two_pow_pos k)
  · rw [Nat.pow_add]
    exact Nat.mul_le_mul_right _ (Nat.log2_self_le hn.ne')

/-- A mantissa of 53 digits or more is rounded to 53 digits. What is cut off decides which neighbour
is taken, and a carry may make one digit more, which is a zero and is cut off as well. -/
theorem roundWithAccuracy_eq (s : Sign) {m : Nat} {e : Int} (he : 0 ≤ m.log2 + e)
    (hm : 52 ≤ m.log2) :
    ∃ m' e' h', roundWithAccuracy .binary64 s m e .exact = .finite s m' e' h' ∧
      2 ^ 52 ≤ m' ∧ m' < 2 ^ 53 ∧ e ≤ e' ∧ e' ≤ m.log2 + e - 51 ∧
      m' * 2 ^ (e' - e).toNat = nearest m := by
  have hfirst := shiftToTargetExponent_eq he
  have hrounded := (cut_shiftRight m (m.log2 - 52)).roundedMantissa
  have hnearest : nearest m = roundHalfEven m (2 ^ (m.log2 - 52)) * 2 ^ (m.log2 - 52) := rfl
  have hdiv := div_two_pow_bounds hm
  have hbounds := roundHalfEven_bounds m (2 ^ (m.log2 - 52))
  -- The rest is about the rounded quotient alone, which is between two powers of two.
  revert hrounded hnearest hbounds
  generalize roundHalfEven m (2 ^ (m.log2 - 52)) = r
  intro hrounded hnearest hbounds
  have hexponent : (e + (m.log2 - 52 : Nat) - e).toNat = m.log2 - 52 := by omega
  rcases Nat.lt_or_ge r (2 ^ 53) with hlt | hge
  · -- The rounded mantissa is in place already.
    have hlog := log2_eq (m := r) (by omega) hlt
    have hsecond := shiftToTargetExponent_eq (m := r) (e := e + (m.log2 - 52 : Nat)) (by omega)
    have hcut := (cut_shiftRight r (r.log2 - 52)).mantissa
    rw [hlog] at hcut hsecond
    have hmantissa : (ExtendedMantissa.ofMantissaAndAccuracy r .exact >>> (52 - 52)).mantissa = r :=
      hcut.trans (Nat.div_one r)
    refine ⟨r, e + (m.log2 - 52 : Nat), by omega, ?_, by omega, hlt, by omega, by omega, ?_⟩
    · rw [roundWithAccuracy, hfirst]
      dsimp only
      rw [hrounded, hsecond]
      dsimp only
      simp only [hmantissa, dif_neg (show ¬r = 0 by omega)]
      simp
    · rw [hexponent, hnearest]
  · -- It has a digit more, and is a power of two.
    obtain rfl : r = 2 ^ 53 := by omega
    have hlog : (2 ^ 53).log2 = 53 := Nat.log2_two_pow
    have hsecond := shiftToTargetExponent_eq (m := 2 ^ 53) (e := e + (m.log2 - 52 : Nat)) (by omega)
    have hcut := (cut_shiftRight (2 ^ 53) ((2 ^ 53).log2 - 52)).mantissa
    rw [hlog] at hcut hsecond
    refine ⟨2 ^ 52, e + (m.log2 - 52 : Nat) + 1, by decide, ?_, Nat.le_refl _, by decide,
      by omega, by omega, ?_⟩
    · rw [roundWithAccuracy, hfirst]
      dsimp only
      rw [hrounded, hsecond]
      rfl
    · have hexponent' : (e + (m.log2 - 52 : Nat) + 1 - e).toNat = m.log2 - 52 + 1 := by omega
      rw [hexponent', hnearest, Nat.pow_succ 2 (m.log2 - 52)]
      omega

/-- Zeros behind a number of at most 53 digits are zeros behind the rounded one. -/
theorem nearest_mul_two_pow {n k : Nat} (hn : 0 < n) (hk : k ≤ 52 - n.log2) :
    nearest (n * 2 ^ k) = nearest n * 2 ^ k := by
  rcases Nat.eq_zero_or_pos k with rfl | hpos
  · rw [Nat.pow_zero, Nat.mul_one, Nat.mul_one]
  · have hlog : (n * 2 ^ k).log2 = n.log2 + k := log2_mul_two_pow hn k
    rw [nearest_of_log2_le (by omega), nearest_of_log2_le (by omega)]

/-- A whole number is rounded to 53 digits, and the exponent is in range, since the number is below
the 64th power of two. -/
theorem exists_round (s : Sign) {n : Nat} (hn : 0 < n) (hlt : n < 2 ^ 64) :
    ∃ m e h, UnpackedFloat.round .binary64 s n 0 = .finite s m e h ∧ Placed m e (nearest n) := by
  have htarget := targetExponent_eq (m := n) (e := 0) (by omega)
  have hlog : (n * 2 ^ (52 - n.log2)).log2 = n.log2 + (52 - n.log2) := log2_mul_two_pow hn _
  have hn64 := (Nat.log2_lt (by omega)).2 hlt
  have hshift : (0 - (n.log2 + 0 - 52 : Int)).toNat = 52 - n.log2 := by omega
  obtain ⟨m, e, h, hfinite, hle, hm, hlow, hhigh, hvalue⟩ :=
    roundWithAccuracy_eq s (m := n * 2 ^ (52 - n.log2)) (e := 0 - (52 - n.log2 : Nat))
      (by omega) (by omega)
  refine ⟨m, e, h, ?_, hle, hm, by omega, by omega, ?_⟩
  · rw [UnpackedFloat.round, htarget, decreaseExponent, hshift]
    dsimp only
    rw [Nat.shiftLeft_eq]
    exact hfinite
  · rw [nearest_mul_two_pow hn (Nat.le_refl _)] at hvalue
    have hexponent :
        (e + 52).toNat = (e - (0 - (52 - n.log2 : Nat))).toNat + (52 - (52 - n.log2)) := by
      omega
    have hunits : 2 ^ (52 - n.log2) * 2 ^ (52 - (52 - n.log2)) = 2 ^ 52 := by
      rw [← Nat.pow_add]
      congr 1
      omega
    rw [hexponent, Nat.pow_add, ← Nat.mul_assoc, hvalue, Nat.mul_assoc, hunits]

/-- A digit in front of some others counts the power of two above them. -/
theorem toNat_one_append {w : Nat} (v : BitVec w) : (1#1 ++ v).toNat = 2 ^ w + v.toNat := by
  rw [BitVec.toNat_append, ← Nat.shiftLeft_add_eq_or_of_lt v.isLt]
  simp [Nat.shiftLeft_eq]

/-- A normal number is unpacked as it was packed. The bits of sign, exponent and mantissa do not
overlap, so each is found again by a division and a remainder. -/
theorem unpack_pack (s : Sign) {m : Nat} {e : Int} (h : 0 < m) (hle : 2 ^ 52 ≤ m)
    (hlt : m < 2 ^ 53) (hlow : -1074 ≤ e) (hhigh : e ≤ 971) :
    (Float.Model.pack (.finite s m e h)).unpack = .finite s m e h := by
  have hlog := log2_eq hle hlt
  -- The exponent as it is stored, with its bias.
  have hbias : ((Format.binary64.exponentBias : Nat) : Int) = 1023 := rfl
  have hfraction : ((Format.binary64.mantissaBitsWithoutImplicit : Nat) : Int) = 52 := rfl
  have hbiased : (e + Format.binary64.exponentBias +
      Format.binary64.mantissaBitsWithoutImplicit).toNat = (e + 1075).toNat := by
    rw [hbias, hfraction]
    omega
  have hexponent : (BitVec.ofNat 11 (e + 1075).toNat).toNat = (e + 1075).toNat := by
    rw [BitVec.toNat_ofNat]
    omega
  -- It is neither that of infinities nor that of numbers without the implicit digit.
  have hones : BitVec.ofNat 11 (e + 1075).toNat ≠ -1#11 := by
    intro heq
    have hnat := congrArg BitVec.toNat heq
    rw [hexponent] at hnat
    have : (-1#11).toNat = 2047 := rfl
    omega
  have hzeros : BitVec.ofNat 11 (e + 1075).toNat ≠ 0#11 := by
    intro heq
    have hnat := congrArg BitVec.toNat heq
    rw [hexponent] at hnat
    have : (0#11).toNat = 0 := rfl
    omega
  -- The first digit of the mantissa is the one that is not stored.
  have hmantissa : (1#1 ++ BitVec.ofNat 52 m).toNat = m := by
    rw [toNat_one_append, BitVec.toNat_ofNat]
    omega
  show UnpackedFloat.unpack .binary64 (UnpackedFloat.pack .binary64 (.finite s m e h)) = _
  rw [UnpackedFloat.pack]
  simp only [hlog, hbiased]
  have hinfinite : ¬2 ^ Format.binary64.exponentBits ≤ (e + 1075).toNat + 1 := by
    show ¬2 ^ 11 ≤ (e + 1075).toNat + 1
    omega
  have hnormal : 52 + 1 = Format.binary64.mantissaBits := rfl
  rw [if_neg hinfinite, if_pos hnormal, UnpackedFloat.unpack]
  simp only [unpackMantissa_packComponents, unpackExponent_packComponents,
    unpackSign_packComponents, Sign.ofBitVec_toBitVec]
  rw [if_neg hones, if_neg hzeros]
  simp only [hmantissa, hexponent, hbias, hfraction]
  congr 1
  omega

/-! ### Integers as floats -/

/-- The integer with at most 53 binary digits, and zeros behind them, that is nearest to an integer.
-/
def rounded (x : Int) : Int := x.sign * nearest x.natAbs

/-- An unpacked float with the value of an integer. -/
inductive Stands : UnpackedFloat → Int → Prop
  | zero : Stands (.zero .positive) 0
  | positive {m : Nat} {e : Int} {v : Nat} (h : 0 < m) (hplaced : Placed m e v) :
      Stands (.finite .positive m e h) v
  | negative {m : Nat} {e : Int} {v : Nat} (h : 0 < m) (hplaced : Placed m e v) :
      Stands (.finite .negative m e h) (-v)

/-- A mantissa of 53 digits is not that of zero. -/
theorem Placed.pos {m : Nat} {e : Int} {v : Nat} (h : Placed m e v) : 0 < v := by
  rcases Nat.eq_zero_or_pos v with rfl | hv
  · have hm := h.le_mantissa
    have hvalue := h.value
    have hpow := Nat.two_pow_pos (e + 52).toNat
    have hmul : 2 ^ 52 * 2 ^ (e + 52).toNat ≤ m * 2 ^ (e + 52).toNat := Nat.mul_le_mul_right _ hm
    omega
  · exact hv

/-- Of two such numbers the one with the greater exponent is greater, whatever the mantissas are. -/
theorem Placed.lt_of_exponent_lt {m m' : Nat} {e e' : Int} {v v' : Nat} (h : Placed m e v)
    (h' : Placed m' e' v') (he : e < e') : v < v' := by
  have hm := h.mantissa_lt
  have hm' := h'.le_mantissa
  have hlow := h.le_exponent
  have hvalue := h.value
  have hvalue' := h'.value
  have hpow : 2 * 2 ^ (e + 52).toNat ≤ 2 ^ (e' + 52).toNat := by
    rw [← Nat.pow_succ']
    exact Nat.pow_le_pow_right (by decide) (by omega)
  have hlt : m * 2 ^ (e + 52).toNat < m' * 2 ^ (e' + 52).toNat :=
    calc m * 2 ^ (e + 52).toNat < 2 ^ 53 * 2 ^ (e + 52).toNat :=
          Nat.mul_lt_mul_of_pos_right hm (Nat.two_pow_pos _)
      _ = 2 ^ 52 * (2 * 2 ^ (e + 52).toNat) := by omega
      _ ≤ m' * 2 ^ (e' + 52).toNat := Nat.mul_le_mul hm' hpow
  omega

/-- Mantissas of 53 digits are compared after their exponents. With the first digit in a fixed place
a greater exponent always means a greater number, and the mantissas decide between numbers with one
exponent. -/
theorem Placed.compare_eq {m m' : Nat} {e e' : Int} {v v' : Nat} (h : Placed m e v)
    (h' : Placed m' e' v') :
    (compare e e').then (compare m m') = compare (v : Int) v' := by
  rcases Int.lt_trichotomy e e' with hlt | rfl | hgt
  · rw [compare_lt_iff_lt.2 hlt, compare_lt_iff_lt.2 (Int.ofNat_lt.2 (h.lt_of_exponent_lt h' hlt))]
    rfl
  · have hpow := Nat.two_pow_pos (e + 52).toNat
    have hvalue := h.value
    have hvalue' := h'.value
    rw [compare_eq_iff_eq.2 rfl, Ordering.then]
    rcases Nat.lt_trichotomy m m' with hlt | rfl | hgt
    · have := Nat.mul_lt_mul_of_pos_right hlt hpow
      rw [compare_lt_iff_lt.2 hlt, compare_lt_iff_lt.2 (by omega)]
    · rw [compare_eq_iff_eq.2 rfl, compare_eq_iff_eq.2 (by omega)]
    · have := Nat.mul_lt_mul_of_pos_right hgt hpow
      rw [compare_gt_iff_gt.2 hgt, compare_gt_iff_gt.2 (by omega)]
  · rw [compare_gt_iff_gt.2 hgt, compare_gt_iff_gt.2 (Int.ofNat_lt.2 (h'.lt_of_exponent_lt h hgt))]
    rfl

/-- Changing both signs turns the order around. -/
theorem compare_neg_neg (x y : Int) : compare (-x) (-y) = (compare x y).swap := by
  rcases Int.lt_trichotomy x y with hlt | rfl | hgt
  · rw [compare_lt_iff_lt.2 hlt]
    exact compare_gt_iff_gt.2 (by omega)
  · rw [compare_eq_iff_eq.2 (rfl : x = x)]
    exact compare_eq_iff_eq.2 rfl
  · rw [compare_gt_iff_gt.2 hgt]
    exact compare_lt_iff_lt.2 (by omega)

/-- Floats are compared as the integers they stand for. The cases are those of the two signs;
between negative numbers the order is turned around. -/
theorem Stands.compare_eq {u u' : UnpackedFloat} {x x' : Int} (h : Stands u x)
    (h' : Stands u' x') : u.compare u' = some (compare x x') := by
  cases h with
  | zero =>
      cases h' with
      | zero => rfl
      | positive _ hplaced' =>
          have hpos' := hplaced'.pos
          exact congrArg some (compare_lt_iff_lt.2 (by omega)).symm
      | negative _ hplaced' =>
          have hpos' := hplaced'.pos
          exact congrArg some (compare_gt_iff_gt.2 (by omega)).symm
  | positive _ hplaced =>
      have hpos := hplaced.pos
      cases h' with
      | zero => exact congrArg some (compare_gt_iff_gt.2 (by omega)).symm
      | positive _ hplaced' => exact congrArg some (hplaced.compare_eq hplaced')
      | negative _ hplaced' => exact congrArg some (compare_gt_iff_gt.2 (by omega)).symm
  | negative _ hplaced =>
      have hpos := hplaced.pos
      cases h' with
      | zero => exact congrArg some (compare_lt_iff_lt.2 (by omega)).symm
      | positive _ hplaced' => exact congrArg some (compare_lt_iff_lt.2 (by omega)).symm
      | negative _ hplaced' =>
          rw [compare_neg_neg, ← hplaced.compare_eq hplaced']
          rfl

/-- A natural number is rounded to the nearest one. -/
theorem rounded_natCast (n : Nat) : rounded n = nearest n := by
  rcases Nat.eq_zero_or_pos n with rfl | hn
  · rfl
  · rw [rounded, Int.sign_eq_one_of_pos (by omega), Int.one_mul, Int.natAbs_natCast]

/-- Rounding is the same on both sides of zero. -/
theorem rounded_neg (x : Int) : rounded (-x) = -rounded x := by
  rw [rounded, rounded, Int.sign_neg, Int.natAbs_neg, Int.neg_mul]

/-- Rounding keeps the order of integers. So integers that are in order never come to be in the
other one as floats, though they may come to be equal. -/
theorem rounded_mono {x y : Int} (h : x ≤ y) : rounded x ≤ rounded y := by
  obtain ⟨n, rfl | rfl⟩ := x.eq_nat_or_neg
  · obtain ⟨n', rfl⟩ := Int.eq_ofNat_of_zero_le (Int.le_trans (Int.natCast_nonneg n) h)
    rw [rounded_natCast, rounded_natCast]
    exact Int.ofNat_le.2 (nearest_mono (Int.ofNat_le.1 h))
  · rw [rounded_neg, rounded_natCast]
    obtain ⟨n', rfl | rfl⟩ := y.eq_nat_or_neg
    · rw [rounded_natCast]
      omega
    · rw [rounded_neg, rounded_natCast]
      have hle : n' ≤ n := by omega
      have := nearest_mono hle
      omega

/-- The float of a number that is not zero, as it is unpacked. -/
theorem exists_unpack_toFloat {n : UInt64} (hn : 0 < n.toNat) :
    ∃ m e h, n.toFloat.toModel.unpack = .finite .positive m e h ∧ Placed m e (nearest n.toNat) := by
  obtain ⟨m, e, h, hround, hplaced⟩ := exists_round .positive hn n.toNat_lt
  have hnormalize : UnpackedFloat.ofUInt64 .binary64 n = .finite .positive m e h := by
    show UnpackedFloat.normalize .binary64 n.toNat 0 .positive = _
    have hcompare : compare (n.toNat : Int) 0 = .gt := compare_gt_iff_gt.2 (by omega)
    rw [UnpackedFloat.normalize, hcompare]
    exact hround
  refine ⟨m, e, h, ?_, hplaced⟩
  show (Float.Model.pack (UnpackedFloat.ofUInt64 .binary64 n)).unpack = _
  rw [hnormalize]
  exact unpack_pack .positive h hplaced.le_mantissa hplaced.mantissa_lt
    (by have := hplaced.le_exponent; omega) (by have := hplaced.exponent_le; omega)

/-- The float of a natural number stands for the number rounded. A number with 53 digits or less is
stored as it is; from a longer one the digits are shifted out that the rounding decides on. -/
theorem stands_toFloat (n : UInt64) : Stands n.toFloat.toModel.unpack (rounded n.toNat) := by
  rw [rounded_natCast]
  rcases Nat.eq_zero_or_pos n.toNat with hzero | hpos
  · obtain rfl : n = 0 := UInt64.toNat_inj.1 hzero
    exact .zero
  · obtain ⟨m, e, h, hunpack, hplaced⟩ := exists_unpack_toFloat hpos
    rw [hunpack]
    exact .positive h hplaced

/-- The negated float of an unsigned integer has the value of its rounded negative. -/
theorem stands_neg_toFloat {n : UInt64} (hn : 0 < n.toNat) :
    Stands (-n.toFloat).toModel.unpack (-rounded n.toNat) := by
  obtain ⟨m, e, h, hunpack, hplaced⟩ := exists_unpack_toFloat hn
  rw [rounded_natCast]
  show Stands (Float.Model.pack n.toFloat.toModel.unpack.neg).unpack _
  rw [hunpack]
  show Stands (Float.Model.pack (.finite .negative m e h)).unpack _
  rw [unpack_pack .negative h hplaced.le_mantissa hplaced.mantissa_lt
    (by have := hplaced.le_exponent; omega) (by have := hplaced.exponent_le; omega)]
  exact .negative h hplaced

/-- The unsigned integer with the bits of a signed one. -/
theorem toNat_toUInt64 (i : Int64) :
    (i.toUInt64.toNat : Int) = if i.toInt < 0 then i.toInt + 2 ^ 64 else i.toInt := by
  have hbits : i.toInt = i.toBitVec.toInt := rfl
  have hnat : i.toUInt64.toNat = i.toBitVec.toNat := rfl
  have hlt := i.toBitVec.isLt
  rw [hbits, hnat, BitVec.toInt_eq_toNat_cond]
  split <;> split <;> omega

/-- The float of an integer stands for the integer rounded. A negative one is that of its magnitude
with the other sign. -/
theorem stands_floatOfInt64 (i : Int64) :
    Stands (floatOfInt64 i).toModel.unpack (rounded i.toInt) := by
  have hmin : -2 ^ 63 ≤ i.toInt := i.le_toInt
  have hmax : i.toInt < 2 ^ 63 := i.toInt_lt
  rw [floatOfInt64]
  split
  · rename_i hneg
    have hlt : i.toInt < 0 := Int64.lt_iff_toInt_lt.1 hneg
    have hnat : ((-i).toUInt64.toNat : Int) = -i.toInt := by
      rw [toNat_toUInt64, Int64.toInt_neg, Int.bmod]
      split <;> split <;> omega
    have hstands := stands_neg_toFloat (n := (-i).toUInt64) (by omega)
    rwa [hnat, rounded_neg, Int.neg_neg] at hstands
  · rename_i hneg
    have hle : ¬i.toInt < 0 := fun h => hneg (Int64.lt_iff_toInt_lt.2 h)
    have hnat := toNat_toUInt64 i
    rw [if_neg hle] at hnat
    have hstands := stands_toFloat i.toUInt64
    rwa [hnat] at hstands

end Stencil.Decimal
