import Mathlib.Algebra.Order.Ring.Int
import Mathlib.Data.Int.Order.Basic
import Stencil.Expr.Eval
import Stencil.Proofs.Decimal

/-!
# Exact arithmetic

An operation on integers has its exact result, or it leaves the integers: it never wraps around and
never fails, except on a division by zero.

## Main definitions

* `Value.integer?` — the integer of a number that is one of 64 bits, signed or not
* `Expr.IsArithmetic` — the operators on numbers
* `Expr.IsExact` — the result of an operation on integers, told without computing it
* `Expr.Excepted` — exact results that are given as floats nonetheless

## Main results

* `Expr.power?_eq_some_iff`, `Expr.integerResult?_eq_some_iff` — when an operation has an integer
* `Expr.eval_arithmetic` — what an operation on integers evaluates to, for all of them

## Design notes

A quotient is told by the product that it undoes and a remainder by the bound and the sign that
single it out, so that the statement shares no division with the evaluator.
-/

namespace Stencil

/-- The integer a number is, if it is in the range of signed integers. An unsigned number above that
range has none, so arithmetic with it goes on in floats. -/
def Value.integer? : Value → Option Int
  | .int i => some i.toInt
  | .uint n => if n.toNat < 2 ^ 63 then some n.toNat else none
  | _ => none

namespace Expr

/-- The operators on numbers. -/
def IsArithmetic (op : BinaryOp) : Prop :=
  op ∈ [.add, .subtract, .multiply, .divide, .remainder, .power]

instance (op : BinaryOp) : Decidable (IsArithmetic op) :=
  inferInstanceAs (Decidable (op ∈ [_, _, _, _, _, _]))

/-- The exact result of an operation on integers. A quotient is one if the division leaves nothing;
a remainder has the sign of the dividend. -/
inductive IsExact : BinaryOp → Int → Int → Int → Prop
  | add (x y : Int) : IsExact .add x y (x + y)
  | subtract (x y : Int) : IsExact .subtract x y (x - y)
  | multiply (x y : Int) : IsExact .multiply x y (x * y)
  | divide {x y q : Int} (hy : y ≠ 0) (hx : x = q * y) : IsExact .divide x y q
  | remainder {x y r : Int} (q : Int) (hx : x = q * y + r) (hr : r.natAbs < y.natAbs)
      (hsign : r = 0 ∨ r.sign = x.sign) : IsExact .remainder x y r
  | power (x : Int) (n : Nat) : IsExact .power x n (x ^ n)

/-- The exact results that are no integers of the language: the remainder of a division that
overflows, and powers with exponents of more than 32 bits. -/
def Excepted (op : BinaryOp) (x y : Int) : Prop :=
  (op = .remainder ∧ x = -2 ^ 63 ∧ y = -1) ∨ (op = .power ∧ 2 ^ 32 ≤ y)

/-- The exact sum. -/
theorem isExact_add_iff {x y r : Int} : IsExact .add x y r ↔ r = x + y :=
  ⟨fun h => by cases h; rfl, fun h => h ▸ .add x y⟩

/-- The exact difference. -/
theorem isExact_subtract_iff {x y r : Int} : IsExact .subtract x y r ↔ r = x - y :=
  ⟨fun h => by cases h; rfl, fun h => h ▸ .subtract x y⟩

/-- The exact product. -/
theorem isExact_multiply_iff {x y r : Int} : IsExact .multiply x y r ↔ r = x * y :=
  ⟨fun h => by cases h; rfl, fun h => h ▸ .multiply x y⟩

/-- The exact power, for exponents that are not negative. -/
theorem isExact_power_iff {x y r : Int} : IsExact .power x y r ↔ 0 ≤ y ∧ r = x ^ y.toNat := by
  constructor
  · rintro ⟨⟩
    exact ⟨Int.natCast_nonneg _, rfl⟩
  · rintro ⟨hy, rfl⟩
    obtain ⟨n, rfl⟩ := Int.eq_ofNat_of_zero_le hy
    exact .power x n

/-! ### Operands -/

/-- A number that is a signed integer is one by its kind, or is an unsigned one below the bound. -/
theorem eq_of_integer? {v : Value} {x : Int} (h : v.integer? = some x) :
    (∃ i : Int64, v = .int i ∧ i.toInt = x) ∨
      ∃ n : UInt64, v = .uint n ∧ n.toNat < 2 ^ 63 ∧ (n.toNat : Int) = x := by
  cases v with
  | int i => exact .inl ⟨i, rfl, Option.some.inj h⟩
  | uint n =>
      simp only [Value.integer?] at h
      split at h
      · rename_i hn
        exact .inr ⟨n, rfl, hn, Option.some.inj h⟩
      · exact nomatch h
  | _ => exact nomatch h

/-- Below the bound an unsigned integer keeps its value as a signed one. -/
theorem toInt_toInt64 {n : UInt64} (h : n.toNat < 2 ^ 63) : n.toInt64.toInt = n.toNat := by
  have hcast : (Int64.ofInt n.toNat).toInt = n.toNat :=
    Int64.toInt_ofInt_of_le (by omega) (by omega)
  rw [← hcast, Int64.ofInt_eq_ofNat, ← UInt64.toInt64_ofNat', UInt64.ofNat_toNat]

/-- Operands in range enter an operation as the integers they are. -/
theorem ofValue?_of_integer? {v : Value} {x : Int} (h : v.integer? = some x) :
    ∃ i : Int64, i.toInt = x ∧ Number.ofValue? v = some (.int i) := by
  obtain ⟨i, rfl, hi⟩ | ⟨n, rfl, hn, rfl⟩ := eq_of_integer? h
  · exact ⟨i, hi, rfl⟩
  · exact ⟨n.toInt64, toInt_toInt64 hn, congrArg some (if_pos hn)⟩

/-! ### Powers -/

/-- The powers of the integers between -1 and 1 are told by the parity of the exponent. -/
theorem pow_of_natAbs_le_one {b : Int} (hb : b.natAbs ≤ 1) (n : Nat) :
    b ^ n = if (n : Int) = 0 then 1 else if b = -1 ∧ (n : Int) % 2 = 0 then 1 else b := by
  obtain rfl | rfl | rfl : b = 0 ∨ b = 1 ∨ b = -1 := by omega
  · rcases n with _ | n
    · rfl
    · rw [if_neg (by omega), if_neg (by omega), zero_pow n.succ_ne_zero]
  · rw [one_pow]
    split <;> [rfl; rw [if_neg (by omega)]]
  · rcases Nat.even_or_odd n with heven | hodd
    · rw [heven.neg_one_pow]
      obtain ⟨m, rfl⟩ := heven
      split <;> [rfl; rw [if_pos ⟨rfl, by omega⟩]]
    · rw [hodd.neg_one_pow]
      obtain ⟨m, rfl⟩ := hodd
      rw [if_neg (by omega), if_neg (by omega)]

/-- From the 64th power on, the other integers leave the range. -/
theorem two_pow_le_natAbs_pow {b : Int} (hb : 2 ≤ b.natAbs) {n : Nat} (hn : 64 ≤ n) :
    2 ^ 64 ≤ (b ^ n).natAbs := by
  rw [Int.natAbs_pow]
  calc 2 ^ 64 ≤ b.natAbs ^ 64 := Nat.pow_le_pow_left hb 64
    _ ≤ b.natAbs ^ n := Nat.pow_le_pow_right (by omega) hn

/-- A power is exact for the exponents of 32 bits, whatever squares come up on the way: it is the
result alone that has to be in range. -/
theorem power?_eq_some_iff {b e : Int} {i : Int64} :
    power? b e = some i ↔ 0 ≤ e ∧ e < 2 ^ 32 ∧ i.toInt = b ^ e.toNat := by
  have hlimit : Int.pow 2 32 = 2 ^ 32 := rfl
  rw [power?, hlimit]
  split
  · rename_i hout
    exact iff_of_false nofun fun ⟨h0, hlt, _⟩ => by omega
  · rename_i hin
    obtain ⟨h0, hlt⟩ : 0 ≤ e ∧ e < 2 ^ 32 := by omega
    rw [and_iff_right h0, and_iff_right hlt]
    have he : ((e.toNat : Nat) : Int) = e := Int.toNat_of_nonneg h0
    split
    · rename_i hb
      rw [Decimal.int64?_eq_some_iff, pow_of_natAbs_le_one hb e.toNat, he]
    · rename_i hb
      split
      · rename_i hlarge
        refine iff_of_false nofun fun hi => ?_
        have hpow := two_pow_le_natAbs_pow (b := b) (by omega) (n := e.toNat) (by omega)
        have hmin : -2 ^ 63 ≤ i.toInt := i.le_toInt
        have hmax : i.toInt < 2 ^ 63 := i.toInt_lt
        omega
      · exact Decimal.int64?_eq_some_iff

/-! ### Quotients and remainders -/

/-- The exact quotient, where the division leaves nothing. -/
theorem isExact_divide_iff {x y q : Int} (hy : y ≠ 0) :
    IsExact .divide x y q ↔ x.tmod y = 0 ∧ q = x.tdiv y := by
  constructor
  · intro h
    cases h with
    | divide _ hx =>
        subst hx
        exact ⟨Int.mul_tmod_left q y, (Int.mul_tdiv_cancel q hy).symm⟩
  · rintro ⟨hmod, rfl⟩
    exact .divide hy (Int.tdiv_mul_cancel (Int.dvd_of_tmod_eq_zero hmod)).symm

/-- A number with the sign of another, or zero, is on the same side of zero. -/
theorem side_of_sign {x r : Int} (h : r = 0 ∨ r.sign = x.sign) :
    (0 ≤ x → 0 ≤ r) ∧ (x ≤ 0 → r ≤ 0) := by
  grind

/-- A remainder that is not zero has the sign of the dividend. -/
theorem sign_tmod_eq (x y : Int) : x.tmod y = 0 ∨ (x.tmod y).sign = x.sign := by
  rw [Int.sign_tmod]
  by_cases h : y ∣ x
  · exact .inl (Int.tmod_eq_zero_of_dvd h)
  · exact .inr (if_neg h)

/-- A remainder is less than the divisor in magnitude. -/
theorem natAbs_tmod_lt (x : Int) {y : Int} (hy : y ≠ 0) : (x.tmod y).natAbs < y.natAbs := by
  rw [Int.natAbs_tmod]
  exact Nat.mod_lt _ (Int.natAbs_pos.2 hy)

/-- The bound and the sign single out the remainder. Two numbers with both lie less than a divisor
apart, and by a multiple of it. -/
theorem eq_tmod_of_bound {x y q r : Int} (hx : x = q * y + r) (hr : r.natAbs < y.natAbs)
    (hsign : r = 0 ∨ r.sign = x.sign) : r = x.tmod y := by
  have hdvd : y ∣ r - x.tmod y := by
    have hself : y ∣ x - x.tmod y := Int.dvd_self_sub_tmod
    have hmul : y ∣ q * y := Int.dvd_mul_left q y
    have hdiff : r - x.tmod y = (x - x.tmod y) - q * y := by omega
    exact hdiff ▸ Int.dvd_sub hself hmul
  -- Both lie on the side of the dividend, so that they are less than the divisor apart.
  have hbound := natAbs_tmod_lt x (y := y) (by omega)
  have hside := side_of_sign hsign
  have hside' := side_of_sign (sign_tmod_eq x y)
  have hnear : (r - x.tmod y).natAbs < y.natAbs := by
    rcases Int.le_total 0 x with h | h
    · have := hside.1 h
      have := hside'.1 h
      omega
    · have := hside.2 h
      have := hside'.2 h
      omega
  have hzero := Int.eq_zero_of_dvd_of_natAbs_lt_natAbs hdvd hnear
  omega

/-- The sign and the bound determine the remainder. -/
theorem isExact_remainder_iff {x y r : Int} (hy : y ≠ 0) :
    IsExact .remainder x y r ↔ r = x.tmod y := by
  constructor
  · intro h
    cases h with
    | remainder q hx hr hsign => exact eq_tmod_of_bound hx hr hsign
  · rintro rfl
    exact .remainder (x.tdiv y) (Int.tdiv_mul_add_tmod x y).symm (natAbs_tmod_lt x hy)
      (sign_tmod_eq x y)

/-- A quotient of integers in range is in range, but for one. -/
theorem isSome_int64?_tdiv_iff {x y : Int} (hmin : -2 ^ 63 ≤ x) (hmax : x < 2 ^ 63) (hy : y ≠ 0) :
    (Decimal.int64? (x.tdiv y)).isSome ↔ ¬(x = -2 ^ 63 ∧ y = -1) := by
  have hrange : (Decimal.int64? (x.tdiv y)).isSome ↔ -2 ^ 63 ≤ x.tdiv y ∧ x.tdiv y < 2 ^ 63 := by
    rw [Decimal.int64?]
    split <;> rename_i h
    · exact iff_of_true rfl h
    · exact iff_of_false Bool.false_ne_true h
  rw [hrange]
  obtain rfl | rfl | hlarge : y = 1 ∨ y = -1 ∨ 2 ≤ y.natAbs := by omega
  · rw [Int.tdiv_one]
    omega
  · rw [Int.tdiv_neg, Int.tdiv_one]
    omega
  · have hhalf : (x.tdiv y).natAbs ≤ x.natAbs / 2 := by
      rw [Int.natAbs_tdiv]
      exact Nat.div_le_div_left hlarge (by omega)
    omega

/-! ### Operations -/

/-- An operation on integers has an integer exactly if it is the exact result, two exceptions
apart. -/
theorem integerResult?_eq_some_iff {op : BinaryOp} (hop : IsArithmetic op) {x y : Int}
    (hmin : -2 ^ 63 ≤ x) (hmax : x < 2 ^ 63)
    (hzero : ¬((op = .divide ∨ op = .remainder) ∧ y = 0)) {i : Int64} :
    integerResult? op x y = some i ↔ IsExact op x y i.toInt ∧ ¬Excepted op x y := by
  have hplain (hr : op ≠ .remainder) (hp : op ≠ .power) : ¬Excepted op x y := by
    rintro (⟨h, -⟩ | ⟨h, -⟩)
    · exact hr h
    · exact hp h
  cases op with
  | add =>
      rw [and_iff_left (hplain nofun nofun), isExact_add_iff]
      exact Decimal.int64?_eq_some_iff
  | subtract =>
      rw [and_iff_left (hplain nofun nofun), isExact_subtract_iff]
      exact Decimal.int64?_eq_some_iff
  | multiply =>
      rw [and_iff_left (hplain nofun nofun), isExact_multiply_iff]
      exact Decimal.int64?_eq_some_iff
  -- A quotient is an integer only if nothing is left over.
  | divide =>
      have hy : y ≠ 0 := fun h => hzero ⟨.inl rfl, h⟩
      rw [and_iff_left (hplain nofun nofun), isExact_divide_iff hy, integerResult?]
      split
      · rename_i hmod
        rw [and_iff_right hmod, Decimal.int64?_eq_some_iff]
      · rename_i hmod
        exact iff_of_false nofun fun h => hmod h.1
  | remainder =>
      have hy : y ≠ 0 := fun h => hzero ⟨.inr rfl, h⟩
      -- The quotient is what overflows in the exception, not the remainder.
      have hexcepted : Excepted .remainder x y ↔ x = -2 ^ 63 ∧ y = -1 := by simp [Excepted]
      rw [isExact_remainder_iff hy, hexcepted, ← isSome_int64?_tdiv_iff hmin hmax hy,
        integerResult?]
      split
      · rename_i hquotient
        rw [and_iff_left hquotient, Decimal.int64?_eq_some_iff]
      · rename_i hquotient
        exact iff_of_false nofun fun h => hquotient h.2
  | power =>
      have hexcepted : Excepted .power x y ↔ 2 ^ 32 ≤ y := by simp [Excepted]
      rw [isExact_power_iff, hexcepted, Int.not_le]
      refine power?_eq_some_iff.trans ?_
      rw [and_assoc, and_comm (a := i.toInt = _)]
  | _ => exact absurd hop (by decide)

/-- The float that stands for a result outside the integers. -/
def floatResult (op : BinaryOp) (x y : Int) : Float :=
  floatOperation op (Int64.ofInt x).toFloat (Int64.ofInt y).toFloat

/-- An operation on integers gives an integer if there is one, and the float of the operation
otherwise; only a division by zero fails. -/
theorem arithmetic_of_integer? (op : BinaryOp) {v w : Value} {x y : Int}
    (hv : v.integer? = some x) (hw : w.integer? = some y) :
    arithmetic op v w =
      if (op = .divide ∨ op = .remainder) ∧ y = 0 then .error .divisionByZero
      else .ok (((integerResult? op x y).map .int).getD (.float (floatResult op x y))) := by
  obtain ⟨i, rfl, hi⟩ := ofValue?_of_integer? hv
  obtain ⟨j, rfl, hj⟩ := ofValue?_of_integer? hw
  have hzero : j = 0 ↔ j.toInt = 0 := by
    rw [← Int64.toInt_inj, Int64.toInt_zero]
  simp only [arithmetic, hi, hj, hzero, floatResult, Int64.ofInt_toInt]
  split
  · rfl
  · cases integerResult? op i.toInt j.toInt <;> rfl

/-- On integers, a sum is that of numbers, not that of strings or sequences. -/
theorem sum_of_integer? {v w : Value} {x y : Int} (hv : v.integer? = some x)
    (hw : w.integer? = some y) : sum v w = arithmetic .add v w := by
  obtain ⟨i, rfl, -⟩ | ⟨n, rfl, -⟩ := eq_of_integer? hv <;>
    obtain ⟨j, rfl, -⟩ | ⟨m, rfl, -⟩ := eq_of_integer? hw <;> rfl

/-- A binary expression of integers is the operation on them. -/
theorem eval_binary_of_integer? {ε : Type} {env : Env ε} {op : BinaryOp} (hop : IsArithmetic op)
    {a b : Expr} {v w : Value} {x y : Int} (ha : eval env a = .ok v) (hb : eval env b = .ok w)
    (hv : v.integer? = some x) (hw : w.integer? = some y) :
    eval env (.binary op a b) = liftFault (arithmetic op v w) := by
  cases op with
  | add =>
      rw [← sum_of_integer? hv hw]
      simp only [eval, ha, hb]
      rfl
  | power | multiply | divide | remainder | subtract =>
      simp only [eval, ha, hb]
      rfl
  | _ => exact absurd hop (by decide)

/-- Negation gives an integer but for the least one. -/
theorem negate_of_integer? {v : Value} {x : Int} (h : v.integer? = some x) :
    negate v = .ok (((Decimal.int64? (-x)).map .int).getD (.float (-(Int64.ofInt x).toFloat))) := by
  obtain ⟨i, rfl, rfl⟩ | ⟨n, rfl, hn, rfl⟩ := eq_of_integer? h
  · rw [negate, Int64.ofInt_toInt]
    cases Decimal.int64? (-i.toInt) <;> rfl
  · have hneg : (-n.toInt64).toInt = -(n.toNat : Int) := by
      rw [Int64.toInt_neg, toInt_toInt64 hn]
      exact Int.bmod_eq_of_le (by omega) (by omega)
    rw [Decimal.int64?_eq_some_iff.2 hneg]
    exact congrArg _ (if_pos hn)

/-- A result that is an integer exactly if `exact` tells which, and the float `x` otherwise. -/
def GivesIntegerOr {ε : Type} (r : Except (EvalFault ε) Value) (exact : Int → Prop) (x : Float) :
    Prop :=
  (∀ i : Int64, r = .ok (.int i) ↔ exact i.toInt) ∧ ((∃ i, r = .ok (.int i)) ∨ r = .ok (.float x))

/-- An integer that is there exactly if `exact` tells so, with a float in its place otherwise. -/
theorem givesIntegerOr_getD {ε : Type} {integer? : Option Int64} {exact : Int → Prop}
    (h : ∀ i : Int64, integer? = some i ↔ exact i.toInt) (x : Float) :
    GivesIntegerOr (.ok ((integer?.map .int).getD (.float x)) : Except (EvalFault ε) Value)
      exact x := by
  constructor
  · intro i
    rw [← h i]
    cases integer? <;> simp
  · cases integer? <;> simp

/-- An operation on integers gives the integer that is its exact result, whenever that is in range,
and a float otherwise. Only a division by zero has no value. -/
theorem eval_arithmetic {ε : Type} (env : Env ε) {a b : Expr} {v w : Value} {x y : Int}
    (ha : eval env a = .ok v) (hb : eval env b = .ok w) (hv : v.integer? = some x)
    (hw : w.integer? = some y) :
    (∀ op, IsArithmetic op →
      if (op = .divide ∨ op = .remainder) ∧ y = 0 then
        eval env (.binary op a b) = .error (.operator .divisionByZero)
      else
        GivesIntegerOr (eval env (.binary op a b)) (fun r => IsExact op x y r ∧ ¬Excepted op x y)
          (floatResult op x y)) ∧
    GivesIntegerOr (eval env (.unary .negate a)) (fun r => r = -x) (-(Int64.ofInt x).toFloat) := by
  constructor
  · intro op hop
    rw [eval_binary_of_integer? hop ha hb hv hw, arithmetic_of_integer? op hv hw]
    split
    · rfl
    · rename_i hzero
      obtain ⟨i, rfl, -⟩ := ofValue?_of_integer? hv
      exact givesIntegerOr_getD
        (fun _ => integerResult?_eq_some_iff hop i.le_toInt i.toInt_lt hzero) _
  · have hnegate : eval env (.unary .negate a) = liftFault (negate v) := by
      simp only [eval, ha]
      rfl
    rw [hnegate, negate_of_integer? hv]
    exact givesIntegerOr_getD (fun _ => Decimal.int64?_eq_some_iff) _

/-- The remainder of the least integer by -1 is a float, although it would be zero; a product with
an unsigned operand is an integer. -/
theorem eval_arithmetic_least :
    let env : Env Unit := ⟨fun _ => none, none, fun _ _ => .error ()⟩
    (∃ x, eval env (.binary .remainder (.literal (.int Int64.minValue)) (.literal (.int (-1)))) =
      .ok (.float x)) ∧
    eval env (.binary .multiply (.literal (.uint 3)) (.literal (.int (-1)))) = .ok (.int (-3)) := by
  intro env
  have hliteral (v : Value) : eval env (.literal v) = .ok v := by rw [eval]
  have hleast : Value.integer? (.int Int64.minValue) = some (-2 ^ 63) := by decide
  have hone : Value.integer? (.int (-1)) = some (-1) := by decide
  have hthree : Value.integer? (.uint 3) = some 3 := by decide
  constructor
  · have h := (eval_arithmetic env (hliteral _) (hliteral _) hleast hone).1 .remainder (by decide)
    rw [if_neg (by decide)] at h
    rcases h.2 with ⟨i, hi⟩ | hx
    · exact absurd (.inl ⟨rfl, rfl, rfl⟩) ((h.1 i).1 hi).2
    · exact ⟨_, hx⟩
  · have h := (eval_arithmetic env (hliteral _) (hliteral _) hthree hone).1 .multiply (by decide)
    rw [if_neg (by decide)] at h
    refine (h.1 (-3)).2 ⟨IsExact.multiply 3 (-1), ?_⟩
    rintro (⟨hop, -⟩ | ⟨hop, -⟩) <;> exact nomatch hop

end Expr
end Stencil
