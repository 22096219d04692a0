import Stencil.Proofs.Decimal.Nearest
import Stencil.Proofs.Expr.Arithmetic

/-!
# Comparing integers

Signed and unsigned integers are compared as the integers they are, unless one of them is beyond the
signed range.  Then both are compared as floats, and two integers with one nearest float count as
one.

## Main definitions

* `Value.held?` — the integer a number holds, over the ranges of both types
* `Expr.relation?` — what a comparison says of two integers
* `Expr.Blurred` — integers that comparisons do not tell apart as they become floats

## Main results

* `Expr.looselyEqual_of_held`, `Expr.order_of_held` — equality and order of two integers
* `Expr.eval_comparison` — what the comparisons and `in` evaluate to on integers, and when that is
  the truth
-/

namespace Stencil

/-- The integer a number holds, if it is not a float. Unlike the integer of arithmetic it is there
for every unsigned number. -/
def Value.held? : Value → Option Int
  | .int i => some i.toInt
  | .uint n => some n.toNat
  | _ => none

namespace Expr

open Float.Model

/-- What a comparison says of two integers. -/
def relation? : BinaryOp → Option (Int → Int → Bool)
  | .equal => some fun x y => decide (x = y)
  | .notEqual => some fun x y => decide (x ≠ y)
  | .less => some fun x y => decide (x < y)
  | .lessEqual => some fun x y => decide (x ≤ y)
  | .greater => some fun x y => decide (y < x)
  | .greaterEqual => some fun x y => decide (y ≤ x)
  | _ => none

/-- One of two integers is beyond the signed range, and both are the same rounded to floats. Such
integers are compared as those floats. -/
def Blurred (x y : Int) : Prop :=
  (2 ^ 63 ≤ x ∨ 2 ^ 63 ≤ y) ∧ Decimal.rounded x = Decimal.rounded y

instance (x y : Int) : Decidable (Blurred x y) := inferInstanceAs (Decidable (_ ∧ _))

/-! ### Floats -/

variable {f g : Float} {x y : Int}

/-- Floats with the values of integers are equal as these. -/
theorem beq_of_stands (hf : Decimal.Stands f.toModel.unpack x)
    (hg : Decimal.Stands g.toModel.unpack y) : (f == g) = decide (x = y) := by
  show (f.toModel.unpack.compare g.toModel.unpack == some .eq) = _
  rw [hf.compare_eq hg, Bool.eq_iff_iff, beq_iff_eq, Option.some_inj, decide_eq_true_iff]
  exact compare_eq_iff_eq

theorem lt_of_stands (hf : Decimal.Stands f.toModel.unpack x)
    (hg : Decimal.Stands g.toModel.unpack y) : f < g ↔ x < y := by
  have hmodel : f < g ↔ (f.toModel.unpack.compare g.toModel.unpack == some .lt) = true :=
    decide_eq_true_iff
  rw [hmodel, hf.compare_eq hg, beq_iff_eq, Option.some_inj]
  exact compare_lt_iff_lt

theorem floatOrder?_of_stands (hf : Decimal.Stands f.toModel.unpack x)
    (hg : Decimal.Stands g.toModel.unpack y) : floatOrder? f g = some (compare x y) := by
  simp only [floatOrder?, lt_of_stands hf hg, lt_of_stands hg hf, beq_of_stands hf hg,
    decide_eq_true_iff]
  rcases Int.lt_trichotomy x y with hlt | rfl | hgt
  · rw [if_pos hlt, compare_lt_iff_lt.2 hlt]
  · rw [if_neg (Int.lt_irrefl x), if_pos rfl, compare_eq_iff_eq.2 (rfl : x = x)]
  · rw [if_neg (by omega), if_neg (by omega), if_pos hgt, compare_gt_iff_gt.2 hgt]

/-! ### Integers -/

variable {v w : Value}

/-- An integer enters a comparison as it is if it is in the signed range, and as the nearest float
otherwise. -/
theorem ofValue?_of_held (h : v.held? = some x) :
    ∃ k, Number.ofValue? v = some k ∧
      Decimal.Stands k.toFloat.toModel.unpack (Decimal.rounded x) ∧
      if x < 2 ^ 63 then ∃ i : Int64, k = .int i ∧ i.toInt = x else ∃ z, k = .float z := by
  cases v with
  | int i =>
      obtain rfl := Option.some.inj h
      refine ⟨.int i, rfl, Decimal.stands_floatOfInt64 i, ?_⟩
      rw [if_pos i.toInt_lt]
      exact ⟨i, rfl, rfl⟩
  | uint n =>
      obtain rfl := Option.some.inj h
      have hbound : Nat.pow 2 63 = 2 ^ 63 := rfl
      simp only [Number.ofValue?, hbound]
      by_cases hn : n.toNat < 2 ^ 63
      · have hint := toInt_toInt64 hn
        refine ⟨.int n.toInt64, congrArg some (if_pos hn), ?_, ?_⟩
        · rw [← hint]
          exact Decimal.stands_floatOfInt64 n.toInt64
        · rw [if_pos (by omega)]
          exact ⟨n.toInt64, rfl, hint⟩
      · refine ⟨.float n.toFloat, congrArg some (if_neg hn), Decimal.stands_toFloat n, ?_⟩
        rw [if_neg (by omega)]
        exact ⟨_, rfl⟩
  | _ => exact nomatch h

/-- Two integers are compared as integers if both are in the signed range, and as floats otherwise.
-/
theorem operands_of_held (hv : v.held? = some x) (hw : w.held? = some y) :
    (∃ i j : Int64, Number.ofValue? v = some (.int i) ∧ Number.ofValue? w = some (.int j) ∧
      i.toInt = x ∧ j.toInt = y ∧ ¬(2 ^ 63 ≤ x ∨ 2 ^ 63 ≤ y)) ∨
    ∃ k l : Number, Number.ofValue? v = some k ∧ Number.ofValue? w = some l ∧
      Decimal.Stands k.toFloat.toModel.unpack (Decimal.rounded x) ∧
      Decimal.Stands l.toFloat.toModel.unpack (Decimal.rounded y) ∧
      ((∃ z, k = .float z) ∨ ∃ z, l = .float z) ∧ (2 ^ 63 ≤ x ∨ 2 ^ 63 ≤ y) := by
  obtain ⟨k, hk, hkstands, hkrange⟩ := ofValue?_of_held hv
  obtain ⟨l, hl, hlstands, hlrange⟩ := ofValue?_of_held hw
  by_cases hx : x < 2 ^ 63
  · rw [if_pos hx] at hkrange
    by_cases hy : y < 2 ^ 63
    · rw [if_pos hy] at hlrange
      obtain ⟨i, rfl, hi⟩ := hkrange
      obtain ⟨j, rfl, hj⟩ := hlrange
      exact .inl ⟨i, j, hk, hl, hi, hj, by omega⟩
    · rw [if_neg hy] at hlrange
      exact .inr ⟨k, l, hk, hl, hkstands, hlstands, .inr hlrange, .inr (by omega)⟩
  · rw [if_neg hx] at hkrange
    exact .inr ⟨k, l, hk, hl, hkstands, hlstands, .inl hkrange, .inl (by omega)⟩

/-- Equality tells integers apart unless they are blurred. Two signed ones are compared as integers,
but as soon as one is beyond the signed range both are made floats. -/
theorem looselyEqual_of_held (hv : v.held? = some x) (hw : w.held? = some y) :
    looselyEqual v w = decide (x = y ∨ Blurred x y) := by
  obtain ⟨i, j, hi, hj, rfl, rfl, hrange⟩ | ⟨k, l, hk, hl, hkx, hly, hfloat, hrange⟩ :=
    operands_of_held hv hw
  · have hsharp : ¬Blurred i.toInt j.toInt := fun h => hrange h.1
    simp only [looselyEqual, hi, hj, or_iff_left hsharp, Int64.toInt_inj]
    exact beq_eq_decide i j
  · have hequal : looselyEqual v w = (k.toFloat == l.toFloat) := by
      simp only [looselyEqual, hk, hl]
      obtain ⟨z, rfl⟩ | ⟨z, rfl⟩ := hfloat
      · rfl
      · cases k <;> rfl
    rw [hequal, beq_of_stands hkx hly]
    refine decide_eq_decide.2 ⟨fun h => .inr ⟨hrange, h⟩, ?_⟩
    rintro (rfl | h)
    · rfl
    · exact h.2

/-- Integers are in the order of integers unless they are blurred. Rounding keeps the order, so the
only thing that may happen to it is that it is lost. -/
theorem order_of_held (hv : v.held? = some x) (hw : w.held? = some y) :
    order v w = .ok (if Blurred x y then .eq else compare x y) := by
  obtain ⟨i, j, hi, hj, rfl, rfl, hrange⟩ | ⟨k, l, hk, hl, hkx, hly, hfloat, hrange⟩ :=
    operands_of_held hv hw
  · have hsharp : ¬Blurred i.toInt j.toInt := fun h => hrange h.1
    simp only [order, hi, hj, if_neg hsharp]
  · have horder : order v w = .ok (compare (Decimal.rounded x) (Decimal.rounded y)) := by
      have hfloats := floatOrder?_of_stands hkx hly
      obtain ⟨z, rfl⟩ | ⟨z, rfl⟩ := hfloat
      · simp only [order, hk, hl, hfloats]
      · cases k <;> simp only [order, hk, hl, hfloats]
    rw [horder]
    by_cases hblurred : Decimal.rounded x = Decimal.rounded y
    · rw [if_pos ⟨hrange, hblurred⟩, hblurred, compare_eq_iff_eq.2 rfl]
    · rw [if_neg fun h => hblurred h.2]
      -- Rounding keeps the order, and here it keeps the two apart.
      rcases Int.lt_trichotomy x y with hlt | rfl | hgt
      · have hle := Decimal.rounded_mono (Int.le_of_lt hlt)
        rw [compare_lt_iff_lt.2 hlt, compare_lt_iff_lt.2 (by omega)]
      · exact absurd rfl hblurred
      · have hle := Decimal.rounded_mono (Int.le_of_lt hgt)
        rw [compare_gt_iff_gt.2 hgt, compare_gt_iff_gt.2 (by omega)]

/-- What the order of two integers says of them. -/
theorem compare_tests (x y : Int) :
    (compare x y == .lt) = decide (x < y) ∧ (compare x y != .gt) = decide (x ≤ y) ∧
      (compare x y == .gt) = decide (y < x) ∧ (compare x y != .lt) = decide (y ≤ x) := by
  rcases Int.lt_trichotomy x y with hlt | rfl | hgt
  · rw [compare_lt_iff_lt.2 hlt]
    simp [hlt, Int.le_of_lt hlt, Int.lt_asymm hlt]
  · rw [compare_eq_iff_eq.2 (rfl : x = x)]
    simp
  · rw [compare_gt_iff_gt.2 hgt]
    simp [hgt, Int.le_of_lt hgt, Int.lt_asymm hgt]

/-- Comparisons are those of the integers, but blurred integers are compared as one. -/
theorem strictOperation_of_held (hv : v.held? = some x) (hw : w.held? = some y) {op : BinaryOp}
    {r : Int → Int → Bool} (hop : relation? op = some r) :
    strictOperation op v w = .ok (.bool (if Blurred x y then r x x else r x y)) := by
  have hequal := looselyEqual_of_held hv hw
  have horder := order_of_held hv hw
  have htests := compare_tests x y
  cases op with
  | equal | notEqual =>
      obtain rfl := Option.some.inj hop
      simp only [strictOperation, hequal]
      by_cases hblurred : Blurred x y <;> simp [hblurred]
  | less | lessEqual | greater | greaterEqual =>
      obtain rfl := Option.some.inj hop
      simp only [strictOperation, horder, Except.map]
      by_cases hblurred : Blurred x y <;> simp [hblurred, htests]
  | _ => exact nomatch hop

/-- An integer is among some integers if it is, or if it is blurred with one of them. Search goes by
equality of values, item by item. -/
theorem contains_of_held (hv : v.held? = some x) {items : List Value} {numbers : List Int}
    (h : items.map Value.held? = numbers.map some) :
    contains v (.seq items) = .ok (decide (x ∈ numbers ∨ ∃ y ∈ numbers, Blurred x y)) := by
  have hany : items.any (looselyEqual v) = numbers.any fun y => decide (x = y ∨ Blurred x y) := by
    induction numbers generalizing items with
    | nil => rw [List.map_eq_nil_iff.1 h, List.any_nil, List.any_nil]
    | cons y numbers ih =>
        obtain ⟨w, items, rfl, hw, hitems⟩ := List.map_eq_cons_iff.1 h
        rw [List.any_cons, List.any_cons, ih hitems, looselyEqual_of_held hv hw]
  rw [contains, hany]
  congr 1
  rw [Bool.eq_iff_iff]
  simp only [List.any_eq_true, decide_eq_true_iff]
  constructor
  · rintro ⟨y, hy, rfl | hblurred⟩
    · exact .inl hy
    · exact .inr ⟨y, hy, hblurred⟩
  · rintro (hx | ⟨y, hy, hblurred⟩)
    · exact ⟨x, hx, .inl rfl⟩
    · exact ⟨y, hy, .inr hblurred⟩

/-! ### Expressions -/

/-- A comparison needs both of its operands. -/
theorem eval_binary_of_relation? {ε : Type} {env : Env ε} {op : BinaryOp} {r : Int → Int → Bool}
    (hop : relation? op = some r) {a b : Expr} (ha : eval env a = .ok v) (hb : eval env b = .ok w) :
    eval env (.binary op a b) = liftFault (strictOperation op v w) := by
  cases op with
  | equal | notEqual | less | lessEqual | greater | greaterEqual =>
      simp only [eval, ha, hb]
      rfl
  | _ => simp [relation?] at hop

/-- On integers, signed or not, the comparisons and `in` have the truth values of the comparisons of
the integers, except that two integers of which one is beyond the signed range count as one if they
are the same rounded to floats.  So they are right about two integers if and only if these are equal
or not blurred. -/
theorem eval_comparison {ε : Type} (env : Env ε) {a b : Expr} (ha : eval env a = .ok v)
    (hb : eval env b = .ok w) (hv : v.held? = some x) (hw : w.held? = some y) :
    (∀ op r, relation? op = some r →
      eval env (.binary op a b) = .ok (.bool (if Blurred x y then r x x else r x y))) ∧
    ((∀ op r, relation? op = some r → eval env (.binary op a b) = .ok (.bool (r x y))) ↔
      (Blurred x y → x = y)) ∧
    ∀ c items (numbers : List Int), eval env c = .ok (.seq items) →
      items.map Value.held? = numbers.map some →
      eval env (.binary .member a c) =
        .ok (.bool (decide (x ∈ numbers ∨ ∃ z ∈ numbers, Blurred x z))) := by
  have hcompare : ∀ op r, relation? op = some r →
      eval env (.binary op a b) = .ok (.bool (if Blurred x y then r x x else r x y)) := by
    intro op r hop
    rw [eval_binary_of_relation? hop ha hb, strictOperation_of_held hv hw hop]
    rfl
  refine ⟨hcompare, ?_, ?_⟩
  · constructor
    -- Blurred integers are equal to the language, so they have to be equal.
    · intro h hblurred
      have hequal := (hcompare .equal _ rfl).symm.trans (h .equal _ rfl)
      rw [if_pos hblurred] at hequal
      simpa using hequal
    · intro h op r hop
      rw [hcompare op r hop]
      split
      · rename_i hblurred
        rw [← h hblurred]
      · rfl
  · intro c items numbers hc hitems
    have hmember : eval env (.binary .member a c) =
        liftFault (strictOperation .member v (.seq items)) := by
      simp only [eval, ha, hc]
      rfl
    rw [hmember, strictOperation, contains_of_held hv hitems]
    rfl

/-- The largest unsigned integer is greater than any signed one, and taken for the one before it. -/
theorem eval_comparison_largest :
    let env : Env Unit := ⟨fun _ => none, none, fun _ _ => .error ()⟩
    let largest : Expr := .literal (.uint 18446744073709551615)
    eval env (.binary .greater largest (.literal (.int (-1)))) = .ok (.bool true) ∧
    eval env (.binary .greater largest (.literal (.uint 18446744073709551614))) =
      .ok (.bool false) ∧
    eval env (.binary .member largest (.literal (.seq [.int (-1), .uint 18446744073709551614]))) =
      .ok (.bool true) := by
  intro env largest
  have hliteral (v : Value) : eval env (.literal v) = .ok v := by rw [eval]
  have hlargest : Value.held? (.uint 18446744073709551615) = some 18446744073709551615 := rfl
  have hbefore : Value.held? (.uint 18446744073709551614) = some 18446744073709551614 := rfl
  have hminus : Value.held? (.int (-1)) = some (-1) := rfl
  have hsharp : ¬Blurred 18446744073709551615 (-1) := by decide
  have hblurred : Blurred 18446744073709551615 18446744073709551614 := by decide
  have h := eval_comparison env (hliteral _) (hliteral _) hlargest hminus
  have h' := eval_comparison env (hliteral _) (hliteral _) hlargest hbefore
  refine ⟨?_, ?_, ?_⟩
  · rw [h.1 .greater _ rfl, if_neg hsharp]
    rfl
  · rw [h'.1 .greater _ rfl, if_pos hblurred]
    rfl
  · have hmember := h.2.2 _ [.int (-1), .uint 18446744073709551614] [-1, 18446744073709551614]
      (hliteral _) rfl
    rw [hmember, decide_eq_true (.inr ⟨_, List.mem_cons_of_mem _ List.mem_cons_self, hblurred⟩)]

/-- Two integers beyond the signed range can be equal to `==` although they are not equal. -/
theorem not_eval_comparison :
    ¬∀ (ε : Type) (env : Env ε) (a b : Expr) (v w : Value) (x y : Int),
      eval env a = .ok v → eval env b = .ok w → v.held? = some x → w.held? = some y →
      ∀ op r, relation? op = some r → eval env (.binary op a b) = .ok (.bool (r x y)) := by
  intro h
  let env : Env Unit := ⟨fun _ => none, none, fun _ _ => .error ()⟩
  have hliteral (v : Value) : eval env (.literal v) = .ok v := by rw [eval]
  have hfirst : Value.held? (.uint 9223372036854775808) = some 9223372036854775808 := rfl
  have hsecond : Value.held? (.uint 9223372036854775809) = some 9223372036854775809 := rfl
  have hclaimed := h Unit env _ _ _ _ _ _ (hliteral _) (hliteral _) hfirst hsecond .equal _ rfl
  have hblurred : Blurred 9223372036854775808 9223372036854775809 := by decide
  rw [eval_binary_of_relation? rfl (hliteral _) (hliteral _),
    strictOperation_of_held hfirst hsecond rfl, if_pos hblurred] at hclaimed
  exact absurd hclaimed (by simp [liftFault, Except.mapError])

end Expr
end Stencil
