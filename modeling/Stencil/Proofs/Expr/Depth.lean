import Stencil.Proofs.Expr.Derivation

/-!
# Brackets of expressions

The brackets of an expression close each other.

## Main definitions

* `depth` — how many brackets tokens open and do not close
* `Balanced` — tokens that close what they open, and nothing before they open it
* `Nested` — tokens without brackets, joined and put between brackets

## Main results

* `Nested.balanced` — nested tokens are balanced
* `Derives.nested` — the tokens of an expression are nested
-/

namespace Stencil.Expr

/-- How many brackets a token opens. -/
def Token.weight : Token → Int
  | .symbol .openParen | .symbol .openBracket | .symbol .openBrace => 1
  | .symbol .closeParen | .symbol .closeBracket | .symbol .closeBrace => -1
  | _ => 0

/-- How many brackets tokens open and do not close. It is an integer, as a part of an expression may
close more than it opens. -/
def depth : List Token → Int
  | [] => 0
  | t :: ts => t.weight + depth ts

/-- From a depth on, tokens close no bracket that was not opened. -/
def Stays : (depth : Int) → List Token → Prop
  | d, [] => 0 ≤ d
  | d, t :: ts => 0 ≤ d ∧ Stays (d + t.weight) ts

/-- Tokens close what they open, and nothing before they open it. -/
structure Balanced (ts : List Token) : Prop where
  depth_eq : depth ts = 0
  stays : Stays 0 ts

section Depth

variable {t : Token} {ts us : List Token} {d d' : Int}

/-- No tokens have depth zero. -/
@[simp] theorem depth_nil : depth [] = 0 := rfl

/-- Depths add up, beginning with the first token. -/
@[simp] theorem depth_cons (t : Token) (ts : List Token) : depth (t :: ts) = t.weight + depth ts :=
  rfl

/-- Depths add up over runs of tokens. -/
@[simp] theorem depth_append (ts us : List Token) : depth (ts ++ us) = depth ts + depth us := by
  induction ts with
  | nil => exact (Int.zero_add _).symm
  | cons t ts ih => rw [List.cons_append, depth_cons, depth_cons, ih, Int.add_assoc]

/-- Where some tokens do not fall below zero, they do not begin below it. -/
theorem Stays.nonneg (h : Stays d ts) : 0 ≤ d := by
  cases ts with
  | nil => exact h
  | cons t ts => exact h.1

/-- From a greater depth they do not fall below zero either. -/
theorem Stays.mono (h : Stays d ts) (hd : d ≤ d') : Stays d' ts := by
  induction ts generalizing d d' with
  | nil => exact Int.le_trans h hd
  | cons t ts ih => exact ⟨Int.le_trans h.1 hd, ih h.2 (by omega)⟩

/-- Two runs do not fall below zero, the second from the depth at which the first ends. -/
theorem stays_append (h : Stays d ts) (h' : Stays (d + depth ts) us) : Stays d (ts ++ us) := by
  induction ts generalizing d with
  | nil => simpa using h'
  | cons t ts ih =>
      refine ⟨h.1, ih h.2 ?_⟩
      rwa [depth_cons, ← Int.add_assoc] at h'

/-- No tokens are balanced. -/
theorem balanced_nil : Balanced [] := ⟨rfl, Int.le_refl 0⟩

/-- A token that is no bracket is balanced. -/
theorem balanced_singleton (ht : t.weight = 0) : Balanced [t] where
  depth_eq := by simp [ht]
  stays := ⟨Int.le_refl 0, by rw [ht]; exact Int.le_refl 0⟩

/-- Balanced tokens may be put one after the other. -/
theorem Balanced.append (h : Balanced ts) (h' : Balanced us) : Balanced (ts ++ us) where
  depth_eq := by rw [depth_append, h.depth_eq, h'.depth_eq, Int.add_zero]
  stays := stays_append h.stays (h'.stays.mono (by simp [h.depth_eq]))

/-- Tokens that are balanced are so between brackets, too. -/
theorem Balanced.enclosed (h : Balanced ts) (first last : Symbol)
    (hfirst : (Token.symbol first).weight = 1) (hlast : (Token.symbol last).weight = -1) :
    Balanced (.symbol first :: (ts ++ [.symbol last])) where
  depth_eq := by simp [h.depth_eq, hfirst, hlast]
  stays := by
    refine ⟨Int.le_refl 0, stays_append (h.stays.mono (by omega)) ?_⟩
    rw [h.depth_eq, hfirst]
    refine ⟨by decide, ?_⟩
    rw [hlast]
    exact Int.le_refl 0

end Depth

/-- A name of a member is no bracket. -/
theorem weight_of_memberName? {t : Token} {field : String} (h : memberName? t = some field) :
    t.weight = 0 := by
  unfold memberName? at h
  split at h
  · rfl
  · rfl
  · exact nomatch h

/-- A key of an entry is no bracket. -/
theorem weight_of_entryKey? {t : Token} {key : String} (h : entryKey? t = some key) :
    t.weight = 0 := by
  unfold entryKey? at h
  split at h
  · rfl
  · rfl
  · exact nomatch h

/-- Operators are no brackets. -/
theorem weight_of_prefixOp? {t : Token} {op : Option UnaryOp} (h : prefixOp? t = some op) :
    t.weight = 0 := by
  unfold prefixOp? at h
  split at h
  · rfl
  · rfl
  · rfl
  · rfl
  · exact nomatch h

/-- A binary operator is no bracket. -/
theorem weight_of_binaryOp? {t : Token} {op : BinaryOp} (h : binaryOp? t = some op) :
    t.weight = 0 := by
  cases t with
  | symbol s => cases s <;> first | rfl | exact nomatch h
  | _ => rfl

/-! ### Nesting -/

/-- Tokens without brackets, joined and put between brackets. Unlike a count of brackets it says
which bracket is closed by which. -/
inductive Nested : List Token → Prop where
  | nil : Nested []
  | single {t : Token} : t.weight = 0 → Nested [t]
  | append {ts us : List Token} : Nested ts → Nested us → Nested (ts ++ us)
  | parens {ts : List Token} : Nested ts →
      Nested (.symbol .openParen :: (ts ++ [.symbol .closeParen]))
  | brackets {ts : List Token} : Nested ts →
      Nested (.symbol .openBracket :: (ts ++ [.symbol .closeBracket]))
  | braces {ts : List Token} : Nested ts →
      Nested (.symbol .openBrace :: (ts ++ [.symbol .closeBrace]))

/-- A token that is no bracket may stand before nested ones. -/
theorem Nested.cons {t : Token} {ts : List Token} (ht : t.weight = 0) (h : Nested ts) :
    Nested (t :: ts) :=
  (Nested.single ht).append h

/-- Nested tokens are balanced: each bracket is closed by the one of its own kind, so depths need no
kinds. -/
theorem Nested.balanced {ts : List Token} (h : Nested ts) : Balanced ts := by
  induction h with
  | nil => exact balanced_nil
  | single ht => exact balanced_singleton ht
  | append _ _ ih ih' => exact ih.append ih'
  | parens _ ih => exact ih.enclosed .openParen .closeParen rfl rfl
  | brackets _ ih => exact ih.enclosed .openBracket .closeBracket rfl rfl
  | braces _ ih => exact ih.enclosed .openBrace .closeBrace rfl rfl

/-- Nested parts with commas between are nested. -/
theorem nested_commaSeparated {parts : List (List Token)} (h : ∀ part ∈ parts, Nested part) :
    Nested (commaSeparated parts) := by
  induction parts with
  | nil => exact .nil
  | cons part parts ih =>
      obtain ⟨hpart, hparts⟩ := List.forall_mem_cons.1 h
      rcases parts with _ | ⟨next, parts⟩
      · rw [commaSeparated, List.intercalate_singleton]
        exact hpart
      · rw [commaSeparated, List.intercalate_cons_cons]
        exact (hpart.append (.single rfl)).append (ih hparts)

/-- The tokens of an expression are nested. The induction is on the derivation; brackets are only
ever derived in pairs. -/
theorem Derives.nested {e : Expr} {ts : List Token} (h : Derives e ts) : Nested ts := by
  induction h with
  | int _ => exact .single rfl
  | float _ => exact .single rfl
  | str _ => exact .single rfl
  | name _ => exact .single rfl
  | current => exact .single rfl
  | currentMember w => exact .cons rfl (.single rfl)
  | parenthesized _ ih => exact .parens ih
  | array _ ih => exact .brackets (nested_commaSeparated (List.forall_mem_map.2 ih))
  | mapping hkeys _ ih =>
      refine .braces (nested_commaSeparated (List.forall_mem_map.2 fun entry hentry => ?_))
      exact .cons (weight_of_entryKey? (hkeys entry hentry)) (.cons rfl (ih entry hentry))
  | member _ hfield ih => exact ih.append (.cons rfl (.single (weight_of_memberName? hfield)))
  | index _ _ ih ihkey => exact ih.append (.brackets ihkey)
  | call _ _ ih ihargs =>
      exact ih.append (.parens (nested_commaSeparated (List.forall_mem_map.2 ihargs)))
  | plus ht _ ih => exact .cons (weight_of_prefixOp? ht) ih
  | unary ht _ ih => exact .cons (weight_of_prefixOp? ht) ih
  | binary ht _ _ iha ihb => exact iha.append (.cons (weight_of_binaryOp? ht) ihb)
  | choice _ _ _ ihcondition ihyes ihno =>
      exact ihcondition.append (.cons rfl (ihyes.append (.cons rfl ihno)))

end Stencil.Expr
