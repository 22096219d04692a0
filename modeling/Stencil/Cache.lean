import Stencil.Dict

/-!
# Caches

Values computed once for a key and then kept.

## Main definitions

* `Cache` — the values kept so far
* `Cache.getOrInsert`, `Cache.getOrTryInsert` — the kept value, or a new one that is kept from then
  on
* `Cache.Holds` — every value kept is right for its key

## Design notes

A kept value is never replaced, and a failure is never kept. Both operations return the cache after
them.
-/

namespace Stencil

/-- The values kept under their keys. What makes a value right for its key is not part of the type;
`Cache.Holds` says it where a cache is used. -/
structure Cache (α : Type) where
  entries : Dict α

namespace Cache

variable {α ε : Type}

/-- A cache that keeps nothing yet. -/
def empty : Cache α := ⟨[]⟩

/-- The value kept under a key. -/
def get? (c : Cache α) (key : String) : Option α := Dict.get? c.entries key

/-- Keeps a value under a key that has none. -/
def keep (c : Cache α) (key : String) (value : α) : Cache α :=
  if (c.get? key).isSome then c else ⟨Dict.insert key value c.entries⟩

/-- The value under a key, built if it is not kept yet. A failure to build is not kept. -/
def getOrTryInsert (c : Cache α) (key : String) (build : Unit → Except ε α) :
    Except ε α × Cache α :=
  match c.get? key with
  | some value => (.ok value, c)
  | none =>
    match build () with
    | .ok value => (.ok value, c.keep key value)
    | .error e => (.error e, c)

/-- The value under a key, built if it is not kept yet. -/
def getOrInsert (c : Cache α) (key : String) (build : Unit → α) : α × Cache α :=
  match c.get? key with
  | some value => (value, c)
  | none =>
    let value := build ()
    (value, c.keep key value)

/-- Forgets everything. -/
def clear (_ : Cache α) : Cache α := empty

/-- The number of values kept. -/
def size (c : Cache α) : Nat := c.entries.length

/-- Whether nothing is kept. -/
def isEmpty (c : Cache α) : Bool := c.entries.isEmpty

/-- Every value kept is right for its key. -/
def Holds (right : String → α → Prop) (c : Cache α) : Prop :=
  ∀ key value, c.get? key = some value → right key value

@[simp] theorem get?_empty (key : String) : (empty : Cache α).get? key = none := rfl

/-- Keeping a value changes only a key that had none. -/
theorem get?_keep (c : Cache α) (key : String) (value : α) (name : String) :
    (c.keep key value).get? name = (c.get? name).or (if key = name then some value else none) := by
  unfold keep
  split
  · rename_i h
    by_cases e : key = name
    · subst e
      obtain ⟨v, hv⟩ := Option.isSome_iff_exists.1 h
      simp [hv]
    · simp [e]
  · rename_i h
    simp only [Option.not_isSome_iff_eq_none] at h
    by_cases e : key = name
    · subst e
      simp [h]
      simp [get?, Dict.get?_insert]
    · simp [get?, Dict.get?_insert, e]

/-- A value that is kept stays what it is. -/
theorem get?_keep_of_get? {c : Cache α} {name : String} {v : α} (h : c.get? name = some v)
    (key : String) (value : α) : (c.keep key value).get? name = some v := by
  rw [get?_keep, h, Option.some_or]

/-- A value kept under a key that had none is found there. -/
theorem get?_keep_self {c : Cache α} {key : String} (h : c.get? key = none) (value : α) :
    (c.keep key value).get? key = some value := by
  simp [get?_keep, h]

/-- A value is found after another one was kept either because it was kept before or because it is
that one. -/
theorem get?_keep_cases {c : Cache α} {key name : String} {value v : α}
    (h : (c.keep key value).get? name = some v) :
    c.get? name = some v ∨ (c.get? name = none ∧ name = key ∧ v = value) := by
  rw [get?_keep] at h
  cases hn : c.get? name with
  | some u =>
      rw [hn, Option.some_or] at h
      exact .inl h
  | none =>
      rw [hn, Option.none_or] at h
      split at h
      · rename_i e
        exact .inr ⟨rfl, e.symm, (Option.some.inj h).symm⟩
      · simp at h

/-- Nothing is found under a name after a value was kept only if it was not kept there. -/
theorem get?_keep_eq_none {c : Cache α} {key name : String} {value : α}
    (h : (c.keep key value).get? name = none) : c.get? name = none ∧ name ≠ key := by
  rw [get?_keep, Option.or_eq_none_iff] at h
  refine ⟨h.1, fun e => ?_⟩
  rw [if_pos e.symm] at h
  exact absurd h.2 (by simp)

/-! ### Right values -/

variable {right : String → α → Prop}

theorem holds_empty : (empty : Cache α).Holds right := by
  intro key value h
  simp at h

/-- Keeping a right value keeps all values right. -/
theorem Holds.keep {c : Cache α} (hc : c.Holds right) {key : String} {value : α}
    (hv : right key value) : (c.keep key value).Holds right := by
  intro name v h
  rcases get?_keep_cases h with h | ⟨-, rfl, rfl⟩
  · exact hc name v h
  · exact hv

/-- What a cache of right values gives is what building gives. -/
theorem getOrTryInsert_fst {c : Cache α} {build : String → Except ε α}
    (hc : c.Holds fun key v => build key = .ok v) (key : String) :
    (c.getOrTryInsert key fun _ => build key).1 = build key := by
  unfold getOrTryInsert
  cases h : c.get? key with
  | some v => exact (hc key v h).symm
  | none => cases hb : build key <;> rfl

/-- Only what building gives is kept. -/
theorem Holds.getOrTryInsert {c : Cache α} {build : String → Except ε α}
    (hc : c.Holds fun key v => build key = .ok v) (key : String) :
    (c.getOrTryInsert key fun _ => build key).2.Holds fun key v => build key = .ok v := by
  unfold Cache.getOrTryInsert
  cases h : c.get? key with
  | some v => exact hc
  | none =>
      cases hb : build key with
      | error e => exact hc
      | ok v => exact hc.keep hb

/-- What a cache of right values gives is what building gives. -/
theorem getOrInsert_fst {c : Cache α} {build : String → α}
    (hc : c.Holds fun key v => v = build key) (key : String) :
    (c.getOrInsert key fun _ => build key).1 = build key := by
  unfold getOrInsert
  cases h : c.get? key with
  | some v => exact hc key v h
  | none => rfl

/-- Only what building gives is kept. -/
theorem Holds.getOrInsert {c : Cache α} {build : String → α}
    (hc : c.Holds fun key v => v = build key) (key : String) :
    (c.getOrInsert key fun _ => build key).2.Holds fun key v => v = build key := by
  unfold Cache.getOrInsert
  cases h : c.get? key with
  | some v => exact hc
  | none => exact hc.keep rfl

end Cache
end Stencil
