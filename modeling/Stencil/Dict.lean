/-!
# Dictionaries

Values under text keys, in the order of the keys.

## Main definitions

* `Dict` — pairs of key and value
* `Dict.get?`, `Dict.contains` — look-up
* `Dict.insert` — puts a value under a key, keeping the order
* `Dict.ofPairs`, `Dict.overlay` — a dictionary from pairs, of which later ones win
* `Dict.Sorted` — the keys are strictly increasing
* `Dict.mapValues` — other values under the same keys

## Design notes

A dictionary is a plain list, so that it can occur inside the recursive type of values. Every
dictionary that this library builds is sorted: `Dict.sorted_insert`, `Dict.sorted_ofPairs`.
-/

namespace Stencil

/-- Pairs of key and value. -/
abbrev Dict (α : Type) := List (String × α)

namespace Dict

variable {α : Type}

/-- The value under a key. -/
def get? (d : Dict α) (key : String) : Option α := (d.find? (·.1 == key)).map (·.2)

/-- Whether there is a value under a key. -/
def contains (d : Dict α) (key : String) : Bool := (get? d key).isSome

/-- Puts a value under a key, before the first greater key. -/
def insert (key : String) (value : α) : Dict α → Dict α
  | [] => [(key, value)]
  | (k, v) :: rest =>
    if key < k then (key, value) :: (k, v) :: rest
    else if k = key then (key, value) :: rest
    else (k, v) :: insert key value rest

/-- The entries of `inner` put into `outer` one after the other. -/
def overlay (outer : Dict α) (inner : List (String × α)) : Dict α :=
  inner.foldl (fun d entry => insert entry.1 entry.2 d) outer

/-- A dictionary from pairs; of two with one key the later one counts. -/
def ofPairs (pairs : List (String × α)) : Dict α := overlay [] pairs

/-- The keys are strictly increasing. -/
def Sorted (d : Dict α) : Prop := d.Pairwise fun a b => a.1 < b.1

/-- An empty dictionary has no key. -/
theorem get?_nil (key : String) : get? ([] : Dict α) key = none := rfl

/-- The first entry with a key counts. -/
theorem get?_cons (k : String) (v : α) (d : Dict α) (key : String) :
    get? ((k, v) :: d) key = if k = key then some v else get? d key := by
  by_cases h : k = key <;> simp [get?, h]

/-- The key of an insertion has the inserted value, every other key the value it had. No order of
the entries is asked for. -/
theorem get?_insert (key : String) (value : α) (d : Dict α) (name : String) :
    get? (insert key value d) name = if key = name then some value else get? d name := by
  induction d with
  | nil => simp [insert, get?_cons]
  | cons entry d ih =>
    obtain ⟨k, v⟩ := entry
    unfold insert
    split
    · simp [get?_cons]
    · split
      · rename_i hk
        subst hk
        by_cases h : k = name <;> simp [get?_cons, h]
      · rename_i hk
        by_cases h : k = name
        · subst h
          have : key ≠ k := fun e => hk e.symm
          simp [get?_cons, this]
        · simp [get?_cons, h, ih]

/-- What an overlay has under a key is there before or is put in. -/
theorem get?_overlay_cases {outer : Dict α} {inner : List (String × α)} {key : String} {value : α}
    (h : get? (overlay outer inner) key = some value) :
    get? outer key = some value ∨ (key, value) ∈ inner := by
  induction inner generalizing outer with
  | nil => exact .inl h
  | cons entry inner ih =>
      rcases ih h with h | h
      · rw [get?_insert] at h
        split at h
        · rename_i hkey
          obtain rfl := Option.some.inj h
          exact .inr (hkey ▸ List.mem_cons_self)
        · exact .inl h
      · exact .inr (List.mem_cons_of_mem entry h)

/-- A dictionary has nothing but the pairs it is from. -/
theorem mem_of_get?_ofPairs {pairs : List (String × α)} {key : String} {value : α}
    (h : get? (ofPairs pairs) key = some value) : (key, value) ∈ pairs := by
  rcases get?_overlay_cases h with h | h
  · exact absurd h (by simp [get?])
  · exact h

/-- An insertion adds one entry at most. It may take one away, which is why the converse does not
hold. -/
theorem mem_insert {key : String} {value : α} {d : Dict α} {entry : String × α}
    (h : entry ∈ insert key value d) : entry = (key, value) ∨ entry ∈ d := by
  induction d with
  | nil => simp_all [insert]
  | cons e d ih =>
    obtain ⟨k, v⟩ := e
    unfold insert at h
    split at h
    · rcases List.mem_cons.1 h with rfl | h
      · exact .inl rfl
      · exact .inr h
    · split at h
      · rcases List.mem_cons.1 h with rfl | h
        · exact .inl rfl
        · exact .inr (List.mem_cons_of_mem _ h)
      · rcases List.mem_cons.1 h with rfl | h
        · exact .inr List.mem_cons_self
        · rcases ih h with h | h
          · exact .inl h
          · exact .inr (List.mem_cons_of_mem _ h)

/-- An empty dictionary has its keys in order. -/
theorem sorted_nil : Sorted ([] : Dict α) := List.Pairwise.nil

/-- Insertion keeps the order. The entry goes in front of the first greater key, or in place of an
equal one. -/
theorem sorted_insert {d : Dict α} (h : Sorted d) (key : String) (value : α) :
    Sorted (insert key value d) := by
  induction d with
  | nil => simp [insert, Sorted]
  | cons e d ih =>
    obtain ⟨k, v⟩ := e
    have hd : Sorted d := (List.pairwise_cons.1 h).2
    have hk : ∀ x ∈ d, k < x.1 := (List.pairwise_cons.1 h).1
    unfold insert
    split
    · rename_i hlt
      refine List.pairwise_cons.2 ⟨fun x hx => ?_, h⟩
      rcases List.mem_cons.1 hx with rfl | hx
      · exact hlt
      · exact String.lt_trans hlt (hk x hx)
    · split
      · rename_i hlt heq
        subst heq
        exact List.pairwise_cons.2 ⟨hk, hd⟩
      · rename_i hlt hne
        refine List.pairwise_cons.2 ⟨fun x hx => ?_, ih hd⟩
        rcases mem_insert hx with hx | hx
        · rw [hx]
          have hle : k ≤ key := String.not_lt.1 hlt
          rcases Std.le_iff_lt_or_eq.1 hle with h | h
          · exact h
          · exact absurd h hne
        · exact hk x hx

/-- Overlaying a sorted dictionary keeps the order. -/
theorem sorted_overlay {outer : Dict α} (h : Sorted outer) (inner : List (String × α)) :
    Sorted (overlay outer inner) := by
  induction inner generalizing outer with
  | nil => exact h
  | cons entry inner ih => exact ih (sorted_insert h entry.1 entry.2)

/-- A dictionary made of pairs has its keys in order, whatever the order of the pairs is. -/
theorem sorted_ofPairs (pairs : List (String × α)) : Sorted (ofPairs pairs) :=
  sorted_overlay sorted_nil pairs

/-- A key below all the others is not there. -/
theorem get?_eq_none_of_lt {key : String} {d : Dict α} (h : ∀ entry ∈ d, key < entry.1) :
    get? d key = none := by
  induction d with
  | nil => rfl
  | cons entry d ih =>
      obtain ⟨k, v⟩ := entry
      have hne : k ≠ key := by
        rintro rfl
        exact String.lt_irrefl k (h (k, v) List.mem_cons_self)
      rw [get?_cons, if_neg hne]
      exact ih fun entry he => h entry (List.mem_cons_of_mem _ he)

/-- What an overlay has under a key is what is put over it, or else what was there. -/
theorem get?_overlay {inner : Dict α} (h : Sorted inner) (outer : Dict α) (key : String) :
    get? (overlay outer inner) key = (get? inner key).or (get? outer key) := by
  induction inner generalizing outer with
  | nil => rfl
  | cons entry inner ih =>
      obtain ⟨k, v⟩ := entry
      obtain ⟨hfirst, hrest⟩ := List.pairwise_cons.1 h
      change get? (overlay (insert k v outer) inner) key = _
      rw [ih hrest, get?_insert, get?_cons]
      split
      · rename_i hkey
        subst hkey
        simp [get?_eq_none_of_lt hfirst]
      · rfl

/-- A key above all the others is put at the end. -/
theorem insert_of_lt {key : String} {d : Dict α} (h : ∀ entry ∈ d, entry.1 < key) (value : α) :
    insert key value d = d ++ [(key, value)] := by
  induction d with
  | nil => rfl
  | cons entry d ih =>
      obtain ⟨k, v⟩ := entry
      have hk : k < key := h (k, v) List.mem_cons_self
      have hne : k ≠ key := by
        rintro rfl
        exact String.lt_irrefl k hk
      rw [insert, if_neg (String.lt_asymm hk), if_neg hne,
        ih fun entry he => h entry (List.mem_cons_of_mem _ he)]
      rfl

/-- Entries in order above those of a dictionary are put at its end. -/
theorem overlay_of_sorted {outer inner : Dict α} (h : Sorted (outer ++ inner)) :
    overlay outer inner = outer ++ inner := by
  induction inner generalizing outer with
  | nil => exact (List.append_nil outer).symm
  | cons entry inner ih =>
      have hlast : insert entry.1 entry.2 outer = outer ++ [entry] :=
        insert_of_lt (fun e he => (List.pairwise_append.1 h).2.2 e he entry List.mem_cons_self)
          entry.2
      rw [List.append_cons] at h ⊢
      change overlay (insert entry.1 entry.2 outer) inner = _
      rw [hlast, ih h]

/-- A dictionary is the one from its entries. -/
theorem ofPairs_of_sorted {d : Dict α} (h : Sorted d) : ofPairs d = d := overlay_of_sorted h

/-- An overlay has nothing but what was there and the pairs that were put over it. -/
theorem mem_of_mem_overlay {outer : Dict α} {inner : List (String × α)} {entry : String × α}
    (h : entry ∈ overlay outer inner) : entry ∈ outer ∨ entry ∈ inner := by
  induction inner generalizing outer with
  | nil => exact .inl h
  | cons first inner ih =>
      rcases ih h with h | h
      · exact (mem_insert h).elim (fun he => .inr (he ▸ List.mem_cons_self)) .inl
      · exact .inr (List.mem_cons_of_mem first h)

/-- A dictionary made of pairs has no entries but the pairs. -/
theorem mem_of_mem_ofPairs {pairs : List (String × α)} {entry : String × α}
    (h : entry ∈ ofPairs pairs) : entry ∈ pairs :=
  (mem_of_mem_overlay h).resolve_left List.not_mem_nil

/-! ### Different keys -/

/-- What is put in under other keys leaves a key as it is. -/
theorem get?_overlay_of_forall_ne {inner : List (String × α)} {key : String}
    (h : ∀ entry ∈ inner, entry.1 ≠ key) (outer : Dict α) :
    get? (overlay outer inner) key = get? outer key := by
  induction inner generalizing outer with
  | nil => rfl
  | cons entry inner ih =>
      obtain ⟨hentry, hinner⟩ := List.forall_mem_cons.1 h
      change get? (overlay (insert entry.1 entry.2 outer) inner) key = _
      rw [ih hinner, get?_insert, if_neg hentry]

/-- A dictionary of pairs with different keys has each of them. -/
theorem get?_ofPairs_iff {pairs : List (String × α)} (hkeys : (pairs.map Prod.fst).Nodup)
    {key : String} {value : α} :
    get? (ofPairs pairs) key = some value ↔ (key, value) ∈ pairs := by
  refine ⟨mem_of_get?_ofPairs, fun hmem => ?_⟩
  obtain ⟨before, after, rfl⟩ := List.append_of_mem hmem
  rw [List.map_append, List.map_cons] at hkeys
  have hnew : key ∉ after.map Prod.fst := (List.nodup_cons.1 (List.nodup_append.1 hkeys).2.1).1
  have hafter : ∀ entry ∈ after, entry.1 ≠ key := by
    rintro entry he rfl
    exact hnew (List.mem_map_of_mem he)
  have hsplit : ofPairs (before ++ (key, value) :: after) =
      overlay (insert key value (ofPairs before)) after := List.foldl_append
  rw [hsplit, get?_overlay_of_forall_ne hafter, get?_insert, if_pos rfl]

/-- Keys in order are there once each. -/
theorem nodup_keys_of_sorted {d : Dict α} (h : Sorted d) : (d.map Prod.fst).Nodup := by
  refine List.pairwise_map.2 (List.Pairwise.imp (fun hlt he => ?_) h)
  exact String.lt_irrefl _ (he ▸ hlt)

/-- A sorted dictionary has nothing under a key but what is found there. -/
theorem mem_iff_get? {d : Dict α} (h : Sorted d) {key : String} {value : α} :
    (key, value) ∈ d ↔ get? d key = some value := by
  rw [← get?_ofPairs_iff (nodup_keys_of_sorted h), ofPairs_of_sorted h]

/-- So are the entries. -/
theorem nodup_of_sorted {d : Dict α} (h : Sorted d) : d.Nodup := by
  refine List.Pairwise.imp (fun {a b} hlt he => ?_) h
  subst he
  exact String.lt_irrefl _ hlt

/-- The dictionary of some entries does not depend on their order. -/
theorem ofPairs_of_perm {pairs : List (String × α)} {d : Dict α} (hd : Sorted d)
    (h : pairs.Perm d) : ofPairs pairs = d := by
  have hkeys : (pairs.map Prod.fst).Nodup := (h.map Prod.fst).nodup_iff.2 (nodup_keys_of_sorted hd)
  have hpairs : Sorted (ofPairs pairs) := sorted_ofPairs pairs
  have hmem : ∀ entry, entry ∈ ofPairs pairs ↔ entry ∈ d := by
    intro entry
    rw [mem_iff_get? hpairs, get?_ofPairs_iff hkeys, h.mem_iff]
  refine List.Perm.eq_of_pairwise ?_ hpairs hd
    ((List.perm_ext_iff_of_nodup (nodup_of_sorted hpairs) (nodup_of_sorted hd)).2 hmem)
  exact fun a b _ _ hab hba => absurd hab (String.lt_asymm hba)

/-! ### Changed values -/

section Map

variable {β : Type} (f : α → β)

/-- Each value becomes another one under the same key. -/
def mapValues (d : Dict α) : Dict β := d.map fun entry => (entry.1, f entry.2)

/-- Changing the values and putting one in may change places. -/
theorem insert_mapValues (key : String) (value : α) (d : Dict α) :
    insert key (f value) (mapValues f d) = mapValues f (insert key value d) := by
  induction d with
  | nil => rfl
  | cons entry d ih =>
      obtain ⟨k, v⟩ := entry
      have hcons : ∀ d, mapValues f ((k, v) :: d) = (k, f v) :: mapValues f d := fun _ => rfl
      rw [hcons, insert, insert, ih]
      split
      · rfl
      · split
        · rfl
        · rfl

/-- Values can be changed before a dictionary is made of them or after. -/
theorem ofPairs_mapValues (pairs : List (String × α)) :
    ofPairs (mapValues f pairs) = mapValues f (ofPairs pairs) := by
  suffices h : ∀ d, overlay (mapValues f d) (mapValues f pairs) = mapValues f (overlay d pairs) from
    h []
  induction pairs with
  | nil => exact fun _ => rfl
  | cons entry pairs ih =>
      intro d
      change overlay (insert entry.1 (f entry.2) (mapValues f d)) (mapValues f pairs) = _
      rw [insert_mapValues, ih]
      rfl

/-- Changing the values leaves the keys in order. -/
theorem sorted_mapValues {d : Dict α} (h : Sorted d) : Sorted (mapValues f d) :=
  List.pairwise_map.2 h

/-- Two changes of the values that agree on them give the same dictionary. -/
theorem mapValues_congr {f g : α → β} {d : Dict α} (h : ∀ entry ∈ d, f entry.2 = g entry.2) :
    mapValues f d = mapValues g d :=
  List.map_congr_left fun entry he => congrArg (entry.1, ·) (h entry he)

/-- Two changes of the values are one. -/
theorem mapValues_mapValues {γ : Type} (g : β → γ) (d : Dict α) :
    mapValues g (mapValues f d) = mapValues (g ∘ f) d := List.map_map

/-- What holds of all the changed values holds of the entries. -/
theorem forall_mem_mapValues {p : β → Prop} {d : Dict α} (h : ∀ entry ∈ d, p (f entry.2)) :
    ∀ entry ∈ mapValues f d, p entry.2 := by
  intro entry he
  obtain ⟨entry', he', rfl⟩ := List.mem_map.1 he
  exact h entry' he'

end Map

end Dict
end Stencil
