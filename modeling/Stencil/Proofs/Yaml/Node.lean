import Stencil.Yaml.Reader

/-!
# Nodes of documents

What the events of a document stand for: scalars, sequences, mappings, and aliases for nodes that
have an anchor.

## Main definitions

* `Node` — a node of a document
* `Node.events` — the events of a node
* `Node.value` — the value of a node, given those of anchors
* `Node.Writes` — a node is written for a value of strings, sequences and mappings
* `Scoped` — aliases come after the nodes that they stand for
* `Node.eval` — the value of a node, node by node in the order of the document

## Main results

* `Node.Writes.value_eq` — a node has the value that it is written for
* `Node.eval_spec` — each alias has the value of the node that it stands for

## Design notes

A node is complete when all that is in it is. So an alias in a collection can stand for what is
complete before it, but not for the collection itself.
-/

namespace Stencil.Yaml

/-! ### Nodes -/

/-- A node of a document. The keys of a mapping are nodes, too. Anchors are part of the node that
they name, and an alias is a node by itself. -/
inductive Node where
  | scalar (style : ScalarStyle) (text : String) (anchor : Option Nat)
  | reference (anchor : Nat)
  | sequence (items : List Node) (anchor : Option Nat)
  | mapping (entries : List (Node × Node)) (anchor : Option Nat)

namespace Node

/-- The anchor that is set at a node. -/
def anchor? : Node → Option Nat
  | .scalar _ _ anchor | .sequence _ anchor | .mapping _ anchor => anchor
  | .reference _ => none

/-- The anchor whose node an alias stands for. -/
def reference? : Node → Option Nat
  | .reference anchor => some anchor
  | _ => none

/-- The event that a node begins with. -/
def first : Node → Event
  | .scalar style text anchor => .scalar style text anchor
  | .reference anchor => .alias anchor
  | .sequence _ anchor => .sequenceStart anchor
  | .mapping _ anchor => .mappingStart anchor

mutual

/-- The events of a node after the first one. -/
def others : Node → List Event
  | .scalar .. | .reference _ => []
  | .sequence items _ => itemEvents items ++ [.sequenceEnd]
  | .mapping entries _ => entryEvents entries ++ [.mappingEnd]

/-- The events of the items of a sequence. -/
def itemEvents : List Node → List Event
  | [] => []
  | t :: items => t.first :: (t.others ++ itemEvents items)

/-- The events of the entries of a mapping. -/
def entryEvents : List (Node × Node) → List Event
  | [] => []
  | (k, t) :: entries =>
    k.first :: (k.others ++ t.first :: (t.others ++ entryEvents entries))

end

/-- The events of a node. -/
def events (t : Node) : List Event := t.first :: t.others

/-- A node begins with one event. -/
theorem length_events (t : Node) : t.events.length = t.others.length + 1 := rfl

mutual

/-- The value of a node, where an alias has the value that `env` gives its anchor. -/
def value (env : Nat → Value) : Node → Value
  | .scalar style text _ => valueOfScalar style text
  | .reference anchor => env anchor
  | .sequence items _ => .seq (itemValues env items)
  | .mapping entries _ => .map (Dict.ofPairs (entryValues env entries))

/-- The values of the items of a sequence. -/
def itemValues (env : Nat → Value) : List Node → List Value
  | [] => []
  | t :: items => t.value env :: itemValues env items

/-- The entries of a mapping, under the texts of their keys. -/
def entryValues (env : Nat → Value) : List (Node × Node) → List (String × Value)
  | [] => []
  | (k, t) :: entries => ((k.value env).display, t.value env) :: entryValues env entries

end

mutual

/-- A node is written for a value of strings, sequences and mappings: scalars are in double quotes,
and the entries of a mapping stand in any order. -/
inductive Writes (env : Nat → Value) : Node → Value → Prop
  | scalar {text : String} {anchor : Option Nat} :
      Writes env (.scalar .doubleQuoted text anchor) (.str text)
  | reference {anchor : Nat} : Writes env (.reference anchor) (env anchor)
  | sequence {items : List Node} {anchor : Option Nat} {vs : List Value}
      (hitems : WritesItems env items vs) : Writes env (.sequence items anchor) (.seq vs)
  | mapping {entries : List (Node × Node)} {anchor : Option Nat} {pairs : List (String × Value)}
      {d : Dict Value} (hentries : WritesEntries env entries pairs) (hd : Dict.Sorted d)
      (hpairs : pairs.Perm d) : Writes env (.mapping entries anchor) (.map d)

/-- The items of a sequence are written for values. -/
inductive WritesItems (env : Nat → Value) : List Node → List Value → Prop
  | nil : WritesItems env [] []
  | cons {t : Node} {v : Value} {items : List Node} {vs : List Value} (ht : Writes env t v)
      (hitems : WritesItems env items vs) : WritesItems env (t :: items) (v :: vs)

/-- The entries of a mapping are written for values under keys. -/
inductive WritesEntries (env : Nat → Value) : List (Node × Node) → List (String × Value) → Prop
  | nil : WritesEntries env [] []
  | cons {key : String} {anchor : Option Nat} {t : Node} {v : Value} {entries : List (Node × Node)}
      {pairs : List (String × Value)} (ht : Writes env t v)
      (hentries : WritesEntries env entries pairs) :
      WritesEntries env ((.scalar .doubleQuoted key anchor, t) :: entries) ((key, v) :: pairs)

end

mutual

/-- A node that is written for a value has the value. The entries may stand in any order, since a
mapping puts its keys in order. -/
theorem Writes.value_eq {env : Nat → Value} {t : Node} {v : Value} (h : Writes env t v) :
    t.value env = v := by
  cases h with
  | scalar => rfl
  | reference => rfl
  | sequence hitems => rw [value, hitems.values_eq]
  | mapping hentries hd hpairs => rw [value, hentries.values_eq, Dict.ofPairs_of_perm hd hpairs]

/-- The same for the items of a sequence. -/
theorem WritesItems.values_eq {env : Nat → Value} {items : List Node} {vs : List Value}
    (h : WritesItems env items vs) : itemValues env items = vs := by
  cases h with
  | nil => rfl
  | cons ht hitems => rw [itemValues, ht.value_eq, hitems.values_eq]

/-- The same for the entries of a mapping, whose keys are strings. -/
theorem WritesEntries.values_eq {env : Nat → Value} {entries : List (Node × Node)}
    {pairs : List (String × Value)} (h : WritesEntries env entries pairs) :
    entryValues env entries = pairs := by
  cases h with
  | nil => rfl
  | cons ht hentries =>
      rw [entryValues, ht.value_eq, hentries.values_eq]
      rfl

end

mutual

/-- A node and the nodes in it, in the order in which they are complete. -/
def nodes : Node → List Node
  | .scalar style text anchor => [.scalar style text anchor]
  | .reference anchor => [.reference anchor]
  | .sequence items anchor => itemNodes items ++ [.sequence items anchor]
  | .mapping entries anchor => entryNodes entries ++ [.mapping entries anchor]

/-- The nodes in the items of a sequence. -/
def itemNodes : List Node → List Node
  | [] => []
  | t :: items => t.nodes ++ itemNodes items

/-- The nodes in the keys and the values of a mapping. -/
def entryNodes : List (Node × Node) → List Node
  | [] => []
  | (k, t) :: entries => k.nodes ++ (t.nodes ++ entryNodes entries)

end

end Node

/-- Each alias is for an anchor that is known, and no anchor is set twice. A node makes its anchor
known to those that are complete later. -/
def Scoped (known : List Nat) : List Node → Prop
  | [] => True
  | t :: rest =>
    (∀ anchor ∈ t.reference?, anchor ∈ known) ∧ (∀ anchor ∈ t.anchor?, anchor ∉ known) ∧
      Scoped (t.anchor?.toList ++ known) rest

instance decidableScoped : (known : List Nat) → (ts : List Node) → Decidable (Scoped known ts)
  | _, [] => .isTrue trivial
  | known, t :: rest =>
    have := decidableScoped (t.anchor?.toList ++ known) rest
    inferInstanceAs (Decidable (_ ∧ _ ∧ _))

namespace Node

mutual

/-- What a node is read as when the anchors have these values, and the values they have then. An
anchor has its value after its node, so an alias inside the node does not see it. -/
def eval (anchors : List (Nat × Value)) : Node → Value × List (Nat × Value)
  | .scalar style text anchor =>
    let v := valueOfScalar style text
    (v, anchor.toList.map (·, v) ++ anchors)
  | .reference anchor => ((anchors.lookup anchor).getD .nil, anchors)
  | .sequence items anchor =>
    let (vs, anchors) := evalItems anchors items
    (.seq vs, anchor.toList.map (·, .seq vs) ++ anchors)
  | .mapping entries anchor =>
    let (pairs, anchors) := evalEntries anchors entries
    let v := .map (Dict.ofPairs pairs)
    (v, anchor.toList.map (·, v) ++ anchors)

/-- What the items of a sequence are read as. -/
def evalItems (anchors : List (Nat × Value)) : List Node → List Value × List (Nat × Value)
  | [] => ([], anchors)
  | t :: items =>
    let (v, anchors) := t.eval anchors
    let (vs, anchors) := evalItems anchors items
    (v :: vs, anchors)

/-- What the entries of a mapping are read as. -/
def evalEntries (anchors : List (Nat × Value)) :
    List (Node × Node) → List (String × Value) × List (Nat × Value)
  | [] => ([], anchors)
  | (k, t) :: entries =>
    let (key, anchors) := k.eval anchors
    let (v, anchors) := t.eval anchors
    let (pairs, anchors) := evalEntries anchors entries
    ((key.display, v) :: pairs, anchors)

end

end Node

/-! ### Anchors -/

/-- The anchors that some nodes set, the last one first. -/
def anchorsOf (ts : List Node) : List Nat := (ts.filterMap Node.anchor?).reverse

/-- The anchors of later nodes come first. -/
theorem anchorsOf_append (ts us : List Node) :
    anchorsOf (ts ++ us) = anchorsOf us ++ anchorsOf ts := by
  rw [anchorsOf, List.filterMap_append, List.reverse_append]
  rfl

/-- A node by itself sets one anchor or none. -/
theorem anchorsOf_singleton (t : Node) : anchorsOf [t] = t.anchor?.toList := by
  unfold anchorsOf
  rcases h : t.anchor? with _ | anchor
  · simp [h]
  · simp [h]

/-- The anchors of earlier nodes are known to later ones. -/
theorem scoped_append {known : List Nat} {ts us : List Node} :
    Scoped known (ts ++ us) ↔ Scoped known ts ∧ Scoped (anchorsOf ts ++ known) us := by
  induction ts generalizing known with
  | nil => simp [Scoped, anchorsOf]
  | cons t ts ih =>
      rw [List.cons_append, Scoped, ih, Scoped, ← List.append_assoc, ← anchorsOf_singleton,
        ← anchorsOf_append, List.singleton_append, and_assoc, and_assoc]

/-- The anchors that have a value have it in `env`. -/
def Agrees (env : Nat → Value) (anchors : List (Nat × Value)) : Prop :=
  ∀ n v, anchors.lookup n = some v → env n = v

/-- For anchors with values there is a way to look them up. -/
theorem exists_agrees (anchors : List (Nat × Value)) : ∃ env, Agrees env anchors :=
  ⟨fun n => (anchors.lookup n).getD .nil, fun _ _ h => congrArg (Option.getD · .nil) h⟩

/-- What reading some nodes does to the values of anchors: theirs are added, the others stay. -/
structure Grows (ts : List Node) (before after : List (Nat × Value)) : Prop where
  keys : after.map Prod.fst = anchorsOf ts ++ before.map Prod.fst
  kept : ∀ n v, before.lookup n = some v → after.lookup n = some v
  added : ∀ env, Agrees env after → ∀ t ∈ ts, ∀ n ∈ t.anchor?, after.lookup n = some (t.value env)

/-- An anchor that is known has a value. -/
theorem exists_lookup_of_mem_keys {anchors : List (Nat × Value)} {n : Nat}
    (h : n ∈ anchors.map Prod.fst) : ∃ v, anchors.lookup n = some v := by
  rw [← Option.isSome_iff_exists, List.lookup_isSome_iff]
  obtain ⟨entry, hentry, rfl⟩ := List.mem_map.1 h
  exact ⟨entry, hentry, beq_self_eq_true _⟩

/-- An anchor that has a value is known. -/
theorem mem_keys_of_lookup {anchors : List (Nat × Value)} {n : Nat} {v : Value}
    (h : anchors.lookup n = some v) : n ∈ anchors.map Prod.fst := by
  obtain ⟨entry, hentry, hn⟩ := List.lookup_isSome_iff.1 (Option.isSome_of_mem h)
  exact List.mem_map.2 ⟨entry, hentry, (beq_iff_eq.1 hn).symm⟩

namespace Grows

variable {ts us : List Node} {first second third : List (Nat × Value)} {env : Nat → Value}

/-- What agrees with the anchors after some nodes agrees with those before, for these stay. -/
theorem agrees (h : Grows ts first second) (henv : Agrees env second) : Agrees env first :=
  fun n v hlookup => henv n v (h.kept n v hlookup)

/-- Reading no nodes leaves the anchors as they are. -/
theorem refl (first : List (Nat × Value)) : Grows [] first first where
  keys := rfl
  kept _ _ h := h
  added _ _ _ ht := nomatch ht

/-- Reading nodes one after the other adds the anchors of both. -/
theorem append (h : Grows ts first second) (h' : Grows us second third) :
    Grows (ts ++ us) first third where
  keys := by rw [h'.keys, h.keys, anchorsOf_append, List.append_assoc]
  kept n v hlookup := h'.kept n v (h.kept n v hlookup)
  added env henv t ht n hn := by
    rcases List.mem_append.1 ht with ht | ht
    · exact h'.kept n _ (h.added env (h'.agrees henv) t ht n hn)
    · exact h'.added env henv t ht n hn

/-- A node that is complete records its value. Its anchor is new, so the values recorded before are
still found. -/
theorem record {t : Node} {v : Value} (hnew : ∀ n ∈ t.anchor?, n ∉ first.map Prod.fst)
    (hv : ∀ env, Agrees env first → v = t.value env) :
    Grows [t] first (t.anchor?.toList.map (·, v) ++ first) := by
  have hkept : ∀ n w, first.lookup n = some w →
      (t.anchor?.toList.map (·, v) ++ first).lookup n = some w := by
    intro n w hlookup
    rcases hanchor : t.anchor? with _ | anchor
    · exact hlookup
    · have hne : n ≠ anchor := by
        rintro rfl
        exact hnew n hanchor (mem_keys_of_lookup hlookup)
      simpa [List.lookup_cons, beq_eq_false_iff_ne.2 hne] using hlookup
  refine ⟨?_, hkept, ?_⟩
  · rw [anchorsOf_singleton, List.map_append, List.map_map]
    exact congrArg (· ++ _) (List.map_id _)
  · intro env henv u hu n hn
    rw [List.mem_singleton.1 hu] at hn ⊢
    have hvalue : v = t.value env := hv env fun m w hlookup => henv m w (hkept m w hlookup)
    rw [Option.mem_def.1 hn, ← hvalue]
    simp

end Grows

mutual

/-- A node has the value that its parts and its aliases give it. The induction is on the node; the
anchors set in it are known afterwards, and those known before keep their values. -/
theorem Node.eval_spec (t : Node) (anchors : List (Nat × Value))
    (h : Scoped (anchors.map Prod.fst) t.nodes) :
    Grows t.nodes anchors (t.eval anchors).2 ∧
      ∀ env, Agrees env (t.eval anchors).2 → (t.eval anchors).1 = t.value env := by
  cases t with
  | scalar style text anchor =>
      obtain ⟨-, hnew, -⟩ := h
      exact ⟨.record hnew fun _ _ => rfl, fun _ _ => rfl⟩
  -- An alias has the value that its anchor was given, and adds no anchor.
  | reference anchor =>
      obtain ⟨v, hv⟩ := exists_lookup_of_mem_keys (h.1 anchor rfl)
      refine ⟨⟨rfl, fun _ _ => id, ?_⟩, fun env henv => ?_⟩
      · intro env _ t ht n hn
        rw [List.mem_singleton.1 ht] at hn
        exact nomatch hn
      · rw [Node.eval, hv]
        exact (henv anchor v hv).symm
  -- The items are read first; the anchor of the sequence is known after them only.
  | sequence items anchor =>
      obtain ⟨hitems, -, hnew, -⟩ := scoped_append.1 h
      obtain ⟨hgrows, hvalues⟩ := Node.evalItems_spec items anchors hitems
      have hrecord : Grows [.sequence items anchor] (Node.evalItems anchors items).2 _ :=
        .record (by rwa [hgrows.keys]) fun env henv => congrArg Value.seq (hvalues env henv)
      exact ⟨hgrows.append hrecord, fun env henv =>
        congrArg Value.seq (hvalues env (hrecord.agrees henv))⟩
  | mapping entries anchor =>
      obtain ⟨hentries, -, hnew, -⟩ := scoped_append.1 h
      obtain ⟨hgrows, hvalues⟩ := Node.evalEntries_spec entries anchors hentries
      have hrecord : Grows [.mapping entries anchor] (Node.evalEntries anchors entries).2 _ :=
        .record (by rwa [hgrows.keys]) fun env henv =>
          congrArg (fun pairs => Value.map (Dict.ofPairs pairs)) (hvalues env henv)
      exact ⟨hgrows.append hrecord, fun env henv =>
        congrArg (fun pairs => Value.map (Dict.ofPairs pairs)) (hvalues env (hrecord.agrees henv))⟩

/-- The same for the items of a sequence, each of which may refer to those before it. -/
theorem Node.evalItems_spec (items : List Node) (anchors : List (Nat × Value))
    (h : Scoped (anchors.map Prod.fst) (Node.itemNodes items)) :
    Grows (Node.itemNodes items) anchors (Node.evalItems anchors items).2 ∧
      ∀ env, Agrees env (Node.evalItems anchors items).2 →
        (Node.evalItems anchors items).1 = Node.itemValues env items := by
  cases items with
  | nil => exact ⟨.refl anchors, fun _ _ => rfl⟩
  | cons t items =>
      obtain ⟨ht, hitems⟩ := scoped_append.1 h
      obtain ⟨hgrows, hvalue⟩ := Node.eval_spec t anchors ht
      rw [← hgrows.keys] at hitems
      obtain ⟨hgrows', hvalues⟩ := Node.evalItems_spec items _ hitems
      refine ⟨hgrows.append hgrows', fun env henv => ?_⟩
      rw [Node.itemValues, ← hvalue env (hgrows'.agrees henv), ← hvalues env henv]
      rfl

/-- The same for the entries of a mapping; a value may refer to its own key, as keys come first. -/
theorem Node.evalEntries_spec (entries : List (Node × Node)) (anchors : List (Nat × Value))
    (h : Scoped (anchors.map Prod.fst) (Node.entryNodes entries)) :
    Grows (Node.entryNodes entries) anchors (Node.evalEntries anchors entries).2 ∧
      ∀ env, Agrees env (Node.evalEntries anchors entries).2 →
        (Node.evalEntries anchors entries).1 = Node.entryValues env entries := by
  cases entries with
  | nil => exact ⟨.refl anchors, fun _ _ => rfl⟩
  | cons entry entries =>
      obtain ⟨k, t⟩ := entry
      obtain ⟨hk, hrest⟩ := scoped_append.1 h
      obtain ⟨hgrows, hkey⟩ := Node.eval_spec k anchors hk
      rw [← hgrows.keys] at hrest
      obtain ⟨ht, hentries⟩ := scoped_append.1 hrest
      obtain ⟨hgrows', hvalue⟩ := Node.eval_spec t _ ht
      rw [← hgrows'.keys] at hentries
      obtain ⟨hgrows'', hvalues⟩ := Node.evalEntries_spec entries _ hentries
      refine ⟨hgrows.append (hgrows'.append hgrows''), fun env henv => ?_⟩
      have henv' := hgrows''.agrees henv
      rw [Node.entryValues, ← hkey env (hgrows'.agrees henv'), ← hvalue env henv',
        ← hvalues env henv]
      rfl

end

end Stencil.Yaml
