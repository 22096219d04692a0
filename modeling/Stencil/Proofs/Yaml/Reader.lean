import Stencil.Proofs.Yaml.Node

/-!
# Nodes read from their events

A node is read from its events, whatever follows them, and not from a part of them.

## Main results

* `Reader.run_value` — a node is read from its events as what it is evaluated to
* `Reader.run_value_before` — the first events of a node without the last ones are an error
* `Reader.run_value_of_scoped` — a node whose aliases are in scope is read as its value
* `valueOfEvents_of_scoped` — a document is read as the value of its node

## Design notes

The depth of the reader and the number of items that it reads are bounded. The number of events is
enough for both, so that the bounds are got rid of by counting events.
-/

namespace Stencil.Yaml

namespace Reader

section Steps

variable {depth bound : Nat} {events rest : List Event} {violation : Option Violation}
  {anchors : List (Nat × Value)}

/-- After a step that succeeds the reader goes on from the state it leaves. -/
theorem run_bind {α β : Type} {x : Reader α} {f : α → Reader β} {a : α} {s s' : State}
    (h : x.run s = .ok (a, s')) : (x >>= f).run s = (f a).run s' := by
  rw [StateT.run_bind, h]
  rfl

/-- After a step that fails the reader stops with its error. -/
theorem run_bind_error {α β : Type} {x : Reader α} {f : α → Reader β} {e : Error} {s : State}
    (h : x.run s = .error e) : (x >>= f).run s = .error e := by
  rw [StateT.run_bind, h]
  rfl

/-- The next event is taken off the stream. -/
theorem run_next (e : Event) (events : List Event) (violation : Option Violation)
    (anchors : List (Nat × Value)) :
    next.run ⟨e :: events, violation, anchors⟩ = .ok (e, ⟨events, violation, anchors⟩) := rfl

/-- A value that has an anchor is kept under it, in front of what was kept before. -/
theorem run_anchored (anchor : Option Nat) (v : Value) (s : State) :
    (anchored anchor v).run s =
      .ok (v, { s with anchors := anchor.toList.map (·, v) ++ s.anchors }) := by
  cases anchor with
  | none => rfl
  | some n => rfl

/-! What a collection does with the value that its next event begins, or with its end. -/

/-- An item is read, and the others after it. -/
theorem run_items_cons {read : Event → Reader (Option Value)} {e : Event} {v : Value}
    {s : State} (hread : (read e).run ⟨events, violation, anchors⟩ = .ok (some v, s))
    {vs : List Value} {s' : State} (hitems : (items read bound).run s = .ok (vs, s')) :
    (items read (bound + 1)).run ⟨e :: events, violation, anchors⟩ = .ok (v :: vs, s') := by
  rw [items, run_bind (run_next e events violation anchors), run_bind hread]
  exact run_bind hitems

/-- The end of a sequence ends its items. -/
theorem run_items_nil (hdepth : 0 < depth) (hbound : 0 < bound) :
    (items (value depth) bound).run ⟨.sequenceEnd :: rest, violation, anchors⟩ =
      .ok ([], ⟨rest, violation, anchors⟩) := by
  obtain ⟨depth, rfl⟩ := Nat.exists_eq_add_of_lt hdepth
  obtain ⟨bound, rfl⟩ := Nat.exists_eq_add_of_lt hbound
  rfl

/-- A key and its value are read, and the other entries after them. -/
theorem run_pairs_cons {read : Event → Reader (Option Value)} {e e' : Event} {k v : Value}
    {s s' : State} (hkey : (read e).run ⟨events, violation, anchors⟩ =
      .ok (some k, { s with events := e' :: s.events }))
    (hvalue : (read e').run s = .ok (some v, s')) (d : Dict Value) :
    (pairs read (bound + 1) d).run ⟨e :: events, violation, anchors⟩ =
      (pairs read bound (Dict.insert k.display v d)).run s' := by
  rw [pairs, run_bind (run_next e events violation anchors), run_bind hkey]
  change ((next >>= fun e => read e >>= _).run _) = _
  rw [run_bind (run_next ..), run_bind hvalue]

/-- The end of a mapping ends its entries. -/
theorem run_pairs_nil (hdepth : 0 < depth) (hbound : 0 < bound) (d : Dict Value) :
    (pairs (value depth) bound d).run ⟨.mappingEnd :: rest, violation, anchors⟩ =
      .ok (d, ⟨rest, violation, anchors⟩) := by
  obtain ⟨depth, rfl⟩ := Nat.exists_eq_add_of_lt hdepth
  obtain ⟨bound, rfl⟩ := Nat.exists_eq_add_of_lt hbound
  rfl

end Steps

mutual

/-- The events of a node are read as the node is evaluated, and what follows them is left. The depth
needs only to be the number of the events. -/
theorem run_value (violation : Option Violation) (t : Node) (anchors : List (Nat × Value))
    (rest : List Event) {depth : Nat} (hdepth : t.events.length ≤ depth) :
    (value depth t.first).run ⟨t.others ++ rest, violation, anchors⟩ =
      .ok (some (t.eval anchors).1, ⟨rest, violation, (t.eval anchors).2⟩) := by
  obtain ⟨depth, rfl⟩ : ∃ d, depth = d + 1 := Nat.exists_eq_add_one.2 (by
    simp only [Node.events, List.length_cons] at hdepth
    omega)
  cases t with
  | scalar style text anchor => exact run_bind (run_anchored ..)
  | reference anchor => rfl
  | sequence items anchor =>
      simp only [Node.events, Node.others, List.length_cons, List.length_append] at hdepth
      rw [Node.others, List.append_assoc]
      exact (run_bind (run_items violation items anchors rest (by omega) (by omega))).trans
        (run_bind (run_anchored ..))
  | mapping entries anchor =>
      simp only [Node.events, Node.others, List.length_cons, List.length_append] at hdepth
      rw [Node.others, List.append_assoc]
      exact (run_bind (run_pairs violation entries anchors rest [] (by omega) (by omega))).trans
        (run_bind (run_anchored ..))

/-- The same for the items of a sequence, up to its end. Events of later items are what follows the
first one. -/
theorem run_items {depth bound : Nat} (violation : Option Violation) (items : List Node)
    (anchors : List (Nat × Value)) (rest : List Event)
    (hdepth : (Node.itemEvents items).length < depth)
    (hbound : (Node.itemEvents items).length < bound) :
    (Reader.items (value depth) bound).run
        ⟨Node.itemEvents items ++ .sequenceEnd :: rest, violation, anchors⟩ =
      .ok ((Node.evalItems anchors items).1,
        ⟨rest, violation, (Node.evalItems anchors items).2⟩) := by
  cases items with
  | nil => exact run_items_nil hdepth hbound
  | cons t items =>
      obtain ⟨bound, rfl⟩ := Nat.exists_eq_add_of_lt (Nat.zero_lt_of_lt hbound)
      simp only [Node.itemEvents, List.length_cons, List.length_append] at hdepth hbound
      rw [Node.itemEvents, List.cons_append, List.append_assoc]
      refine run_items_cons (run_value violation t anchors _ ?_)
        (run_items violation items _ rest ?_ ?_)
      · rw [Node.events, List.length_cons]
        omega
      · omega
      · omega

/-- The same for the entries of a mapping, which are put into those read before. A key is read as a
node and then made a text. -/
theorem run_pairs {depth bound : Nat} (violation : Option Violation) (entries : List (Node × Node))
    (anchors : List (Nat × Value)) (rest : List Event) (d : Dict Value)
    (hdepth : (Node.entryEvents entries).length < depth)
    (hbound : (Node.entryEvents entries).length < bound) :
    (Reader.pairs (value depth) bound d).run
        ⟨Node.entryEvents entries ++ .mappingEnd :: rest, violation, anchors⟩ =
      .ok (Dict.overlay d (Node.evalEntries anchors entries).1,
        ⟨rest, violation, (Node.evalEntries anchors entries).2⟩) := by
  cases entries with
  | nil => exact run_pairs_nil hdepth hbound d
  | cons entry entries =>
      obtain ⟨k, t⟩ := entry
      obtain ⟨bound, rfl⟩ := Nat.exists_eq_add_of_lt (Nat.zero_lt_of_lt hbound)
      simp only [Node.entryEvents, List.length_cons, List.length_append] at hdepth hbound
      rw [Node.entryEvents, List.cons_append, List.append_assoc, List.cons_append,
        List.append_assoc]
      have hk : k.events.length ≤ depth := by
        rw [Node.events, List.length_cons]
        omega
      have ht : t.events.length ≤ depth := by
        rw [Node.events, List.length_cons]
        omega
      have hkey := run_value violation k anchors
        (t.first :: (t.others ++ (Node.entryEvents entries ++ .mappingEnd :: rest))) hk
      have hvalue := run_value violation t (k.eval anchors).2
        (Node.entryEvents entries ++ .mappingEnd :: rest) ht
      refine (run_pairs_cons hkey hvalue d).trans ?_
      exact run_pairs violation entries _ rest _ (by omega) (by omega)

end

/-! ### The end of the stream -/

/-- The error at the end of the events. -/
def endError : Option Violation → Error
  | none => .unexpectedEnd
  | some violation => .malformed violation

/-- At the end of the stream there is no event, and the error tells whether the text was cut short
or malformed. -/
theorem run_next_nil (violation : Option Violation) (anchors : List (Nat × Value)) :
    next.run ⟨[], violation, anchors⟩ = .error (endError violation) := by
  cases violation with
  | none => rfl
  | some violation => rfl

/-- What is cut off before its end is cut within its first part, or that part is whole. -/
theorem append_eq_append_cases {α : Type} {first second before after : List α}
    (h : first ++ second = before ++ after) :
    (∃ part, part ≠ [] ∧ first = before ++ part) ∨
      ∃ part, before = first ++ part ∧ second = part ++ after := by
  rcases List.append_eq_append_iff.1 h with ⟨part, hbefore, hsecond⟩ | ⟨part, hfirst, hafter⟩
  · exact .inr ⟨part, hbefore, hsecond⟩
  · rcases part with _ | ⟨e, part⟩
    · rw [List.append_nil] at hfirst
      exact .inr ⟨[], by rw [hfirst, List.append_nil], hafter.symm⟩
    · exact .inl ⟨e :: part, List.cons_ne_nil _ _, hfirst⟩

mutual

/-- The first events of a node, but not all of them, give no value but the error of a stream that
ends too early. The induction is on the node, with the place where the events end in any of its
parts. -/
theorem run_value_before (violation : Option Violation) (t : Node) (anchors : List (Nat × Value))
    {before after : List Event} (h : t.others = before ++ after) (hafter : after ≠ []) {depth : Nat}
    (hdepth : before.length < depth) :
    (value depth t.first).run ⟨before, violation, anchors⟩ = .error (endError violation) := by
  obtain ⟨depth, rfl⟩ : ∃ d, depth = d + 1 := Nat.exists_eq_add_one.2 (Nat.zero_lt_of_lt hdepth)
  cases t with
  | scalar style text anchor => exact absurd (List.append_eq_nil_iff.1 h.symm).2 hafter
  | reference anchor => exact absurd (List.append_eq_nil_iff.1 h.symm).2 hafter
  | sequence items anchor =>
      exact run_bind_error (run_items_before violation items anchors h hafter
        (Nat.le_of_lt_succ hdepth) hdepth)
  | mapping entries anchor =>
      exact run_bind_error (run_pairs_before violation entries anchors [] h hafter
        (Nat.le_of_lt_succ hdepth) hdepth)

/-- If the events end within the items of a sequence, reading them is that error. They end within
the first item or after it, and then within the others. -/
theorem run_items_before (violation : Option Violation) (items : List Node)
    (anchors : List (Nat × Value)) {before after : List Event}
    (h : Node.itemEvents items ++ [.sequenceEnd] = before ++ after) (hafter : after ≠ [])
    {depth bound : Nat} (hdepth : before.length ≤ depth) (hbound : before.length < bound) :
    (Reader.items (value depth) bound).run ⟨before, violation, anchors⟩ =
      .error (endError violation) := by
  obtain ⟨bound, rfl⟩ : ∃ b, bound = b + 1 := Nat.exists_eq_add_one.2 (Nat.zero_lt_of_lt hbound)
  rw [Reader.items]
  rcases before with _ | ⟨e, before⟩
  · exact run_bind_error (run_next_nil violation anchors)
  · rw [run_bind (run_next e before violation anchors)]
    rw [List.length_cons] at hdepth hbound
    cases items with
    | nil =>
        obtain ⟨-, hnil⟩ := List.cons.inj h
        exact absurd (List.append_eq_nil_iff.1 hnil.symm).2 hafter
    | cons t items =>
        rw [Node.itemEvents, List.cons_append, List.append_assoc, List.cons_append] at h
        obtain ⟨rfl, hrest⟩ := List.cons.inj h
        rcases append_eq_append_cases hrest with ⟨part, hpart, ht⟩ | ⟨part, rfl, hpart⟩
        · exact run_bind_error (run_value_before violation t anchors ht hpart hdepth)
        · rw [List.length_append] at hdepth hbound
          have ht : t.events.length ≤ depth := by
            rw [t.length_events]
            omega
          rw [run_bind (run_value violation t anchors part ht)]
          exact run_bind_error
            (run_items_before violation items _ hpart hafter (by omega) (by omega))

/-- The same within the entries of a mapping, also between a key and its value. The cases are the
places at which the events can end. -/
theorem run_pairs_before (violation : Option Violation) (entries : List (Node × Node))
    (anchors : List (Nat × Value)) (d : Dict Value) {before after : List Event}
    (h : Node.entryEvents entries ++ [.mappingEnd] = before ++ after) (hafter : after ≠ [])
    {depth bound : Nat} (hdepth : before.length ≤ depth) (hbound : before.length < bound) :
    (Reader.pairs (value depth) bound d).run ⟨before, violation, anchors⟩ =
      .error (endError violation) := by
  obtain ⟨bound, rfl⟩ : ∃ b, bound = b + 1 := Nat.exists_eq_add_one.2 (Nat.zero_lt_of_lt hbound)
  rw [Reader.pairs]
  -- The events end before the next entry, within its key, between key and value, within the value,
  -- or after the entry.
  rcases before with _ | ⟨e, before⟩
  · exact run_bind_error (run_next_nil violation anchors)
  · rw [run_bind (run_next e before violation anchors)]
    rw [List.length_cons] at hdepth hbound
    cases entries with
    | nil =>
        obtain ⟨-, hnil⟩ := List.cons.inj h
        exact absurd (List.append_eq_nil_iff.1 hnil.symm).2 hafter
    | cons entry entries =>
        obtain ⟨k, t⟩ := entry
        rw [Node.entryEvents, List.cons_append, List.append_assoc, List.cons_append,
          List.cons_append, List.append_assoc] at h
        obtain ⟨rfl, hrest⟩ := List.cons.inj h
        rcases append_eq_append_cases hrest with ⟨part, hpart, hk⟩ | ⟨part, rfl, hpart⟩
        · exact run_bind_error (run_value_before violation k anchors hk hpart hdepth)
        · rw [List.length_append] at hdepth hbound
          have hk : k.events.length ≤ depth := by
            rw [k.length_events]
            omega
          rw [run_bind (run_value violation k anchors part hk)]
          rcases part with _ | ⟨e, part⟩
          · exact run_bind_error (run_next_nil violation _)
          · obtain ⟨rfl, hlast⟩ := List.cons.inj hpart
            rw [List.length_cons] at hdepth hbound
            refine (run_bind (run_next _ part violation _)).trans ?_
            rcases append_eq_append_cases hlast with ⟨part', hpart', ht⟩ | ⟨part', rfl, hpart'⟩
            · exact run_bind_error
                (run_value_before violation t _ ht hpart' (by omega))
            · rw [List.length_append] at hdepth hbound
              have ht : t.events.length ≤ depth := by
                rw [t.length_events]
                omega
              refine (run_bind (run_value violation t (k.eval anchors).2 part' ht)).trans ?_
              exact run_pairs_before violation entries _ _ hpart' hafter (by omega) (by omega)

end

/-- A node is read from its events, and whatever follows them is left. Where it has an alias, it has
the value of the node with the anchor, and so has an alias that is read later. The first events of a
node without the last ones are an error. -/
theorem run_value_of_scoped {t : Node} {anchors : List (Nat × Value)}
    (hscoped : Scoped (anchors.map Prod.fst) t.nodes) {depth : Nat}
    (hdepth : t.events.length ≤ depth) (violation : Option Violation) (rest : List Event) :
    ∃ env anchors',
      Agrees env anchors ∧ (∀ u ∈ t.nodes, ∀ n ∈ u.anchor?, env n = u.value env) ∧
      (∀ v, t.Writes env v → t.value env = v) ∧
      (value depth t.first).run ⟨t.others ++ rest, violation, anchors⟩ =
        .ok (some (t.value env), ⟨rest, violation, anchors'⟩) ∧
      (∀ u ∈ t.nodes, ∀ n ∈ u.anchor?, ∀ later violation,
        (value depth (.alias n)).run ⟨later, violation, anchors'⟩ =
          .ok (some (u.value env), ⟨later, violation, anchors'⟩)) ∧
      ∀ before after, t.events = t.first :: (before ++ after) → after ≠ [] →
        (value depth t.first).run ⟨before, none, anchors⟩ = .error .unexpectedEnd := by
  obtain ⟨hgrows, hvalue⟩ := t.eval_spec anchors hscoped
  obtain ⟨env, henv⟩ := exists_agrees (t.eval anchors).2
  refine ⟨env, (t.eval anchors).2, hgrows.agrees henv, ?_, fun v => Node.Writes.value_eq, ?_, ?_,
    ?_⟩
  · exact fun u hu n hn => henv n _ (hgrows.added env henv u hu n hn)
  · rw [← hvalue env henv]
    exact run_value violation t anchors rest hdepth
  · intro u hu n hn later violation
    obtain ⟨depth, rfl⟩ : ∃ d, depth = d + 1 :=
      Nat.exists_eq_add_one.2 (Nat.zero_lt_of_lt (t.length_events ▸ hdepth))
    have hlookup := hgrows.added env henv u hu n hn
    exact run_bind (congrArg (fun v : Option Value => Except.ok (v.getD .nil, _)) hlookup)
  · intro before after h hafter
    obtain ⟨-, hothers⟩ := List.cons.inj h
    refine run_value_before none t anchors hothers hafter ?_
    rw [t.length_events, hothers, List.length_append] at hdepth
    omega

/-- A mapping with the anchor 1 under `base`, which an alias under `other` stands for. -/
theorem run_value_of_scoped_base :
    ∃ anchors', (value 9 (.mappingStart none)).run
        ⟨[.scalar .doubleQuoted "base" none, .mappingStart (some 1), .scalar .doubleQuoted "x" none,
          .scalar .doubleQuoted "1" none, .mappingEnd, .scalar .doubleQuoted "other" none, .alias 1,
          .mappingEnd, .documentEnd], none, []⟩ =
      .ok (some (.map [("base", .map [("x", .str "1")]), ("other", .map [("x", .str "1")])]),
        ⟨[.documentEnd], none, anchors'⟩) := by
  let key (text : String) : Node := .scalar .doubleQuoted text none
  let base : Node := .mapping [(key "x", key "1")] (some 1)
  let t : Node := .mapping [(key "base", base), (key "other", .reference 1)] none
  have hscoped : Scoped (([] : List (Nat × Value)).map Prod.fst) t.nodes := by decide
  have hdepth : t.events.length ≤ 9 := by decide
  obtain ⟨env, anchors', -, hanchored, hwrites, hrun, -, -⟩ :=
    run_value_of_scoped hscoped hdepth none [.documentEnd]
  have hmem : base ∈ t.nodes := by simp [t, key, base, Node.nodes, Node.entryNodes]
  have hbase : env 1 = .map [("x", .str "1")] := hanchored base hmem 1 rfl
  have hkeys : "base" < "other" := by decide
  have hwritten : t.Writes env (.map [("base", .map [("x", .str "1")]), ("other", env 1)]) :=
    .mapping (.cons (.mapping (.cons .scalar .nil) (List.pairwise_singleton ..) (.refl _))
      (.cons .reference .nil)) (List.pairwise_pair.2 hkeys) (.refl _)
  refine ⟨anchors', hrun.trans ?_⟩
  rw [hwrites _ hwritten, hbase]

/-- A document is its node, between the events that begin and end the stream and the document. -/
theorem run_document (t : Node) (bound skips : Nat) (s : State) :
    (document bound (skips + 2)).run
        { s with events := .documentStart :: t.first :: s.events } =
      ((value bound t.first).run s).map fun r => (r.1.getD .nil, r.2) := by
  cases t <;> rfl

end Reader

/-- The value of a document is that of its node, in which aliases have the values of the nodes that
they stand for. -/
theorem valueOfEvents_of_scoped {t : Node} (hscoped : Scoped [] t.nodes) (rest : List Event)
    (violation : Option Violation) :
    ∃ env, (∀ u ∈ t.nodes, ∀ n ∈ u.anchor?, env n = u.value env) ∧
      valueOfEvents ⟨.documentStart :: (t.events ++ rest), violation⟩ = .ok (t.value env) := by
  obtain ⟨hgrows, hvalue⟩ := t.eval_spec [] hscoped
  obtain ⟨env, henv⟩ := exists_agrees (t.eval []).2
  refine ⟨env, fun u hu n hn => henv n _ (hgrows.added env henv u hu n hn), ?_⟩
  have hdepth : t.events.length ≤ (t.others ++ rest).length + 3 := by
    rw [t.length_events, List.length_append]
    omega
  have hrun := Reader.run_document t ((t.others ++ rest).length + 3) ((t.others ++ rest).length + 1)
    ⟨t.others ++ rest, violation, []⟩
  rw [Reader.run_value violation t [] rest hdepth, hvalue env henv] at hrun
  exact congrArg (Except.map Prod.fst) hrun

end Stencil.Yaml
