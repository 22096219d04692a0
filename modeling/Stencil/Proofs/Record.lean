import Mathlib.Data.List.Nodup
import Stencil.Function.Kind
import Stencil.Proofs.Argument
import Stencil.Scope

/-!
# The members of records

## Main definitions

* `Record.NameTaken` — a name that an earlier member has, too
* `Value.ShowsUnder` — what a value shows under a key, wherever its members are looked at

## Main results

* `Record.recordField?_of_mem` — a member is found under the key that it is serialized with
* `Record.showsUnder_of_recordEntries` — a record shows the same by member access and as a mapping,
  but for names that are taken

## Design notes

A member is looked up by its tag first and by its name then, whether or not it has a tag.  So a tag
does not free the name for a later member.
-/

namespace Stencil

namespace Record

/-! ### Look-up -/

section Lookup

variable {α : Type} {fields : List (Field α)} {f : Field α} {key : String}

/-- A member without a tag comes after another one of its name. -/
def NameTaken (fields : List (Field α)) (name : String) : Prop :=
  ∃ before f after, fields = before ++ f :: after ∧ f.tag = none ∧ f.name = name ∧
    ∃ g ∈ before, g.name = name

theorem key_of_tag {tag : String} (h : f.tag = some tag) : f.key = tag := by
  rw [Field.key, h]
  rfl

theorem key_of_name (h : f.tag = none) : f.key = f.name := by
  rw [Field.key, h]
  rfl

theorem eq_of_key_eq {g : Field α} (hkeys : (fields.map Field.key).Nodup) (hf : f ∈ fields)
    (hg : g ∈ fields) (h : f.key = g.key) : f = g :=
  List.inj_on_of_nodup_map hkeys hf hg h

/-- A member is found by its tag. -/
theorem recordField?_of_tag (hkeys : (fields.map Field.key).Nodup) (hf : f ∈ fields)
    (htag : f.tag = some key) : recordField? fields key = some f.value := by
  have hfind : fields.find? (·.tag == some key) = some f := by
    rcases hfound : fields.find? (·.tag == some key) with _ | g
    · exact absurd (beq_iff_eq.2 htag) (List.find?_eq_none.1 hfound f hf)
    · have hg : g.tag = some key := by simpa using List.find?_some hfound
      have hkey : g.key = f.key := (key_of_tag hg).trans (key_of_tag htag).symm
      rw [hfound]
      exact congrArg some (eq_of_key_eq hkeys (List.mem_of_find?_eq_some hfound) hf hkey)
  rw [recordField?, hfind]
  rfl

/-- A member without a tag is looked up by its name, and the first one of this name is found. -/
theorem recordField?_of_name (hkeys : (fields.map Field.key).Nodup) (hf : f ∈ fields)
    (htag : f.tag = none) (hname : f.name = key) :
    recordField? fields key = (fields.find? (·.name == key)).map (·.value) := by
  have hnone : fields.find? (·.tag == some key) = none := by
    refine List.find?_eq_none.2 fun g hg hgtag => ?_
    have hkey : g.key = f.key :=
      (key_of_tag (beq_iff_eq.1 hgtag)).trans (hname.symm.trans (key_of_name htag).symm)
    rw [eq_of_key_eq hkeys hg hf hkey, htag] at hgtag
    exact nomatch hgtag
  rcases hfound : fields.find? (·.name == key) with _ | g
  · exact absurd (beq_iff_eq.2 hname) (List.find?_eq_none.1 hfound f hf)
  · rw [recordField?, hnone, hfound]
    rfl

/-- Whether by its tag or by its name, a member is found under its key unless its name is taken. The
look for tags comes first, and keys are different, so only names can be in the way. -/
theorem recordField?_of_mem (hkeys : (fields.map Field.key).Nodup) (hf : f ∈ fields)
    (hfree : ¬ NameTaken fields f.key) : recordField? fields f.key = some f.value := by
  rcases htag : f.tag with _ | tag
  · have hname : f.name = f.key := (key_of_name htag).symm
    rw [recordField?_of_name hkeys hf htag hname]
    rcases hfound : fields.find? (·.name == f.key) with _ | g
    · exact absurd (beq_iff_eq.2 hname) (List.find?_eq_none.1 hfound f hf)
    · obtain ⟨hg, before, after, rfl, hbefore⟩ := List.find?_eq_some_iff_append.1 hfound
      rcases List.mem_append.1 hf with hmem | hmem
      · exact absurd (hbefore f hmem) (by simp [hname])
      rcases List.mem_cons.1 hmem with rfl | hmem
      · rw [hfound]
        rfl
      · -- The member comes after another one of its name.
        obtain ⟨between, rest, rfl⟩ := List.append_of_mem hmem
        refine absurd ⟨before ++ g :: between, f, rest, ?_, htag, hname, g, ?_, beq_iff_eq.1 hg⟩
          hfree
        · rw [List.append_assoc, List.cons_append]
        · exact List.mem_append_right _ List.mem_cons_self
  · rw [key_of_tag htag]
    exact recordField?_of_tag hkeys hf htag

end Lookup

end Record

/-! ### Views -/

/-- A value shows another one under a key, wherever its members are looked at: as a member and at
the end of a path, in a loop, in its JSON document, and as the mapping that functions are given. -/
structure Value.ShowsUnder (v : Value) (key : String) (shown : Value) : Prop where
  member : v.child? key = some shown
  path : ∀ (scope : Scope) (name : String), scope.lookup? name = some v →
    scope.resolvePath? ⟨name, [.key key]⟩ = some shown
  entry : ∃ entries, v.entries? = some entries ∧ ∀ w, (.str key, w) ∈ entries ↔ w = shown
  json : ∃ members, v.toJson = .object members ∧ ∀ j, (key, j) ∈ members ↔ j = shown.toJson
  mapping : ∃ entries, coerce? .map v = some (.map entries) ∧ Dict.get? entries key = some shown

namespace Record

section Views

variable {fields : List (Field Value)} {key : String} {value : Value}

/-- The mapping of a record has each member under its key. -/
theorem get?_recordEntries_iff (hkeys : (fields.map Field.key).Nodup) :
    Dict.get? (recordEntries fields) key = some value ↔
      ∃ f ∈ fields, f.key = key ∧ f.value = value := by
  have hpairs : ((fields.map fun f => (f.key, f.value)).map Prod.fst).Nodup := by
    rwa [List.map_map]
  rw [recordEntries, Dict.get?_ofPairs_iff hpairs]
  simp

/-- What is found under a key in the mapping and by member access is shown in every view. -/
theorem showsUnder_of_child? (identity : Nat) (typeName : String)
    (hvalue : Dict.get? (recordEntries fields) key = some value)
    (hchild : recordField? fields key = some value) :
    (Value.record identity typeName fields).ShowsUnder key value := by
  have hentry : ∀ w, (key, w) ∈ recordEntries fields ↔ w = value := by
    intro w
    rw [Dict.mem_iff_get? (Value.sorted_recordEntries fields), hvalue]
    exact ⟨fun h => (Option.some.inj h).symm, fun h => congrArg some h.symm⟩
  have hjson : (Value.record identity typeName fields).toJson =
      .object (Dict.mapValues Value.toJson (recordEntries fields)) := by
    rw [Value.toJson_record, Value.toJson, Value.entriesToJson_eq]
  refine ⟨hchild, fun scope name hname => ?_, ⟨_, rfl, fun w => ?_⟩, ⟨_, hjson, fun j => ?_⟩,
    ⟨_, rfl, hvalue⟩⟩
  · rw [Scope.resolvePath?, hname]
    show ((Value.record identity typeName fields).child? key).bind some = some value
    rw [Value.child?, hchild]
    rfl
  · rw [← hentry w, Value.keyedEntries]
    simp
  · constructor
    · intro hj
      obtain ⟨entry, he, hpair⟩ := List.mem_map.1 hj
      obtain ⟨rfl, rfl⟩ := Prod.mk.inj hpair
      rw [(hentry entry.2).1 he]
    · rintro rfl
      exact List.mem_map_of_mem ((hentry value).2 rfl)

/-- A record whose members have different keys shows the same by member access and as a mapping: its
mapping has each member under its key, and every view has the value of the mapping, unless the key
is a name that an earlier member has, too.  Such a name stands for the first member that has it. -/
theorem showsUnder_of_recordEntries (identity : Nat) (typeName : String)
    (hkeys : (fields.map Field.key).Nodup) :
    (∀ key value, Dict.get? (recordEntries fields) key = some value ↔
        ∃ f ∈ fields, f.key = key ∧ f.value = value) ∧
      ∀ key value, Dict.get? (recordEntries fields) key = some value →
        (¬ NameTaken fields key →
          (Value.record identity typeName fields).ShowsUnder key value) ∧
        (NameTaken fields key → (Value.record identity typeName fields).child? key =
          (fields.find? (·.name == key)).map (·.value)) := by
  refine ⟨fun key value => get?_recordEntries_iff hkeys, fun key value hvalue => ⟨?_, ?_⟩⟩
  · intro hfree
    obtain ⟨f, hf, rfl, rfl⟩ := (get?_recordEntries_iff hkeys).1 hvalue
    exact showsUnder_of_child? identity typeName hvalue (recordField?_of_mem hkeys hf hfree)
  · rintro ⟨before, f, after, rfl, htag, hname, -⟩
    have hf : f ∈ before ++ f :: after := List.mem_append_right _ List.mem_cons_self
    exact recordField?_of_name hkeys hf htag hname

/-- Members whose tags are the names of others, or almost. -/
def user : List (Field Value) :=
  [⟨"Name", none, .int 1⟩, ⟨"email", some "name", .int 2⟩, ⟨"EMail", some "email", .int 3⟩]

theorem showsUnder_of_recordEntries_user :
    (user.map Field.key).Nodup ∧ (Value.record 0 "User" user).ShowsUnder "email" (.int 3) := by
  have hkeys : (user.map Field.key).Nodup := by decide
  have hviews := showsUnder_of_recordEntries 0 "User" hkeys
  refine ⟨hkeys, (hviews.2 "email" (.int 3) ?_).1 ?_⟩
  · exact (hviews.1 _ _).2 ⟨⟨"EMail", some "email", .int 3⟩, by simp [user], rfl, rfl⟩
  · rintro ⟨before, f, after, hfields, htag, hname, -⟩
    have hf : f ∈ user := by
      rw [hfields]
      exact List.mem_append_right _ List.mem_cons_self
    simp only [user, List.mem_cons, List.not_mem_nil, or_false] at hf
    rcases hf with rfl | rfl | rfl
    · exact absurd hname (by decide)
    · exact nomatch htag
    · exact nomatch htag

/-- A member with a tag keeps its name from a later one. -/
theorem not_child?_of_recordEntries :
    ¬ ∀ (identity : Nat) (typeName : String) (fields : List (Field Value)) (key : String)
      (value : Value), (fields.map Field.key).Nodup →
      Dict.get? (recordEntries fields) key = some value →
      (Value.record identity typeName fields).child? key = some value := by
  intro hall
  let fields : List (Field Value) := [⟨"a", some "b", .int 1⟩, ⟨"a", none, .int 2⟩]
  have hkeys : (fields.map Field.key).Nodup := by decide
  have hlast : ⟨"a", none, .int 2⟩ ∈ fields := by simp [fields]
  have hsecond := hall 0 "T" fields "a" (.int 2) hkeys
    ((get?_recordEntries_iff hkeys).2 ⟨_, hlast, rfl, rfl⟩)
  have hfirst : (Value.record 0 "T" fields).child? "a" = some (.int 1) :=
    recordField?_of_name hkeys hlast rfl rfl
  rw [hfirst] at hsecond
  have hvalues := Value.int.inj (Option.some.inj hsecond)
  exact absurd hvalues (by decide)

end Views

end Record
end Stencil
