import Stencil.Function.Builtin
import Stencil.Proofs.Json.RoundTrip
import Stencil.Render.Include

/-!
# Values as arguments of includes

What is left of a value that is passed to an include as JSON.

## Main definitions

* `Value.Storable` — values without floats that are not nested too deep
* `Value.plain` — a value in the terms of JSON: small integers are signed, times are texts and
  records are mappings
* `Value.IsCollection` — sequences, mappings and records

## Main results

* `Value.serialized_eq_plain` — the document of a value stands for the value in the terms of JSON
* `Value.plain_plain` — which stays as it is from then on
* `decodeArgument_json` — a collection that is written as JSON and read as an argument is that value

## Design notes

The members of a record are put in order by their keys, and of two with one key the later one
counts.  That values can be put into the terms of JSON before this or after is what makes a record
the same as the mapping of its members.
-/

namespace Stencil
namespace Value

/-- A value without floats, with collections nested to a depth at most. Floats are left out because
a text of theirs need not be read as the same float; the depth is counted because readers of
documents give up below a bound. -/
inductive Storable : Nat → Value → Prop where
  | nil {n : Nat} : Storable n .nil
  | bool {n : Nat} (b : Bool) : Storable n (.bool b)
  | int {n : Nat} (i : Int64) : Storable n (.int i)
  | uint {n : Nat} (u : UInt64) : Storable n (.uint u)
  | str {n : Nat} (s : String) : Storable n (.str s)
  | time {n : Nat} (t : Time) : Storable n (.time t)
  | seq {n : Nat} {items : List Value} : (∀ v ∈ items, Storable n v) → Storable (n + 1) (.seq items)
  | map {n : Nat} {entries : List (String × Value)} : Dict.Sorted entries →
      (∀ entry ∈ entries, Storable n entry.2) → Storable (n + 1) (.map entries)
  | record {n identity : Nat} {typeName : String} {fields : List (Field Value)} :
      (∀ f ∈ fields, Storable n f.value) → Storable (n + 1) (.record identity typeName fields)

/-- Sequences, mappings and records. -/
inductive IsCollection : Value → Prop where
  | seq (items : List Value) : IsCollection (.seq items)
  | map (entries : List (String × Value)) : IsCollection (.map entries)
  | record (identity : Nat) (typeName : String) (fields : List (Field Value)) :
      IsCollection (.record identity typeName fields)

mutual

/-- A value in the terms of JSON: integers are signed if they can be, times are texts and records
are mappings. -/
def plain : Value → Value
  | .uint u => if u.toNat < Nat.pow 2 63 then .int u.toInt64 else .uint u
  | .time t => .str t.write
  | .seq items => .seq (plainItems items)
  | .map entries => .map (plainEntries entries)
  | .record _ _ fields => .map (Dict.ofPairs (plainFields fields))
  | v => v

/-- The items of a sequence in the terms of JSON. -/
def plainItems : List Value → List Value
  | [] => []
  | v :: rest => plain v :: plainItems rest

/-- The entries of a mapping in the terms of JSON. -/
def plainEntries : List (String × Value) → List (String × Value)
  | [] => []
  | (key, v) :: rest => (key, plain v) :: plainEntries rest

/-- The members of a record in the terms of JSON. -/
def plainFields : List (Field Value) → List (String × Value)
  | [] => []
  | f :: rest => (f.key, plain f.value) :: plainFields rest

end

/-! ### Members -/

/-- The items of a sequence are encoded one by one. -/
theorem itemsToJson_eq (items : List Value) : itemsToJson items = items.map toJson := by
  induction items with
  | nil => rfl
  | cons v items ih => exact congrArg (toJson v :: ·) ih

/-- The values of a mapping are encoded under their keys. -/
theorem entriesToJson_eq (entries : List (String × Value)) :
    entriesToJson entries = Dict.mapValues toJson entries := by
  induction entries with
  | nil => rfl
  | cons entry entries ih => exact congrArg ((entry.1, toJson entry.2) :: ·) ih

/-- The members of a record by their keys. -/
def members (fields : List (Field Value)) : List (String × Value) :=
  fields.map fun f => (f.key, f.value)

/-- The fields of a record are encoded under their keys, which may be tags. -/
theorem fieldsToJson_eq (fields : List (Field Value)) :
    fieldsToJson fields = Dict.mapValues toJson (members fields) := by
  induction fields with
  | nil => rfl
  | cons f fields ih => exact congrArg ((f.key, toJson f.value) :: ·) ih

/-- The items of an array are decoded one by one. -/
theorem ofJsonItems_eq (items : List Json) : ofJsonItems items = items.map ofJson := by
  induction items with
  | nil => rfl
  | cons j items ih => exact congrArg (ofJson j :: ·) ih

/-- The members of an object are decoded under their keys. -/
theorem ofJsonMembers_eq (members : List (String × Json)) :
    ofJsonMembers members = Dict.mapValues ofJson members := by
  induction members with
  | nil => rfl
  | cons member members ih => exact congrArg ((member.1, ofJson member.2) :: ·) ih

/-- Each item is put in the terms of JSON. -/
theorem plainItems_eq (items : List Value) : plainItems items = items.map plain := by
  induction items with
  | nil => rfl
  | cons v items ih => exact congrArg (plain v :: ·) ih

/-- Each value of a mapping is put in the terms of JSON. -/
theorem plainEntries_eq (entries : List (String × Value)) :
    plainEntries entries = Dict.mapValues plain entries := by
  induction entries with
  | nil => rfl
  | cons entry entries ih => exact congrArg ((entry.1, plain entry.2) :: ·) ih

/-- Each field of a record is put in the terms of JSON, under its key. -/
theorem plainFields_eq (fields : List (Field Value)) :
    plainFields fields = Dict.mapValues plain (members fields) := by
  induction fields with
  | nil => rfl
  | cons f fields ih => exact congrArg ((f.key, plain f.value) :: ·) ih

/-- A record is in the terms of JSON what the mapping of its members is. -/
theorem plain_record (identity : Nat) (typeName : String) (fields : List (Field Value)) :
    plain (.record identity typeName fields) = plain (.map (recordEntries fields)) := by
  rw [plain, plain, plainFields_eq, plainEntries_eq, Dict.ofPairs_mapValues]
  rfl

/-- A record is encoded as the mapping of its entries is. -/
theorem toJson_record (identity : Nat) (typeName : String) (fields : List (Field Value)) :
    toJson (.record identity typeName fields) = toJson (.map (recordEntries fields)) := by
  rw [toJson, toJson, fieldsToJson_eq, entriesToJson_eq, Dict.ofPairs_mapValues]
  rfl

/-- Each entry of a record is the value of one of its fields. -/
theorem mem_recordEntries {fields : List (Field Value)} {entry : String × Value}
    (h : entry ∈ recordEntries fields) : ∃ f ∈ fields, f.value = entry.2 := by
  obtain ⟨f, hf, rfl⟩ := List.mem_map.1 (Dict.mem_of_mem_ofPairs h)
  exact ⟨f, hf, rfl⟩

/-- What holds of the values of the members of a record holds of those of its mapping. -/
theorem forall_mem_recordEntries {p : Value → Prop} {fields : List (Field Value)}
    (h : ∀ f ∈ fields, p f.value) : ∀ entry ∈ recordEntries fields, p entry.2 := by
  intro entry he
  obtain ⟨f, hf, hvalue⟩ := mem_recordEntries he
  exact hvalue ▸ h f hf

/-- The entries of a record are those of a mapping: each key is there once. -/
theorem sorted_recordEntries (fields : List (Field Value)) : Dict.Sorted (recordEntries fields) :=
  Dict.sorted_ofPairs _

/-! ### Documents -/

variable {n : Nat} {v : Value}

/-- A signed integer that is not negative is below the bound up to which decoded numbers are signed.
-/
theorem toNat_toUInt64_lt {i : Int64} (h : 0 ≤ i) : i.toUInt64.toNat < Nat.pow 2 63 := by
  rw [Int64.toNat_toUInt64_of_le h]
  exact i.toNatClampNeg_lt

/-- A signed integer is decoded from its number, of either sign. -/
theorem ofJson_int (i : Int64) : ofJson (toJson (.int i)) = .int i := by
  rw [toJson]
  split
  · rename_i h
    rw [ofJson, ofNumber, if_pos (toNat_toUInt64_lt h), Int64.toInt64_toUInt64]
  · rfl

/-- The document of a value without floats is exact, and as deep as the value. Times and records
become texts and objects, which are exact like others. -/
theorem Storable.exact (h : v.Storable n) : Json.Exact n v.toJson := by
  have hmap : ∀ {n : Nat} {entries : List (String × Value)}, Dict.Sorted entries →
      (∀ entry ∈ entries, Json.Exact n entry.2.toJson) →
      Json.Exact (n + 1) (toJson (.map entries)) := by
    intro n entries hsorted hentries
    rw [toJson, entriesToJson_eq]
    exact .object (Dict.sorted_mapValues toJson hsorted) (Dict.forall_mem_mapValues toJson hentries)
  induction h with
  | nil => exact .null
  | bool b => exact .bool b
  | int i =>
      rw [toJson]
      split
      · exact .number trivial
      · rename_i h
        exact .number (Int64.lt_iff_toInt_lt.1 (Int64.not_le.1 h))
  | uint u => exact .number trivial
  | str s => exact .string s
  | time t => exact .string t.write
  | seq _ ih =>
      rw [toJson, itemsToJson_eq]
      exact .array (List.forall_mem_map.2 ih)
  | map hsorted _ ih => exact hmap hsorted ih
  | record _ ih =>
      rw [toJson_record]
      exact hmap (sorted_recordEntries _)
        (forall_mem_recordEntries (p := fun v => Json.Exact _ v.toJson) ih)

/-- The document of a value stands for the value in the terms of JSON. Both are made by recursion on
the value; floats are left out, since the document of one need not give it back. -/
theorem serialized_eq_plain (h : v.Storable n) : v.serialized = v.plain := by
  have hmap : ∀ {entries : List (String × Value)},
      (∀ entry ∈ entries, entry.2.serialized = entry.2.plain) →
      serialized (.map entries) = plain (.map entries) := by
    intro entries hentries
    rw [serialized, toJson, ofJson, plain, entriesToJson_eq, ofJsonMembers_eq, plainEntries_eq,
      Dict.mapValues_mapValues]
    exact congrArg Value.map (Dict.mapValues_congr hentries)
  induction h with
  | nil => rfl
  | bool b => rfl
  | int i => exact ofJson_int i
  | uint u => rw [serialized, toJson, ofJson, ofNumber, plain]
  | str s => rfl
  | time t => rfl
  | seq _ ih =>
      rw [serialized, toJson, ofJson, plain, itemsToJson_eq, ofJsonItems_eq, plainItems_eq,
        List.map_map]
      exact congrArg Value.seq (List.map_congr_left ih)
  | map _ _ ih => exact hmap ih
  | record _ ih =>
      rw [serialized, toJson_record, plain_record]
      exact hmap (forall_mem_recordEntries (p := fun v => v.serialized = v.plain) ih)

/-- A value in the terms of JSON stays as it is. So a value that has been through the trip once is
not changed by another one. -/
theorem plain_plain (h : v.Storable n) : v.plain.plain = v.plain := by
  have hmap : ∀ {entries : List (String × Value)},
      (∀ entry ∈ entries, entry.2.plain.plain = entry.2.plain) →
      plain (plain (.map entries)) = plain (.map entries) := by
    intro entries hentries
    rw [plain, plain, plainEntries_eq, plainEntries_eq, Dict.mapValues_mapValues]
    exact congrArg Value.map (Dict.mapValues_congr hentries)
  induction h with
  | nil => rfl
  | bool b => rfl
  | int i => rfl
  | uint u =>
      rw [plain]
      split
      · rfl
      · rename_i hu
        rw [plain, if_neg hu]
  | str s => rfl
  | time t => rfl
  | seq _ ih =>
      rw [plain, plain, plainItems_eq, plainItems_eq, List.map_map]
      exact congrArg Value.seq (List.map_congr_left ih)
  | map _ _ ih => exact hmap ih
  | record _ ih =>
      rw [plain_record]
      exact hmap (forall_mem_recordEntries (p := fun v => v.plain.plain = v.plain) ih)

/-- A value in the terms of JSON can be stored if the value could be. The change makes no value
deeper and brings no floats in. -/
theorem Storable.plain (h : v.Storable n) : v.plain.Storable n := by
  have hmap : ∀ {n : Nat} {entries : List (String × Value)}, Dict.Sorted entries →
      (∀ entry ∈ entries, entry.2.plain.Storable n) →
      (Value.plain (.map entries)).Storable (n + 1) := by
    intro n entries hsorted hentries
    rw [Value.plain, plainEntries_eq]
    exact .map (Dict.sorted_mapValues Value.plain hsorted)
      (Dict.forall_mem_mapValues Value.plain hentries)
  induction h with
  | nil => exact .nil
  | bool b => exact .bool b
  | int i => exact .int i
  | uint u =>
      rw [Value.plain]
      split
      · exact .int _
      · exact .uint u
  | str s => exact .str s
  | time t => exact .str t.write
  | seq _ ih =>
      rw [Value.plain, plainItems_eq]
      exact .seq (List.forall_mem_map.2 ih)
  | map hsorted _ ih => exact hmap hsorted ih
  | record _ ih =>
      rw [plain_record]
      exact hmap (sorted_recordEntries _)
        (forall_mem_recordEntries (p := fun v => v.plain.Storable _) ih)

/-- A collection in the terms of JSON is a collection. -/
theorem IsCollection.plain (h : v.IsCollection) : v.plain.IsCollection := by
  cases h with
  | seq items => exact .seq _
  | map entries => exact .map _
  | record identity typeName fields => exact .map _

end Value

/-! ### Arguments -/

open Json Markup

variable {v : Value}

/-- The text of a collection begins as that of an array or an object, by which it is told to be one.
-/
theorem hasPrefix_laid (L : Json.Layout) (h : v.IsCollection) :
    (hasPrefix "\x7b" (String.ofList (laid L 0 v.toJson)) ||
      hasPrefix "[" (String.ofList (laid L 0 v.toJson))) = true := by
  have hfirst : ∀ {c : Char} {cs text : List Char}, text = c :: cs → c ∈ ['\x7b', '['] →
      (hasPrefix "\x7b" (String.ofList text) || hasPrefix "[" (String.ofList text)) = true := by
    intro c cs text htext hc
    have hlist : (String.ofList text).toList = c :: cs := String.toList_ofList.trans htext
    rw [hasPrefix, hasPrefix, hlist]
    simp only [List.mem_cons, List.not_mem_nil, or_false] at hc
    rcases hc with rfl | rfl
    · rfl
    · rfl
  cases h with
  | seq items =>
      rcases items with _ | ⟨v, items⟩
      · exact hfirst rfl (by decide)
      · exact hfirst rfl (by decide)
  | map entries =>
      rcases entries with _ | ⟨entry, entries⟩
      · exact hfirst rfl (by decide)
      · exact hfirst rfl (by decide)
  | record identity typeName fields =>
      rw [Value.toJson]
      rcases Dict.ofPairs (Value.fieldsToJson fields) with _ | ⟨member, members⟩
      · exact hfirst rfl (by decide)
      · exact hfirst rfl (by decide)

/-- The text of a collection in any layout is the collection in the terms of JSON. -/
theorem decodeArgument_laid (L : Json.Layout) (h : v.Storable nestingLimit) (hv : v.IsCollection) :
    decodeArgument (.str (String.ofList (laid L 0 v.toJson))) = v.plain := by
  rw [decodeArgument, if_pos (hasPrefix_laid L hv), read?_laid L h.exact]
  exact Value.serialized_eq_plain h

/-- A collection that is passed on as text, in either layout, is decoded to itself in the terms of
JSON. -/
theorem decodeArgument_written {encode : Value → String}
    (hencode : encode ∈ [Value.prettyJson, Value.compactJson]) (h : v.Storable nestingLimit)
    (hv : v.IsCollection) : decodeArgument (.str (encode v)) = v.plain := by
  simp only [List.mem_cons, List.not_mem_nil, or_false] at hencode
  rcases hencode with rfl | rfl
  · rw [Value.prettyJson, pretty, ← laid_indented 0]
    exact decodeArgument_laid .indented h hv
  · rw [Value.compactJson, compact, ← laid_compact 0]
    exact decodeArgument_laid .compact h hv

/-- The function `json` writes a collection in the indented layout. -/
theorem call_json (hv : v.IsCollection) :
    Builtin.table.call "json" [v] = .ok (.str v.prettyJson) := by
  have hfind : Builtin.table.find? "json" =
      some (Builtin.fixed [.any] fun args => .ok (.str (Builtin.first args).prettyJson)) := by
    rfl
  rw [FunctionTable.call, hfind]
  cases hv with
  | seq items => rfl
  | map entries => rfl
  | record identity typeName fields => rfl

/-- Collections without floats survive the trip through the filter for JSON into an include: what
arrives is the value in the terms of JSON, from the indented text and from the compact one.  It is
what serializing the value gives, and another trip leaves it as it is. -/
theorem decodeArgument_json (h : v.Storable nestingLimit) (hv : v.IsCollection) :
    Builtin.table.call "json" [v] = .ok (.str v.prettyJson) ∧ v.serialized = v.plain ∧
      ∀ encode ∈ [Value.prettyJson, Value.compactJson],
        decodeArgument (.str (encode v)) = v.plain ∧
          ∀ again ∈ [Value.prettyJson, Value.compactJson],
            decodeArgument (.str (again (decodeArgument (.str (encode v))))) =
              decodeArgument (.str (encode v)) := by
  refine ⟨call_json hv, Value.serialized_eq_plain h, fun encode hencode => ?_⟩
  have honce := decodeArgument_written hencode h hv
  refine ⟨honce, fun again hagain => ?_⟩
  rw [honce, decodeArgument_written hagain h.plain hv.plain, Value.plain_plain h]

/-- A record with a tagged time, a small unsigned integer and nested items with escapes. -/
theorem decodeArgument_json_record :
    (Value.record 7 "Row" [⟨"id", none, .uint 5⟩, ⟨"at", some "when", .time ⟨0, 0, 0⟩⟩,
        ⟨"tags", none, .seq [.map [], .str "a\"\n\x01", .int (-3)]⟩]).Storable nestingLimit ∧
      (Value.record 7 "Row" [⟨"id", none, .uint 5⟩, ⟨"at", some "when", .time ⟨0, 0, 0⟩⟩,
        ⟨"tags", none, .seq [.map [], .str "a\"\n\x01", .int (-3)]⟩]).IsCollection ∧
      decodeArgument (.str (Value.record 7 "Row" [⟨"id", none, .uint 5⟩,
        ⟨"at", some "when", .time ⟨0, 0, 0⟩⟩,
        ⟨"tags", none, .seq [.map [], .str "a\"\n\x01", .int (-3)]⟩]).prettyJson) =
        .map [("id", .int 5), ("tags", .seq [.map [], .str "a\"\n\x01", .int (-3)]),
          ("when", .str "1970-01-01T00:00:00Z")] := by
  generalize hv : Value.record 7 "Row" [⟨"id", none, .uint 5⟩, ⟨"at", some "when", .time ⟨0, 0, 0⟩⟩,
    ⟨"tags", none, .seq [.map [], .str "a\"\n\x01", .int (-3)]⟩] = v
  have hstorable : v.Storable 127 := by
    rw [← hv]
    refine .record ?_
    simp only [List.forall_mem_cons, List.not_mem_nil, false_implies, implies_true, and_true]
    refine ⟨.uint 5, .time _, .seq ?_⟩
    simp only [List.forall_mem_cons, List.not_mem_nil, false_implies, implies_true, and_true]
    exact ⟨.map Dict.sorted_nil (List.forall_mem_nil _), .str _, .int _⟩
  have hcollection : v.IsCollection := hv ▸ .record _ _ _
  have hplain : v.plain = .map [("id", .int 5), ("tags", .seq [.map [], .str "a\"\n\x01",
      .int (-3)]), ("when", .str "1970-01-01T00:00:00Z")] := by
    have huint : Value.plain (.uint 5) = .int 5 := by
      rw [Value.plain]
      exact if_pos (by decide)
    have htime : Time.write ⟨0, 0, 0⟩ = "1970-01-01T00:00:00Z" := by cbv
    rw [← hv]
    show Value.map (Dict.ofPairs [("id", Value.plain (.uint 5)),
      ("when", .str (Time.write ⟨0, 0, 0⟩)),
      ("tags", .seq [.map [], .str "a\"\n\x01", .int (-3)])]) = _
    rw [huint, htime]
    rfl
  refine ⟨hstorable, hcollection, ?_⟩
  have htrip := (decodeArgument_json hstorable hcollection).2.2 _ List.mem_cons_self
  exact htrip.1.trans hplain

end Stencil
