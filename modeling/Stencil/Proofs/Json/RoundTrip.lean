import Mathlib.Data.List.Forall2
import Stencil.Proofs.Json.Leaf

/-!
# JSON documents read back

A document is read from its compact and from its indented text.

## Main definitions

* `Json.Layout`, `Json.laid` — the text of a document with spaces around its members
* `Json.Exact` — documents that have no floats and are not nested too deep
* `Json.Reads` — a reader takes a text off the start of any that goes on with something else

## Main results

* `Json.reads_laid` — a document is read from its text in any layout
* `Json.read?_compact`, `Json.read?_pretty` — a document is read from its compact text and from its
  indented one

## Design notes

Both texts are layouts, so that reading is proved once.  That a document is nested no deeper than a
number is the index of `Exact`, on which the reader recurs, too.
-/

namespace Stencil.Json

variable {n depth : Nat} {j : Json} {items : List Json} {members : List (String × Json)}
  {ws rest : List Char}

/-! ### Layouts -/

/-- The spaces between the parts of a document: in front of a member and of the end of a collection
at a depth, and after a colon. -/
structure Layout where
  line : Nat → List Char
  gap : List Char
  isSpace_line : ∀ depth, ∀ c ∈ line depth, isSpace c = true
  isSpace_gap : ∀ c ∈ gap, isSpace c = true

/-- No spaces. -/
def Layout.compact : Layout where
  line _ := []
  gap := []
  isSpace_line _ _ hc := nomatch hc
  isSpace_gap _ hc := nomatch hc

/-- A line for each member. -/
def Layout.indented : Layout where
  line := lineBreak
  gap := [' ']
  isSpace_line depth c hc := by
    rcases List.mem_cons.1 hc with rfl | hc
    · rfl
    · rw [List.eq_of_mem_replicate hc]
      rfl
  isSpace_gap c hc := by
    rw [List.mem_singleton.1 hc]
    rfl

/-- Texts with commas between them. -/
def commas (texts : List (List Char)) : List Char := [','].intercalate texts

/-- One text needs no comma. -/
theorem commas_singleton (text : List Char) : commas [text] = text := List.intercalate_singleton

/-- From two texts on, a comma stands between the first and the rest. -/
theorem commas_cons_cons (first second : List Char) (texts : List (List Char)) :
    commas (first :: second :: texts) = first ++ ',' :: commas (second :: texts) := by
  rw [commas, List.intercalate_cons_cons, List.append_assoc]
  rfl

/-- What is written member by member with commas is the texts of the members with commas. -/
theorem eq_commas {α : Type} {write : List α → List Char} {text : α → List Char}
    (hnil : write [] = []) (hsingle : ∀ a, write [a] = text a)
    (hcons : ∀ a b rest, write (a :: b :: rest) = text a ++ [','] ++ write (b :: rest))
    (members : List α) : write members = commas (members.map text) := by
  induction members with
  | nil => exact hnil
  | cons a members ih =>
      rcases members with _ | ⟨b, rest⟩
      · rw [hsingle]
        exact (commas_singleton _).symm
      · rw [hcons, ih, List.append_assoc]
        exact (commas_cons_cons _ _ _).symm

mutual

/-- The text of a document in a layout at a depth. -/
def laid (L : Layout) (depth : Nat) : Json → List Char
  | .array (j :: rest) =>
    '[' :: (commas (laidItems L (depth + 1) (j :: rest)) ++ (L.line depth ++ [']']))
  | .object (member :: rest) =>
    '\x7b' :: (commas (laidMembers L (depth + 1) (member :: rest)) ++ (L.line depth ++ ['\x7d']))
  | j => atomText j

/-- The texts of the items of an array. -/
def laidItems (L : Layout) (depth : Nat) : List Json → List (List Char)
  | [] => []
  | j :: rest => (L.line depth ++ laid L depth j) :: laidItems L depth rest

/-- The texts of the members of an object. -/
def laidMembers (L : Layout) (depth : Nat) : List (String × Json) → List (List Char)
  | [] => []
  | (key, j) :: rest =>
    (L.line depth ++ (stringText key ++ ':' :: (L.gap ++ laid L depth j))) ::
      laidMembers L depth rest

end

/-- The text of a member of an object. -/
def compactMember (member : String × Json) : List Char :=
  stringText member.1 ++ [':'] ++ compactText member.2

/-- The compact items of an array are the compact texts of its members, with commas between. -/
theorem compactItems_eq (items : List Json) : compactItems items = commas (items.map compactText) :=
  eq_commas rfl (fun _ => rfl) (fun _ _ _ => rfl) items

/-- The compact members of an object are its compact entries, with commas between. -/
theorem compactMembers_eq (members : List (String × Json)) :
    compactMembers members = commas (members.map compactMember) :=
  eq_commas rfl (fun _ => rfl) (fun _ _ _ => rfl) members

/-- In the indented layout every item of an array starts a line of its own. -/
theorem prettyItems_eq (depth : Nat) (items : List Json) :
    prettyItems depth items = commas (items.map fun j => lineBreak depth ++ prettyText depth j) :=
  eq_commas rfl (fun _ => rfl) (fun _ _ _ => rfl) items

/-- In the indented layout every entry of an object starts a line of its own, and a blank follows
its colon. -/
theorem prettyMembers_eq (depth : Nat) (members : List (String × Json)) :
    prettyMembers depth members = commas (members.map fun member =>
      lineBreak depth ++ stringText member.1 ++ [':', ' '] ++ prettyText depth member.2) :=
  eq_commas rfl (fun _ => rfl) (fun _ _ _ => rfl) members

mutual

/-- The layout without line breaks is the compact text. -/
theorem laid_compact (depth : Nat) : ∀ j, laid .compact depth j = compactText j
  | .null => rfl
  | .bool _ => rfl
  | .number _ => rfl
  | .string _ => rfl
  | .array [] => rfl
  | .object [] => rfl
  | .array (j :: rest) => by
      rw [laid, compactText, compactItems_eq, laidItems_compact (depth + 1) (j :: rest)]
      rfl
  | .object (member :: rest) => by
      rw [laid, compactText, compactMembers_eq, laidMembers_compact (depth + 1) (member :: rest)]
      rfl

/-- The same for the items of an array. -/
theorem laidItems_compact (depth : Nat) :
    ∀ items, laidItems .compact depth items = items.map compactText
  | [] => rfl
  | j :: rest => congrArg₂ List.cons (laid_compact depth j) (laidItems_compact depth rest)

/-- The same for the members of an object. -/
theorem laidMembers_compact (depth : Nat) :
    ∀ members, laidMembers .compact depth members = members.map compactMember
  | [] => rfl
  | (key, j) :: rest => by
      have hfirst : stringText key ++ ':' :: laid .compact depth j = compactMember (key, j) := by
        rw [laid_compact depth j, compactMember, List.append_assoc]
        rfl
      exact congrArg₂ List.cons hfirst (laidMembers_compact depth rest)

end

mutual

/-- The layout with line breaks is the indented text, at every depth of nesting. -/
theorem laid_indented (depth : Nat) : ∀ j, laid .indented depth j = prettyText depth j
  | .null => rfl
  | .bool _ => rfl
  | .number _ => rfl
  | .string _ => rfl
  | .array [] => rfl
  | .object [] => rfl
  | .array (j :: rest) => by
      rw [laid, prettyText, prettyItems_eq, laidItems_indented (depth + 1) (j :: rest),
        List.append_assoc, List.append_assoc]
      rfl
  | .object (member :: rest) => by
      rw [laid, prettyText, prettyMembers_eq, laidMembers_indented (depth + 1) (member :: rest),
        List.append_assoc, List.append_assoc]
      rfl

/-- The same for the items of an array, each behind its line break. -/
theorem laidItems_indented (depth : Nat) : ∀ items,
    laidItems .indented depth items = items.map fun j => lineBreak depth ++ prettyText depth j
  | [] => rfl
  | j :: rest => by
      have hfirst := congrArg (lineBreak depth ++ ·) (laid_indented depth j)
      exact congrArg₂ List.cons hfirst (laidItems_indented depth rest)

/-- The same for the members of an object. -/
theorem laidMembers_indented (depth : Nat) : ∀ members,
    laidMembers .indented depth members = members.map fun member =>
      lineBreak depth ++ stringText member.1 ++ [':', ' '] ++ prettyText depth member.2
  | [] => rfl
  | (key, j) :: rest => by
      have hfirst : lineBreak depth ++
          (stringText key ++ ':' :: ([' '] ++ laid .indented depth j)) =
          lineBreak depth ++ stringText key ++ [':', ' '] ++ prettyText depth j := by
        rw [laid_indented depth j, List.append_assoc, List.append_assoc]
        rfl
      exact congrArg₂ List.cons hfirst (laidMembers_indented depth rest)

end

/-! ### Reading -/

/-- A document of integers, strings and the like, with arrays and objects nested to a depth at
most. -/
inductive Exact : Nat → Json → Prop where
  | null {n : Nat} : Exact n .null
  | bool {n : Nat} (b : Bool) : Exact n (.bool b)
  | number {n : Nat} {m : Number} : m.Exact → Exact n (.number m)
  | string {n : Nat} (s : String) : Exact n (.string s)
  | array {n : Nat} {items : List Json} : (∀ j ∈ items, Exact n j) → Exact (n + 1) (.array items)
  | object {n : Nat} {members : List (String × Json)} : Dict.Sorted members →
      (∀ member ∈ members, Exact n member.2) → Exact (n + 1) (.object members)

/-- A reader takes a text off the start of any text that goes on with the end of a number. -/
def Reads {α : Type} (reader : Reader α) (text : List Char) (a : α) : Prop :=
  ∀ rest, Ends rest → reader (text ++ rest) = some (a, rest)

/-- White space in front is skipped, however much there is. -/
theorem skipSpace_append (hws : ∀ c ∈ ws, isSpace c = true) (cs : List Char) :
    skipSpace (ws ++ cs) = skipSpace cs := List.dropWhile_append_of_pos hws

/-- Nothing is skipped in front of a character that is no white space. -/
theorem skipSpace_cons {c : Char} (hc : isSpace c = false) (cs : List Char) :
    skipSpace (c :: cs) = c :: cs := List.dropWhile_cons_of_neg (by simp [hc])

/-- A value may have white space in front of it. -/
theorem readWith?_append (item? : Option (Reader Json)) (hws : ∀ c ∈ ws, isSpace c = true)
    (cs : List Char) : readWith? item? (ws ++ cs) = readWith? item? cs := by
  rw [readWith?, readWith?, skipSpace_append hws]

/-- Spaces in front of a document are passed over. -/
theorem readNested?_append (n : Nat) (hws : ∀ c ∈ ws, isSpace c = true) (cs : List Char) :
    readNested? n (ws ++ cs) = readNested? n cs := by
  cases n with
  | zero => exact readWith?_append none hws cs
  | succ n => exact readWith?_append _ hws cs

/-- What is read as a value is still read as that value with white space in front. The indented
layout rests on this. -/
theorem Reads.space {text : List Char} (h : Reads (readNested? n) text j)
    (hws : ∀ c ∈ ws, isSpace c = true) : Reads (readNested? n) (ws ++ text) j := by
  intro rest hrest
  rw [List.append_assoc, readNested?_append n hws, h rest hrest]

/-- The reader skips the white space in front of a value by itself. -/
theorem readNested?_skipSpace (n : Nat) (cs : List Char) :
    readNested? n cs = readNested? n (skipSpace cs) := by
  have hsplit : cs.takeWhile isSpace ++ skipSpace cs = cs := List.takeWhile_append_dropWhile
  have hws : ∀ c ∈ cs.takeWhile isSpace, isSpace c = true := fun c hc => List.mem_takeWhile_imp hc
  calc readNested? n cs = readNested? n (cs.takeWhile isSpace ++ skipSpace cs) := by rw [hsplit]
    _ = readNested? n (skipSpace cs) := readNested?_append n hws _

/-! ### Members -/

/-- White space in front of a text that ends a number ends a number too. -/
theorem ends_of_isSpace (hws : ∀ c ∈ ws, isSpace c = true) (hrest : Ends rest) :
    Ends (ws ++ rest) := by
  rcases ws with _ | ⟨w, ws⟩
  · exact hrest
  · refine ends_cons ?_ _
    have hw := hws w List.mem_cons_self
    simp only [isSpace, Bool.or_eq_true, beq_iff_eq] at hw
    rcases hw with ((rfl | rfl) | rfl) | rfl
    · decide
    · decide
    · decide
    · decide

/-- There are no more members than characters of their texts with commas, but for one. -/
theorem length_le_commas {α : Type} {reader : Reader α} {texts : List (List Char)}
    {as : List α} (h : List.Forall₂ (Reads reader) texts as) (cs : List Char) :
    as.length ≤ (commas texts ++ cs).length + 1 := by
  induction h with
  | nil => exact Nat.zero_le _
  | @cons first a texts as _ hothers ih =>
      cases hothers with
      | nil => exact Nat.le_add_left 1 _
      | cons _ _ =>
          rw [commas_cons_cons]
          simp only [List.length_append, List.length_cons] at ih ⊢
          omega

/-- A loop over members that takes one, and with a comma after it the next one, reads their texts up
to the closing character. -/
theorem loop_commas {α : Type} {loop : Nat → Reader (List α)} {member : Reader α} {close : Char}
    (hlast : ∀ {steps cs a rest after}, member cs = some (a, rest) →
      skipSpace rest = close :: after → loop (steps + 1) cs = some ([a], after))
    (hmore : ∀ {steps cs a rest after}, member cs = some (a, rest) →
      skipSpace rest = ',' :: after →
        loop (steps + 1) cs = (loop steps after).map fun (others, rest) => (a :: others, rest))
    (hclose : isSpace close = false) (hends : ∀ cs, Ends (close :: cs))
    {texts : List (List Char)} {as : List α} (h : List.Forall₂ (Reads member) texts as)
    (hne : as ≠ []) (hws : ∀ c ∈ ws, isSpace c = true) {steps : Nat} (hsteps : as.length ≤ steps) :
    loop steps (commas texts ++ (ws ++ close :: rest)) = some (as, rest) := by
  induction h generalizing steps with
  | nil => exact absurd rfl hne
  | @cons text a texts as hfirst hothers ih =>
      rw [List.length_cons] at hsteps
      obtain ⟨steps, rfl⟩ : ∃ n, steps = n + 1 := ⟨steps - 1, by omega⟩
      cases hothers with
      | nil =>
          have hskip : skipSpace (ws ++ close :: rest) = close :: rest := by
            rw [skipSpace_append hws, skipSpace_cons hclose]
          rw [commas_singleton]
          exact hlast (hfirst _ (ends_of_isSpace hws (hends rest))) hskip
      | @cons second b texts as hsecond hothers =>
          have hafter := ih (List.cons_ne_nil b as) (by omega : (b :: as).length ≤ steps)
          have hcomma : ∀ cs, Ends (',' :: cs) := ends_cons (by decide)
          rw [commas_cons_cons, List.append_assoc, List.cons_append,
            hmore (hfirst _ (hcomma _)) (skipSpace_cons (by decide) _), hafter]
          rfl

section Collections

variable {item : Reader Json} (hws : ∀ c ∈ ws, isSpace c = true) {texts : List (List Char)}

include hws

/-- Items that are each read back are read back as a list, up to the bracket that closes the array.
The bound on the steps is only that there are as many as items. -/
theorem readItems?_commas (h : List.Forall₂ (Reads item) texts items) (hne : items ≠ [])
    {steps : Nat} (hsteps : items.length ≤ steps) :
    readItems? item steps (commas texts ++ (ws ++ ']' :: rest)) = some (items, rest) := by
  refine loop_commas ?_ ?_ (by decide) (ends_cons (by decide)) h hne hws hsteps
  · intro steps cs j rest after hitem hskip
    rw [readItems?, hitem]
    simp only [Option.bind_eq_bind, Option.bind_some, hskip]
  · intro steps cs j rest after hitem hskip
    rw [readItems?, hitem]
    simp only [Option.bind_eq_bind, Option.bind_some, hskip]

/-- Members that are each read back are read back as a list, up to the brace that closes the object.
-/
theorem readMembers?_commas (h : List.Forall₂ (Reads (readMember? item)) texts members)
    (hne : members ≠ []) {steps : Nat} (hsteps : members.length ≤ steps) :
    readMembers? item steps (commas texts ++ (ws ++ '\x7d' :: rest)) = some (members, rest) := by
  refine loop_commas ?_ ?_ (by decide) (ends_cons (by decide)) h hne hws hsteps
  · intro steps cs member rest after hmember hskip
    rw [readMembers?, hmember]
    simp only [Option.bind_eq_bind, Option.bind_some, hskip]
  · intro steps cs member rest after hmember hskip
    rw [readMembers?, hmember]
    simp only [Option.bind_eq_bind, Option.bind_some, hskip]

/-- An array that has items is read as them. The empty array is read in another way, before any item
is looked for. -/
theorem readArray?_commas (h : List.Forall₂ (Reads (readNested? n)) texts items)
    (hne : items ≠ []) :
    readArray? (readNested? n) (commas texts ++ (ws ++ ']' :: rest)) =
      some (.array items, rest) := by
  have hitems : readItems? (readNested? n) ((commas texts ++ (ws ++ ']' :: rest)).length + 1)
      (commas texts ++ (ws ++ ']' :: rest)) = some (items, rest) :=
    readItems?_commas hws h hne (length_le_commas h _)
  unfold readArray?
  split
  · rename_i rest' hskip
    -- The closing bracket begins no item.
    have hnone : readNested? n (commas texts ++ (ws ++ ']' :: rest)) = none := by
      rw [readNested?_skipSpace, hskip]
      cases n <;> rfl
    rw [readItems?, hnone] at hitems
    exact nomatch hitems
  · rw [hitems]
    rfl

/-- An object that has members is read as them. -/
theorem readObject?_commas (h : List.Forall₂ (Reads (readMember? (readNested? n))) texts members)
    (hne : members ≠ []) :
    readObject? (readNested? n) (commas texts ++ (ws ++ '\x7d' :: rest)) =
      some (.object (Dict.ofPairs members), rest) := by
  have hmembers : readMembers? (readNested? n) ((commas texts ++ (ws ++ '\x7d' :: rest)).length + 1)
      (commas texts ++ (ws ++ '\x7d' :: rest)) = some (members, rest) :=
    readMembers?_commas hws h hne (length_le_commas h _)
  unfold readObject?
  split
  · rename_i rest' hskip
    have hnone : readMember? (readNested? n) (commas texts ++ (ws ++ '\x7d' :: rest)) = none := by
      rw [readMember?, hskip]
      rfl
    rw [readMembers?, hnone] at hmembers
    exact nomatch hmembers
  · rw [hmembers]
    rfl

end Collections

/-- The text of a string, spelled out as the reader meets it: a quote, the escaped body, a quote,
and what follows. -/
theorem stringText_append (s : String) (cs : List Char) :
    stringText s ++ cs = '"' :: (s.toList.flatMap escaped ++ '"' :: cs) := by
  rw [stringText, List.append_assoc, List.append_assoc]
  rfl

/-- A member is read from its key, a colon and a text of its document. -/
theorem reads_member {text gap : List Char} (h : Reads (readNested? n) text j)
    (hws : ∀ c ∈ ws, isSpace c = true) (hgap : ∀ c ∈ gap, isSpace c = true) (key : String) :
    Reads (readMember? (readNested? n)) (ws ++ (stringText key ++ ':' :: (gap ++ text)))
      (key, j) := by
  intro rest hrest
  have hvalue := h.space hgap rest hrest
  have hskip : skipSpace (ws ++ (stringText key ++ ':' :: (gap ++ text)) ++ rest) =
      '"' :: (key.toList.flatMap escaped ++ '"' :: ':' :: (gap ++ text ++ rest)) := by
    rw [List.append_assoc, skipSpace_append hws, List.append_assoc, stringText_append,
      skipSpace_cons (by decide)]
    rfl
  have hcolon : ∀ cs, skipSpace (':' :: cs) = ':' :: cs := skipSpace_cons (by decide)
  rw [readMember?, hskip]
  simp only [readString?_stringText, Option.bind_eq_bind, Option.bind_some, hcolon, hvalue]
  rfl

/-! ### Documents -/

/-- A string is read back from its text, with every character that had to be escaped. -/
theorem readWith?_string (item? : Option (Reader Json)) (s : String) (rest : List Char) :
    readWith? item? (stringText s ++ rest) = some (.string s, rest) := by
  have hskip : ∀ cs, skipSpace ('"' :: cs) = '"' :: cs := skipSpace_cons (by decide)
  rw [stringText_append, readWith?, hskip]
  simp only [readString?_stringText]
  rfl

/-- A digit is no white space. -/
theorem isSpace_of_isDigit {c : Char} (hc : c.isDigit = true) : isSpace c = false := by
  rw [Bool.eq_false_iff]
  intro hspace
  simp only [isSpace, Bool.or_eq_true, beq_iff_eq] at hspace
  rcases hspace with ((rfl | rfl) | rfl) | rfl <;> exact absurd hc (by decide)

/-- What begins as a number is read as one, since none of the other forms begins with a digit or a
sign. -/
theorem readWith?_cons (item? : Option (Reader Json)) {c : Char}
    (hc : c = '-' ∨ c.isDigit = true) (cs : List Char) :
    readWith? item? (c :: cs) = (readNumber? (c :: cs)).map fun (m, rest) => (.number m, rest) := by
  have hspace : isSpace c = false := by
    rcases hc with rfl | hc
    · rfl
    · exact isSpace_of_isDigit hc
  have hne : ∀ d cs', d ∈ ['[', '\x7b', '"', 'n', 't', 'f'] → c :: cs ≠ d :: cs' := by
    rintro d cs' hd he
    obtain ⟨rfl, -⟩ := List.cons.inj he
    simp only [List.mem_cons, List.not_mem_nil, or_false] at hd
    rcases hd with rfl | rfl | rfl | rfl | rfl | rfl <;> exact absurd hc (by decide)
  rw [readWith?, skipSpace_cons hspace]
  split
  case h_7 => rfl
  -- the other arms are for the six characters that `c` is not
  all_goals
    rename_i he
    exact absurd he (hne _ _ (by decide))

/-- An exact number is read back from its text where something that cannot be part of a number
follows it. -/
theorem readWith?_number (item? : Option (Reader Json)) {m : Number} (hm : m.Exact)
    (hrest : Ends rest) : readWith? item? (m.text ++ rest) = some (.number m, rest) := by
  have hread := readNumber?_text hm hrest
  obtain ⟨c, cs, htext, hc⟩ := hm.exists_cons
  rw [htext, List.cons_append] at hread ⊢
  rw [readWith?_cons item? hc, hread]
  rfl

/-- If each item is read back from its layout, so are all of them, in order. -/
theorem forall₂_laidItems {L : Layout} (h : ∀ j ∈ items, Reads (readNested? n) (laid L depth j) j) :
    List.Forall₂ (Reads (readNested? n)) (laidItems L depth items) items := by
  induction items with
  | nil => exact .nil
  | cons j items ih =>
      have hfirst := (h j List.mem_cons_self).space (L.isSpace_line depth)
      exact .cons hfirst (ih fun j' hj' => h j' (List.mem_cons_of_mem j hj'))

/-- If the value of each member is read back from its layout, so are all members with their keys. -/
theorem forall₂_laidMembers {L : Layout}
    (h : ∀ member ∈ members, Reads (readNested? n) (laid L depth member.2) member.2) :
    List.Forall₂ (Reads (readMember? (readNested? n))) (laidMembers L depth members) members := by
  induction members with
  | nil => exact .nil
  | cons member members ih =>
      have hfirst := reads_member (h member List.mem_cons_self) (L.isSpace_line depth)
        L.isSpace_gap member.1
      exact .cons hfirst (ih fun member' hm => h member' (List.mem_cons_of_mem member hm))

/-- A document is read from its text in any layout. The layouts differ in the white space between
the items alone, and the reader skips white space, so that one induction on the document does for
both. -/
theorem reads_laid (L : Layout) (h : Exact n j) (depth : Nat) :
    Reads (readNested? n) (laid L depth j) j := by
  induction h generalizing depth with
  | @null n =>
      intro rest _
      cases n <;> rfl
  | @bool n b =>
      intro rest _
      cases n <;> cases b <;> rfl
  | @number n m hm =>
      intro rest hrest
      -- At the bottom of the nesting the reader still reads leaves.
      cases n with
      | zero => exact readWith?_number none hm hrest
      | succ n => exact readWith?_number _ hm hrest
  | @string n s =>
      intro rest _
      cases n with
      | zero => exact readWith?_string none s rest
      | succ n => exact readWith?_string _ s rest
  | @array n items hitems ih =>
      intro rest _
      rcases items with _ | ⟨j, items⟩
      · rfl
      · have htexts := forall₂_laidItems fun j' hj' => ih j' hj' (depth + 1)
        rw [laid, List.cons_append, List.append_assoc, List.append_assoc]
        exact readArray?_commas (L.isSpace_line depth) htexts (List.cons_ne_nil j items)
  | @object n members hsorted hmembers ih =>
      intro rest _
      rcases members with _ | ⟨member, members⟩
      · rfl
      -- The keys are in order, so putting the members in one by one keeps them as they are.
      · have htexts := forall₂_laidMembers fun member' hm => ih member' hm (depth + 1)
        rw [laid, List.cons_append, List.append_assoc, List.append_assoc]
        refine (readObject?_commas (L.isSpace_line depth) htexts
          (List.cons_ne_nil member members)).trans ?_
        rw [Dict.ofPairs_of_sorted hsorted]
        rfl

/-- A document is read from its whole text in any layout. -/
theorem read?_laid (L : Layout) (h : Exact nestingLimit j) :
    read? (String.ofList (laid L 0 j)) = some j := by
  have hread := reads_laid L h 0 [] ends_nil
  rw [List.append_nil] at hread
  rw [read?, String.toList_ofList, hread]
  rfl

/-- A value that the format can hold exactly is read back from its compact text. Left out are
floats, and nesting beyond the limit of the reader. -/
theorem read?_compact (h : Exact nestingLimit j) : read? j.compact = some j := by
  rw [compact, ← laid_compact 0]
  exact read?_laid .compact h

/-- A value that the format can hold exactly is read back from its indented text, with the white
space that the layout adds. -/
theorem read?_pretty (h : Exact nestingLimit j) : read? j.pretty = some j := by
  rw [pretty, ← laid_indented 0]
  exact read?_laid .indented h

end Stencil.Json
