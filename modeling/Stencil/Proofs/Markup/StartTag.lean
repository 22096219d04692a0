import Mathlib.Data.List.TakeWhile
import Stencil.Markup.Printer
import Stencil.Markup.Token

/-!
# Start tags read back

What a start tag that was read looks like, and when a printed one is read as what it was printed
from.

## Main definitions

* `IsTagName`, `IsAttributeName` — what tags and attribute names are made of
* `shownAttributes` — the attributes of a start tag as they are printed
* `ReadsBack` — what an attribute must be like to be read as it is printed

## Main results

* `isTagName_of_takeStartTag`, `isAttributeName_of_takeStartTag` — what is read is made of that
* `takeStartTag_openTag` — a printed start tag is read back exactly if each of its attributes can be
* `takeStartTag_openTag_append` — and then whatever follows it
-/

namespace Stencil.Markup

open Text

/-- Whether a character can be part of the name of an attribute. -/
def isAttributeChar (c : Char) : Bool := !isSpace c && c != '=' && c != '>'

/-- The characters of a tag as it is read: none ends the tag, and letters are in lower case. -/
def IsTagName (tag : String) : Prop := ∀ c ∈ tag.toList, isTagChar c = true ∧ c.toLower = c

/-- The characters of the name of an attribute as it is read. -/
def IsAttributeName (name : String) : Prop := ∀ c ∈ name.toList, isAttributeChar c = true

/-! ### What is read -/

theorem isAttributeChar_of_takeAttributeName (cs : List Char) :
    ∀ c ∈ (takeAttributeName cs).1, isAttributeChar c = true := by
  induction cs with
  | nil => simp [takeAttributeName]
  | cons first cs ih =>
      unfold takeAttributeName
      split
      · simp
      · rename_i hstop
        simp only [Bool.or_eq_true, not_or, Bool.not_eq_true, beq_eq_false_iff_ne, ne_eq] at hstop
        intro c hc
        rcases List.mem_cons.1 hc with rfl | hc
        · simp [isAttributeChar, hstop.1.1.1, hstop.1.1.2, hstop.1.2]
        · exact ih c hc

/-- The name of an attribute begins where it is read. -/
theorem head?_takeAttributeName {c : Char} {cs : List Char} (hc : c ≠ '/') :
    (takeAttributeName (c :: cs)).1.head? ≠ some '/' := by
  unfold takeAttributeName
  split
  · simp
  · simpa using hc

section Steps

variable {bound : Nat} {cs cs' rest value : List Char} {c : Char}

theorem takeAttributes_end (h : skipSpace cs = '>' :: rest) :
    takeAttributes (bound + 1) cs = .ok ([], false, rest) := by
  rw [takeAttributes, h]
  rfl

/-- A slash closes the tag or is skipped. -/
theorem takeAttributes_slash (h : skipSpace cs = '/' :: rest) :
    (∃ after, rest = '>' :: after ∧ takeAttributes (bound + 1) cs = .ok ([], true, after)) ∨
      takeAttributes (bound + 1) cs = takeAttributes bound rest := by
  rw [takeAttributes, h]
  split
  · rename_i he
    exact absurd he (by simp)
  · rename_i he
    exact absurd (List.cons.inj he).1 (by decide)
  · rename_i he
    exact .inl ⟨_, (List.cons.inj he).2, rfl⟩
  · rename_i he
    rw [(List.cons.inj he).2]
    exact .inr rfl
  · rename_i hother
    exact absurd rfl (hother rest)

/-- An attribute is read where anything else stands: no blank, no slash and no greater-than sign. -/
theorem takeAttributes_attribute (h : skipSpace cs = c :: cs') (hclose : c ≠ '>')
    (hslash : c ≠ '/') :
    (takeValue? (takeAttributeName (c :: cs')).2 = none →
        takeAttributes (bound + 1) cs =
          .error (.value (String.ofList (takeAttributeName (c :: cs')).1))) ∧
      ∀ value rest, takeValue? (takeAttributeName (c :: cs')).2 = some (value, rest) →
        takeAttributes (bound + 1) cs = (takeAttributes bound rest).map fun found =>
          ((String.ofList (takeAttributeName (c :: cs')).1, String.ofList value) :: found.1,
            found.2) := by
  rw [takeAttributes, h]
  split
  · rename_i he
    exact absurd he (by simp)
  · rename_i he
    exact absurd (List.cons.inj he).1 hclose
  · rename_i he
    exact absurd (List.cons.inj he).1 hslash
  · rename_i he
    exact absurd (List.cons.inj he).1 hslash
  · dsimp only
    constructor
    · intro hvalue
      rw [hvalue]
    · intro value rest hvalue
      rw [hvalue]
      dsimp only
      cases takeAttributes bound rest <;> rfl

end Steps

/-- What the attributes of a start tag are like: no name begins with a slash. Elsewhere in a name a
slash may stand. -/
theorem isAttributeName_of_takeAttributes (bound : Nat) :
    ∀ {cs found}, takeAttributes bound cs = .ok found →
      ∀ a ∈ found.1, IsAttributeName a.1 ∧ a.1.toList.head? ≠ some '/' := by
  induction bound with
  | zero => exact fun h => nomatch h
  | succ bound ih =>
      intro cs found h
      rcases hs : skipSpace cs with _ | ⟨c, cs'⟩
      · rw [takeAttributes, hs] at h
        exact nomatch h
      · by_cases hclose : c = '>'
        · subst hclose
          rw [takeAttributes_end hs] at h
          obtain rfl := Except.ok.inj h
          simp
        · by_cases hslash : c = '/'
          -- A slash ends the tag with what follows it, or is passed over.
          · subst hslash
            rcases takeAttributes_slash hs with ⟨after, -, hclosed⟩ | hskip
            · rw [hclosed] at h
              obtain rfl := Except.ok.inj h
              simp
            · rw [hskip] at h
              exact ih h
          -- What is left is an attribute, whose name does not begin with a slash.
          · obtain ⟨hnone, hsome⟩ := takeAttributes_attribute hs hclose hslash
            rcases hvalue : takeValue? (takeAttributeName (c :: cs')).2 with _ | ⟨value, rest⟩
            · rw [hnone hvalue] at h
              exact nomatch h
            · rw [hsome value rest hvalue] at h
              rcases hothers : takeAttributes bound rest with _ | others
              · rw [hothers] at h
                exact nomatch h
              · rw [hothers] at h
                obtain rfl := Except.ok.inj h
                intro a ha
                rcases List.mem_cons.1 ha with rfl | ha
                · constructor
                  · intro d hd
                    rw [String.toList_ofList] at hd
                    exact isAttributeChar_of_takeAttributeName _ d hd
                  · rw [String.toList_ofList]
                    exact head?_takeAttributeName hslash
                · exact ih hothers a ha

theorem takeStartTag_of_ok {position : Nat} {cs : List Char}
    {found : String × List (String × String) × Bool × List Char}
    (h : takeStartTag position cs = .ok found) :
    found.1 = String.ofList ((cs.takeWhile isTagChar).map Char.toLower) ∧
      takeAttributes ((cs.dropWhile isTagChar).length + 1) (cs.dropWhile isTagChar) =
        .ok found.2 := by
  unfold takeStartTag at h
  dsimp only at h
  split at h
  · rename_i htaken
    obtain rfl := Except.ok.inj h
    exact ⟨rfl, htaken⟩
  · exact nomatch h
  · exact nomatch h

/-- Lower case changes ASCII capitals alone, to ASCII letters. Names of tags are compared in it, so
what it does to others must be known. -/
theorem toLower_cases (c : Char) :
    c.toLower = c ∨ (c.toNat ≤ 90 ∧ 97 ≤ c.toLower.toNat ∧ c.toLower.toNat ≤ 122) := by
  by_cases h : c.val ≥ 'A'.val ∧ c.val ≤ 'Z'.val
  · refine .inr ?_
    have hlower : 65 ≤ c.val.toNat := UInt32.le_iff_toNat_le.1 h.1
    have hupper : c.val.toNat ≤ 90 := UInt32.le_iff_toNat_le.1 h.2
    have hval : c.toLower.val = c.val + ('a'.val - 'A'.val) := congrArg Char.val (dif_pos h)
    have hnat : c.toLower.val.toNat = (c.val.toNat + 32) % 2 ^ 32 := by
      rw [hval, UInt32.toNat_add]
      rfl
    have hsum : c.toLower.val.toNat = c.val.toNat + 32 := by omega
    have hlow : 97 ≤ c.toLower.toNat := by
      show 97 ≤ c.toLower.val.toNat
      omega
    have hhigh : c.toLower.toNat ≤ 122 := by
      show c.toLower.val.toNat ≤ 122
      omega
    exact ⟨hupper, hlow, hhigh⟩
  · exact .inl (dif_neg h)

theorem toLower_toLower (c : Char) : c.toLower.toLower = c.toLower := by
  rcases toLower_cases c with h | ⟨-, hlow, -⟩
  · rw [h, h]
  · rcases toLower_cases c.toLower with h | ⟨hle, -, -⟩
    · exact h
    · omega

/-- The characters that end the name of a start tag. -/
theorem isTagChar_eq_false_iff {c : Char} :
    isTagChar c = false ↔ c ∈ [' ', '\t', '\n', '\x0c', '\r', '>', '/'] := by
  simp [isTagChar, isSpace, or_iff_not_imp_left]

/-- The characters of a class that has none of these belong to names. -/
theorem isTagChar_of_class {p : Char → Bool} {c : Char}
    (hp : [' ', '\t', '\n', '\x0c', '\r', '>', '/'].all (fun d => !p d) = true)
    (h : p c = true) : isTagChar c = true := by
  by_contra hc
  have hmem := isTagChar_eq_false_iff.1 (Bool.eq_false_iff.2 hc)
  have hnot := List.all_eq_true.1 hp c hmem
  rw [h] at hnot
  cases hnot

theorem isTagChar_toLower {c : Char} (h : isTagChar c = true) : isTagChar c.toLower = true := by
  rcases toLower_cases c with he | ⟨-, hlow, -⟩
  · rw [he]
    exact h
  · let isHigh (d : Char) : Bool := 97 ≤ d.toNat
    have hhigh : isHigh c.toLower = true := decide_eq_true hlow
    exact isTagChar_of_class (by decide) hhigh

/-- The name of a start tag that was read is one that a printed start tag can have. -/
theorem isTagName_of_takeStartTag {position : Nat} {cs : List Char}
    {found : String × List (String × String) × Bool × List Char}
    (h : takeStartTag position cs = .ok found) : IsTagName found.1 := by
  rw [(takeStartTag_of_ok h).1]
  intro c hc
  rw [String.toList_ofList] at hc
  obtain ⟨d, hd, rfl⟩ := List.mem_map.1 hc
  exact ⟨isTagChar_toLower (List.mem_takeWhile_imp hd), toLower_toLower d⟩

/-- The names of the attributes of a start tag that was read are such as can be printed and read
again. -/
theorem isAttributeName_of_takeStartTag {position : Nat} {cs : List Char}
    {found : String × List (String × String) × Bool × List Char}
    (h : takeStartTag position cs = .ok found) : ∀ a ∈ found.2.1, IsAttributeName a.1 :=
  fun a ha => (isAttributeName_of_takeAttributes _ (takeStartTag_of_ok h).2 a ha).1

/-! ### What is read back -/

/-- The attributes of a start tag as they are printed. -/
def shownAttributes (attributes : List (String × String)) : List (String × String) :=
  (attributes.filter fun a => !isDirectiveAttribute a.1).map fun a =>
    (a.1, String.ofList (escapeUnlessEscaped a.2.toList))

/-- What an attribute must be like to be read as it is printed: a slash before the name would be
skipped, and a quote would end the value. -/
def ReadsBack (a : String × String) : Prop := a.1.toList.head? ≠ some '/' ∧ '"' ∉ a.2.toList

/-- A printed attribute. -/
def attributeText (a : String × String) : List Char :=
  ' ' :: (a.1.toList ++ '=' :: '"' :: (a.2.toList ++ ['"']))

theorem openTag_eq (tag : String) (attributes : List (String × String)) :
    openTag tag attributes =
      '<' :: (tag.toList ++ ((shownAttributes attributes).flatMap attributeText ++ ['>'])) := by
  have hattributes : attributes.flatMap (fun a => printAttribute a.1 a.2) =
      (shownAttributes attributes).flatMap attributeText := by
    induction attributes with
    | nil => rfl
    | cons a rest ih =>
        rw [List.flatMap_cons, ih]
        by_cases hd : isDirectiveAttribute a.1
        · simp [printAttribute, shownAttributes, hd]
        · simp [printAttribute, shownAttributes, attributeText, hd]
  show ['<'] ++ tag.toList ++ attributes.flatMap (fun a => printAttribute a.1 a.2) ++ ['>'] = _
  rw [hattributes]
  simp

theorem skipSpace_cons {c : Char} {cs : List Char} (h : isSpace c = false) :
    skipSpace (c :: cs) = c :: cs := by
  simp [skipSpace, h]

/-- A name before an equals sign is read as it is, up to that sign. -/
theorem takeAttributeName_append {name : List Char}
    (h : ∀ c ∈ name, isAttributeChar c = true) (rest : List Char) :
    takeAttributeName (name ++ '=' :: rest) = (name, '=' :: rest) := by
  induction name with
  | nil => simp [takeAttributeName]
  | cons c name ih =>
      have hc : isAttributeChar c = true := h c List.mem_cons_self
      have hname : ∀ d ∈ name, isAttributeChar d = true :=
        fun d hd => h d (List.mem_cons_of_mem c hd)
      simp only [isAttributeChar, Bool.and_eq_true, Bool.not_eq_true', bne_iff_ne, ne_eq] at hc
      have hclose : atSelfClose (c :: (name ++ '=' :: rest)) = false := by
        rcases name with _ | ⟨d, name⟩
        · unfold atSelfClose
          split
          · rename_i he
            exact absurd (List.cons.inj (List.cons.inj he).2).1 (by decide)
          · rfl
        · have hd : isAttributeChar d = true := hname d List.mem_cons_self
          unfold atSelfClose
          split
          · rename_i he
            have : d = '>' := (List.cons.inj (List.cons.inj he).2).1
            subst this
            exact absurd hd (by decide)
          · rfl
      rw [List.cons_append, takeAttributeName, ih hname]
      simp [hc.1.1, hc.1.2, hc.2, hclose]

/-- A value without quotes is read up to the quote after it. -/
theorem takeQuoted?_append {quote : Char} {value : List Char} (h : quote ∉ value)
    (rest : List Char) :
    takeQuoted? quote (value ++ quote :: rest) = some (value, rest) := by
  induction value with
  | nil => simp [takeQuoted?]
  | cons c value ih =>
      rw [List.mem_cons, not_or] at h
      rw [List.cons_append, takeQuoted?, if_neg (Ne.symm h.1), ih h.2]
      rfl

/-- What is read up to a quote has none. -/
theorem not_mem_of_takeQuoted? {quote : Char} {cs : List Char} :
    ∀ {value rest}, takeQuoted? quote cs = some (value, rest) → quote ∉ value := by
  induction cs with
  | nil => exact fun h => nomatch h
  | cons c cs ih =>
      intro value rest h
      rw [takeQuoted?] at h
      split at h
      · obtain ⟨rfl, -⟩ := Prod.mk.inj (Option.some.inj h)
        simp
      · rename_i hne
        obtain ⟨found, hfound, he⟩ := Option.map_eq_some_iff.1 h
        obtain ⟨rfl, -⟩ := Prod.mk.inj he
        rw [List.mem_cons, not_or]
        exact ⟨fun e => hne e.symm, ih hfound⟩

theorem takeValue?_quoted (cs : List Char) :
    takeValue? ('=' :: '"' :: cs) = takeQuoted? '"' cs := by
  have hequals : skipSpace ('=' :: '"' :: cs) = '=' :: '"' :: cs := skipSpace_cons (by decide)
  have hquote : skipSpace ('"' :: cs) = '"' :: cs := skipSpace_cons (by decide)
  simp [takeValue?, hequals, hquote, isQuote]

/-- The first character of a printed attribute after the space. -/
theorem exists_cons_of_isAttributeName {name : String} (h : IsAttributeName name)
    (rest : List Char) :
    ∃ c cs, name.toList ++ '=' :: rest = c :: cs ∧ isSpace c = false ∧ c ≠ '>' ∧
      (c = '/' ↔ name.toList.head? = some '/') := by
  unfold IsAttributeName at h
  generalize name.toList = chars at h ⊢
  rcases chars with _ | ⟨c, cs⟩
  · exact ⟨'=', rest, rfl, by decide, by decide, by decide⟩
  · have hc : isAttributeChar c = true := h c List.mem_cons_self
    simp only [isAttributeChar, Bool.and_eq_true, Bool.not_eq_true', bne_iff_ne, ne_eq] at hc
    exact ⟨c, cs ++ '=' :: rest, rfl, hc.1.1, hc.2, by simp⟩

/-- What is read after a slash is not an attribute whose name begins with one. -/
theorem takeAttributes_ne_of_slash (bound : Nat) {cs rest : List Char} {a : String × String}
    (h : skipSpace cs = '/' :: rest) (ha : a.1.toList.head? = some '/')
    (others : List (String × String)) :
    takeAttributes (bound + 1) cs ≠ .ok (a :: others, false, []) := by
  intro hread
  rcases takeAttributes_slash h with ⟨after, -, hclosed⟩ | hskipped
  · rw [hclosed] at hread
    exact absurd (congrArg Prod.fst (Except.ok.inj hread)) (by simp)
  · rw [hskipped] at hread
    exact (isAttributeName_of_takeAttributes bound hread a List.mem_cons_self).2 ha

/-- What is read of a printed attribute: its name, and its value up to the first quote. -/
theorem takeAttributes_printed (bound : Nat) {name : String} {value rest cs : List Char} {c : Char}
    (hname : IsAttributeName name) (hbody : name.toList ++ '=' :: '"' :: value = c :: cs)
    (hskip : skipSpace rest = c :: cs) (hclose : c ≠ '>') (hslash : c ≠ '/') :
    (takeQuoted? '"' value = none → ∃ e, takeAttributes (bound + 1) rest = .error e) ∧
      ∀ taken after, takeQuoted? '"' value = some (taken, after) →
        takeAttributes (bound + 1) rest = (takeAttributes bound after).map fun found =>
          ((name, String.ofList taken) :: found.1, found.2) := by
  obtain ⟨hnone, hsome⟩ := takeAttributes_attribute hskip hclose hslash
  rw [← hbody, takeAttributeName_append hname] at hnone hsome
  simp only [takeValue?_quoted, String.ofList_toList] at hnone hsome
  exact ⟨fun h => ⟨_, hnone h⟩, hsome⟩

/-- A printed attribute is read as it is printed exactly if it can be; otherwise something else is
read in its place. -/
theorem takeAttributes_attributeText {bound : Nat} {a : String × String}
    (hname : IsAttributeName a.1) (rest : List Char) (others : List (String × String)) :
    takeAttributes (bound + 1) (attributeText a ++ rest) = .ok (a :: others, false, []) ↔
      ReadsBack a ∧ takeAttributes bound rest = .ok (others, false, []) := by
  obtain ⟨name, value⟩ := a
  have htext : attributeText (name, value) ++ rest =
      ' ' :: (name.toList ++ '=' :: '"' :: (value.toList ++ '"' :: rest)) := by
    simp [attributeText]
  -- The name begins with a character that is neither blank nor the end of the tag, but it may be a
  -- slash.
  obtain ⟨c, cs, hbody, hspace, hclose, hslash⟩ :=
    exists_cons_of_isAttributeName hname ('"' :: (value.toList ++ '"' :: rest))
  have hskip : skipSpace (attributeText (name, value) ++ rest) = c :: cs := by
    rw [htext, hbody]
    exact skipSpace_cons hspace
  by_cases hc : c = '/'
  · subst hc
    have hne := takeAttributes_ne_of_slash bound hskip (hslash.1 rfl) others
    exact ⟨fun h => absurd h hne, fun h => absurd (hslash.1 rfl) h.1.1⟩
  · obtain ⟨hnone, hsome⟩ := takeAttributes_printed bound hname hbody hskip hclose hc
    by_cases hquote : '"' ∈ value.toList
    · -- The value ends at its first quote, so what is read has none.
      refine ⟨fun h => ?_, fun h => absurd hquote h.1.2⟩
      rcases htaken : takeQuoted? '"' (value.toList ++ '"' :: rest) with _ | ⟨taken, after⟩
      · obtain ⟨e, herror⟩ := hnone htaken
        exact nomatch herror.symm.trans h
      · rw [hsome taken after htaken] at h
        rcases hread : takeAttributes bound after with _ | found
        · rw [hread] at h
          exact nomatch h
        · rw [hread] at h
          have hvalue : String.ofList taken = value :=
            (Prod.mk.inj (List.cons.inj (congrArg Prod.fst (Except.ok.inj h))).1).2
          rw [← hvalue, String.toList_ofList] at hquote
          exact absurd hquote (not_mem_of_takeQuoted? htaken)
    -- Without a quote in it the value ends where it was written to.
    · rw [hsome value.toList rest (takeQuoted?_append hquote rest), String.ofList_toList]
      have hreads : ReadsBack (name, value) := ⟨fun h => hc (hslash.2 h), hquote⟩
      rcases takeAttributes bound rest with _ | ⟨found, closed, after⟩
      · exact ⟨fun h => (nomatch h), fun h => (nomatch h.2)⟩
      · refine ⟨fun h => ⟨hreads, ?_⟩, fun h => ?_⟩
        · simpa [Except.map] using h
        · simpa [Except.map] using h.2

/-- Printed attributes are read as they are printed exactly if each of them can be. -/
theorem takeAttributes_flatMap {shown : List (String × String)}
    (hnames : ∀ a ∈ shown, IsAttributeName a.1) {bound : Nat} (hbound : shown.length < bound) :
    takeAttributes bound (shown.flatMap attributeText ++ ['>']) = .ok (shown, false, []) ↔
      ∀ a ∈ shown, ReadsBack a := by
  induction shown generalizing bound with
  | nil =>
      obtain ⟨bound, rfl⟩ : ∃ n, bound = n + 1 := ⟨bound - 1, by simp at hbound; omega⟩
      have hend : skipSpace (([] : List (String × String)).flatMap attributeText ++ ['>']) =
          '>' :: [] := skipSpace_cons (by decide)
      rw [takeAttributes_end hend]
      simp
  | cons a shown ih =>
      obtain ⟨bound, rfl⟩ : ∃ n, bound = n + 1 := ⟨bound - 1, by simp at hbound; omega⟩
      have hlt : shown.length < bound := by simpa using hbound
      have hrest := ih (fun b hb => hnames b (List.mem_cons_of_mem a hb)) hlt
      rw [List.flatMap_cons, List.append_assoc,
        takeAttributes_attributeText (hnames a List.mem_cons_self), hrest, List.forall_mem_cons]

/-- Printed attributes that can be read are read whatever follows the tag. The induction is on the
attributes, each of which takes one off the bound. -/
theorem takeAttributes_flatMap_append {shown : List (String × String)}
    (h : ∀ a ∈ shown, IsAttributeName a.1 ∧ ReadsBack a) {bound : Nat}
    (hbound : shown.length < bound) (rest : List Char) :
    takeAttributes bound (shown.flatMap attributeText ++ '>' :: rest) =
      .ok (shown, false, rest) := by
  induction shown generalizing bound with
  | nil =>
      obtain ⟨bound, rfl⟩ : ∃ n, bound = n + 1 := ⟨bound - 1, by simp at hbound; omega⟩
      exact takeAttributes_end (skipSpace_cons (by decide))
  | cons a shown ih =>
      obtain ⟨bound, rfl⟩ : ∃ n, bound = n + 1 := ⟨bound - 1, by simp at hbound; omega⟩
      have hlt : shown.length < bound := by simpa using hbound
      have hothers := ih (fun b hb => h b (List.mem_cons_of_mem a hb)) hlt
      obtain ⟨name, value⟩ := a
      obtain ⟨hname, hfirst, hquote⟩ := h (name, value) List.mem_cons_self
      generalize hafter : shown.flatMap attributeText ++ '>' :: rest = after at hothers
      have htext : (((name, value) :: shown).flatMap attributeText ++ '>' :: rest) =
          ' ' :: (name.toList ++ '=' :: '"' :: (value.toList ++ '"' :: after)) := by
        rw [← hafter]
        simp [attributeText]
      obtain ⟨c, cs, hbody, hspace, hclose, hslash⟩ :=
        exists_cons_of_isAttributeName hname ('"' :: (value.toList ++ '"' :: after))
      have hskip :
          skipSpace (' ' :: (name.toList ++ '=' :: '"' :: (value.toList ++ '"' :: after))) =
            c :: cs := by
        rw [hbody]
        exact skipSpace_cons hspace
      have hread := (takeAttributes_printed bound hname hbody hskip hclose
        fun hc => hfirst (hslash.1 hc)).2 _ _ (takeQuoted?_append hquote after)
      rw [htext, hread, hothers, String.ofList_toList]
      rfl

theorem length_le_flatMap_attributeText (shown : List (String × String)) :
    shown.length ≤ (shown.flatMap attributeText).length := by
  induction shown with
  | nil => exact Nat.le_refl 0
  | cons a shown ih =>
      rw [List.flatMap_cons, List.length_append, List.length_cons]
      simp only [attributeText, List.length_cons]
      omega

/-- The name of a start tag ends where its attributes begin, so that name and attributes are read
apart from each other. -/
theorem takeStartTag_append {tag : String} (htag : IsTagName tag) (position : Nat)
    {rest : List Char} (hrest : ∀ c ∈ rest.head?, isTagChar c = false)
    (found : List (String × String) × Bool × List Char) :
    takeStartTag position (tag.toList ++ rest) = .ok (tag, found) ↔
      takeAttributes (rest.length + 1) rest = .ok found := by
  have hstop : rest.takeWhile isTagChar = [] ∧ rest.dropWhile isTagChar = rest := by
    rcases rest with _ | ⟨c, rest⟩
    · exact ⟨rfl, rfl⟩
    · have hc : ¬ isTagChar c = true := by
        rw [hrest c rfl]
        decide
      exact ⟨List.takeWhile_cons_of_neg hc, List.dropWhile_cons_of_neg hc⟩
  have htake : (tag.toList ++ rest).takeWhile isTagChar = tag.toList := by
    rw [List.takeWhile_append_of_pos fun c hc => (htag c hc).1, hstop.1, List.append_nil]
  have hdrop : (tag.toList ++ rest).dropWhile isTagChar = rest := by
    rw [List.dropWhile_append_of_pos fun c hc => (htag c hc).1, hstop.2]
  have hlower : tag.toList.map Char.toLower = tag.toList :=
    (List.map_congr_left fun c hc => (htag c hc).2).trans (List.map_id' _)
  rw [takeStartTag, htake, hdrop, hlower, String.ofList_toList]
  rcases takeAttributes (rest.length + 1) rest with (_ | _) | ⟨attributes, closed, after⟩
  · exact ⟨fun h => (nomatch h), fun h => (nomatch h)⟩
  · exact ⟨fun h => (nomatch h), fun h => (nomatch h)⟩
  · simp

/-- The attributes of a printed start tag, and what follows it, do not go on with its name. -/
theorem isTagChar_head?_attributes (shown : List (String × String)) (rest : List Char) :
    ∀ c ∈ (shown.flatMap attributeText ++ '>' :: rest).head?, isTagChar c = false := by
  intro c hc
  rcases shown with _ | ⟨a, shown⟩
  · obtain rfl : '>' = c := Option.some.inj hc
    decide
  · obtain rfl : ' ' = c := Option.some.inj hc
    decide

/-- A printed start tag is read as it is printed exactly if each of its attributes can be. Where one
cannot, the reading goes wrong at it and cannot come right again, since the tag read has other
attributes then. -/
theorem takeStartTag_openTag {tag : String} {attributes : List (String × String)}
    (htag : IsTagName tag) (hnames : ∀ a ∈ shownAttributes attributes, IsAttributeName a.1)
    (position : Nat) :
    takeStartTag position (openTag tag attributes).tail =
        .ok (tag, shownAttributes attributes, false, []) ↔
      ∀ a ∈ shownAttributes attributes, ReadsBack a := by
  have hlength := length_le_flatMap_attributeText (shownAttributes attributes)
  rw [openTag_eq, List.tail_cons,
    takeStartTag_append htag position (isTagChar_head?_attributes _ []),
    takeAttributes_flatMap hnames]
  rw [List.length_append]
  omega

/-- A printed start tag whose attributes can be read is read whatever follows it. What is needed of
an attribute is that its name is read as a whole and that escaping its value is undone. -/
theorem takeStartTag_openTag_append {tag : String} {attributes : List (String × String)}
    (htag : IsTagName tag)
    (hattributes : ∀ a ∈ shownAttributes attributes, IsAttributeName a.1 ∧ ReadsBack a)
    (position : Nat) (rest : List Char) :
    takeStartTag position ((openTag tag attributes).tail ++ rest) =
      .ok (tag, shownAttributes attributes, false, rest) := by
  have hlength := length_le_flatMap_attributeText (shownAttributes attributes)
  have htext : (openTag tag attributes).tail ++ rest =
      tag.toList ++ ((shownAttributes attributes).flatMap attributeText ++ '>' :: rest) := by
    rw [openTag_eq]
    simp
  rw [htext, takeStartTag_append htag position (isTagChar_head?_attributes _ rest)]
  refine takeAttributes_flatMap_append hattributes ?_ rest
  rw [List.length_append]
  omega

end Stencil.Markup
