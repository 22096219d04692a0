import Mathlib.Data.List.Forall2
import Stencil.Attribute.Eval
import Stencil.Proofs.Pipe.Scan

/-!
# Written object literals

An object literal is read as the keys and the values that it is written with.

## Main definitions

* `Attribute.Hides` — text whose brackets and quotes close each other and hide its commas
* `Attribute.Written` — a key, plain or in quotes, with a value behind a colon

## Main results

* `Attribute.objectEntry?_of_written` — an entry is read back
* `Attribute.objectLiteral?_of_written` — entries between commas and in braces are read back
-/

namespace Stencil.Attribute

open Text Pipe

/-- Text within so many brackets: its own brackets and quotes close each other, and outside of all
of them it has no comma. -/
inductive Hides : Nat → List Char → Prop
  | nil (depth : Nat) : Hides depth []
  | ordinary {depth : Nat} {c : Char} {cs : List Char} (hc : isQuote c = false)
      (hopens : opens c = false) (hcloses : closes c = false) (hcomma : depth = 0 → c ≠ ',')
      (h : Hides depth cs) : Hides depth (c :: cs)
  | quoted {depth : Nat} {q : Char} {body cs : List Char} (hq : isQuote q = true)
      (hbody : ∀ c ∈ body, c ≠ q ∧ c ≠ '\\') (h : Hides depth cs) :
      Hides depth (q :: (body ++ [q]) ++ cs)
  | brackets {depth : Nat} {first last : Char} {inner cs : List Char} (hfirst : opens first = true)
      (hlast : closes last = true) (hinner : Hides (depth + 1) inner) (h : Hides depth cs) :
      Hides depth (first :: (inner ++ [last]) ++ cs)

/-- A scan for commas reads over text that hides them. -/
theorem Hides.passes {depth : Nat} {cs : List Char} (h : Hides depth cs) :
    Passes ',' ⟨depth, none⟩ cs ⟨depth, none⟩ := by
  induction h with
  | nil => exact .nil
  | @ordinary depth c cs hc hopens hcloses hcomma _ ih =>
      refine .cons (after_ordinary hc hopens hcloses depth) ?_ (.inl rfl) ih
      rcases Nat.eq_zero_or_pos depth with h | h
      · exact .inr (hcomma h)
      · exact .inl (by simp [Nesting.isTop, h.ne'])
  | quoted hq hbody _ ih =>
      exact ((IsWord.quoted hq hbody).passes (by decide) (by decide) _).append ih
  | brackets hfirst hlast _ _ hinner ih =>
      refine (Passes.enclosed hinner hfirst hlast ?_ ?_).append ih
      · rintro rfl
        exact absurd hfirst (by decide)
      · rintro rfl
        exact absurd hlast (by decide)

/-- The value of an entry: it hides its commas, and has no blanks around it. -/
structure IsValue (value : List Char) : Prop where
  ne_nil : value ≠ []
  trimmed : IsTrimmed value
  hides : Hides 0 value

/-- An entry of an object literal: a key, plain or in quotes, with a value behind a colon. -/
inductive Written : List Char → String × String → Prop
  | plain {key value : List Char} (hne : key ≠ []) (hkey : ∀ c ∈ key, isPlain c = true)
      (hvalue : IsValue value) :
      Written (key ++ ':' :: ' ' :: value) (String.ofList key, String.ofList value)
  | quoted {q : Char} {key value : List Char} (hq : isQuote q = true)
      (hkey : ∀ c ∈ key, c ≠ q ∧ c ≠ '\\') (hvalue : IsValue value) :
      Written (q :: (key ++ [q]) ++ ':' :: ' ' :: value) (String.ofList key, String.ofList value)

/-! ### Entries -/

section Entry

variable {cs : List Char}

theorem splitColon?_of_plain {key : List Char} (h : ∀ c ∈ key, isPlain c = true)
    (value : List Char) : splitColon? none (key ++ ':' :: value) = some (key, value) := by
  induction key with
  | nil => rfl
  | cons c key ih =>
      obtain ⟨hc, hkey⟩ := List.forall_mem_cons.1 h
      have hcolon : (c == ':') = false := beq_eq_false_iff_ne.2 (ne_of_isPlain hc rfl)
      rw [List.cons_append, splitColon?, hcolon, (classes_of_isPlain hc).1]
      simp only [Bool.false_eq_true, if_false, ih hkey, Option.map_some]

theorem splitColon?_of_quoted {q : Char} (hq : isQuote q = true) {key : List Char}
    (h : ∀ c ∈ key, c ≠ q) (value : List Char) :
    splitColon? none (q :: (key ++ [q]) ++ ':' :: value) = some (q :: (key ++ [q]), value) := by
  have hwithin : splitColon? (some q) (key ++ q :: ':' :: value) = some (key ++ [q], value) := by
    induction key with
    | nil => simp [splitColon?]
    | cons c key ih =>
        obtain ⟨hc, hkey⟩ := List.forall_mem_cons.1 h
        simp [splitColon?, hc, ih hkey]
  have hcolon : (q == ':') = false := by
    rw [beq_eq_false_iff_ne]
    rintro rfl
    exact absurd hq (by decide)
  rw [List.cons_append, List.append_assoc, List.singleton_append, splitColon?, hcolon, hq]
  simp only [Bool.false_eq_true, if_false, if_true, hwithin, Option.map_some]

/-- What an entry is read as, when its key ends at its colon. -/
theorem objectEntry?_of_splitColon? {key value : List Char}
    (h : splitColon? none cs = some (key, ' ' :: value)) (hkey : IsTrimmed key)
    (hvalue : IsTrimmed value) :
    objectEntry? cs = some (String.ofList ((unquote? key).getD key), String.ofList value) := by
  have hblank : trim (' ' :: value) = value := by
    have hblanks : trim ([' '] ++ value ++ []) = trim value := trim_blanks rfl value rfl
    rw [List.append_nil, trim_of_isTrimmed hvalue] at hblanks
    exact hblanks
  unfold objectEntry?
  rw [h]
  simp only [Option.map_some, hblank, trim_of_isTrimmed hkey]

/-- An entry is read back: its key, in quotes or not, up to the first colon outside of quotes, and
its value behind it. -/
theorem objectEntry?_of_written {entry : String × String} (h : Written cs entry) :
    objectEntry? cs = some entry := by
  cases h with
  | plain hne hkey hvalue =>
      rw [objectEntry?_of_splitColon? (splitColon?_of_plain hkey _)
        (IsWord.plain hne hkey).isTrimmed hvalue.trimmed, unquote?_of_isPlain hkey]
      rfl
  | quoted hq hkey hvalue =>
      rw [objectEntry?_of_splitColon? (splitColon?_of_quoted hq (fun c hc => (hkey c hc).1) _)
        (IsWord.quoted hq hkey).isTrimmed hvalue.trimmed, unquote?_quoted hq]
      rfl

end Entry

/-! ### Texts in braces -/

theorem betweenBraces?_enclosed (inner : List Char) :
    betweenBraces? ('\x7b' :: (inner ++ ['\x7d'])) = some inner := by
  have hsuffix : stripSuffix? ['\x7d'] (inner ++ ['\x7d']) = some inner := by
    rw [stripSuffix?, List.reverse_append,
      stripPrefix?_eq_some_iff.2 (rfl : _ = ['\x7d'].reverse ++ inner.reverse)]
    exact congrArg some inner.reverse_reverse
  exact hsuffix

theorem trim_enclosed (inner : List Char) :
    trim ('\x7b' :: (inner ++ ['\x7d'])) = '\x7b' :: (inner ++ ['\x7d']) :=
  trim_of_isTrimmed (isTrimmed_between (by decide) (by decide) inner)

/-- A text in braces is read as the items between them. -/
theorem objectLiteral?_enclosed {s : String} {inner : List Char}
    (hs : s.toList = '\x7b' :: (inner ++ ['\x7d'])) :
    objectLiteral? s = ((splitArgs inner).filter (!·.isEmpty)).mapM objectEntry? := by
  rw [objectLiteral?, hs, trim_enclosed, betweenBraces?_enclosed]
  rfl

/-! ### Object literals -/

theorem ne_nil_of_written {cs : List Char} {entry : String × String} (h : Written cs entry) :
    cs ≠ [] := by
  cases h with
  | plain => exact List.append_ne_nil_of_right_ne_nil _ (List.cons_ne_nil _ _)
  | quoted => exact List.cons_ne_nil _ _

/-- An entry begins like its key and ends like its value. -/
theorem isTrimmed_of_written {cs : List Char} {entry : String × String} (h : Written cs entry) :
    IsTrimmed cs := by
  have hjoined {key value : List Char} (hkey : IsWord key) (hvalue : IsValue value) :
      IsTrimmed (key ++ ':' :: ' ' :: value) := by
    refine ⟨fun c hc => ?_, fun c hc => ?_⟩
    · rw [List.head?_append_of_ne_nil _ hkey.ne_nil] at hc
      exact hkey.isTrimmed.1 c hc
    · rw [List.getLast?_append_of_ne_nil _ (List.cons_ne_nil _ _), List.getLast?_cons_cons,
        ← List.singleton_append, List.getLast?_append_of_ne_nil _ hvalue.ne_nil] at hc
      exact hvalue.trimmed.2 c hc
  cases h with
  | plain hne hkey hvalue => exact hjoined (.plain hne hkey) hvalue
  | quoted hq hkey hvalue => exact hjoined (.quoted hq hkey) hvalue

theorem passes_of_written {cs : List Char} {entry : String × String} (h : Written cs entry) :
    Passes ',' .top cs .top := by
  have hcolon (value : List Char) (hvalue : IsValue value) :
      Passes ',' .top (':' :: ' ' :: value) .top :=
    .cons rfl (.inr (by decide)) (.inl rfl)
      (.cons rfl (.inr (by decide)) (.inl rfl) hvalue.hides.passes)
  cases h with
  | plain hne hkey hvalue =>
      exact ((IsWord.plain hne hkey).passes (by decide) (by decide) 0).append (hcolon _ hvalue)
  | quoted hq hkey hvalue =>
      exact ((IsWord.quoted hq hkey).passes (by decide) (by decide) 0).append (hcolon _ hvalue)

theorem reads_of_written {texts : List (List Char)} {entries : List (String × String)}
    (h : List.Forall₂ Written texts entries) :
    ∀ text ∈ texts, text ≠ [] ∧ IsTrimmed text ∧ Passes ',' .top text .top := by
  induction h with
  | nil => exact List.forall_mem_nil _
  | cons hentry _ ih =>
      exact List.forall_mem_cons.2
        ⟨⟨ne_nil_of_written hentry, isTrimmed_of_written hentry, passes_of_written hentry⟩, ih⟩

theorem mapM_objectEntry? {texts : List (List Char)} {entries : List (String × String)}
    (h : List.Forall₂ Written texts entries) : texts.mapM objectEntry? = some entries := by
  induction h with
  | nil => rfl
  | cons hentry _ ih =>
      rw [List.mapM_cons, objectEntry?_of_written hentry, ih]
      rfl

/-- Entries between commas and in braces are read back. What is written in an entry has no comma at
its top level, so the splitter gives the entries one by one. -/
theorem objectLiteral?_of_written {texts : List (List Char)} {entries : List (String × String)}
    (h : List.Forall₂ Written texts entries) :
    objectLiteral? (String.ofList ('\x7b' :: ([',', ' '].intercalate texts ++ ['\x7d']))) =
      some entries := by
  have hreads := reads_of_written h
  have hfilter : texts.filter (!·.isEmpty) = texts := by
    refine List.filter_eq_self.2 fun text htext => ?_
    rw [List.isEmpty_eq_false_iff.2 (hreads text htext).1]
    rfl
  rw [objectLiteral?_enclosed (String.toList_ofList ..), splitArgs_intercalate_of_passes hreads,
    hfilter]
  exact mapM_objectEntry? h

end Stencil.Attribute
