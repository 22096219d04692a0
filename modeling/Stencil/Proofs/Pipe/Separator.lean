import Mathlib
import Stencil.Proofs.Pipe.TopLevel

/-!
# Separators

Where a text is divided, told for its characters, its bytes and its tokens.

## Main definitions

* `pieceEnds` — the byte positions at which pieces end
* `IsOuterComma` — a comma among tokens that stands outside of brackets

## Main results

* `intercalate_splitFrom` — the pieces of a text make it up
* `splitTopLevel_of_mem` — a piece is not divided again
* `positionsFrom_utf8` — the separators among the bytes of a text are where its pieces end
* `mem_pieceEnds_of_lexesAt` — pieces end at the commas among the tokens that stand outside of
  brackets
* `hasTopLevelPipe_eq` — a text is a chain if its bytes have a bar at their top level
* `topLevelPositions_agree` — all of this for the two separators in use

## Design notes

The bytes of a character that is not ASCII are all above those that a scan takes notice of.  So it
goes over them one by one where it would go over the character, also where only the first of them
is escaped.
-/

namespace Stencil.Pipe

open Text Stencil.Expr

/-- The positions at which pieces separated by one-byte separators end, but for the last one. -/
def pieceEnds : (start : Nat) → List (List Char) → List Nat
  | _, [] => []
  | _, [_] => []
  | start, piece :: pieces =>
    let ending := start + byteLength piece
    ending :: pieceEnds (ending + 1) pieces

variable {sep : Char} {n n' : Nesting} {position : Nat} {cs : List Char} {bytes : List UInt8}

/-! ### Single characters -/

/-- Only outside of everything a character separates. -/
theorem eq_of_separates {c : Char} (h : (n.isTop && c == sep) = true) : n = .top ∧ c = sep := by
  obtain ⟨depth, quote⟩ := n
  rw [Bool.and_eq_true, Nesting.isTop, Bool.and_eq_true, beq_iff_eq, beq_iff_eq,
    Option.isNone_iff_eq_none] at h
  obtain ⟨⟨rfl, rfl⟩, rfl⟩ := h
  exact ⟨rfl, rfl⟩

theorem not_separates_iff {c : Char} :
    ¬ (n.isTop && c == sep) = true ↔ n.isTop = false ∨ c ≠ sep := by
  rw [Bool.and_eq_true, beq_iff_eq, not_and_or, Bool.not_eq_true]

theorem not_escapes_iff {c : Char} :
    ¬ (c == '\\' && n.quote.isSome) = true ↔ n.quote = none ∨ c ≠ '\\' := by
  rw [Bool.and_eq_true, beq_iff_eq, not_and_or, Option.not_isSome_iff_eq_none, or_comm]

/-! ### Pieces -/

theorem intercalate_extendFirst (c : Char) (pieces : List (List Char)) :
    [sep].intercalate (extendFirst c pieces) = c :: [sep].intercalate pieces := by
  rcases pieces with _ | ⟨piece, _ | ⟨next, pieces⟩⟩
  · rfl
  · simp only [extendFirst, List.intercalate_singleton]
  · simp only [extendFirst, List.intercalate_cons_cons, List.cons_append]

/-- The pieces of a text make it up, with separators between them. So splitting loses nothing,
wherever it begins. -/
theorem intercalate_splitFrom (sep : Char) (n : Nesting) (cs : List Char) :
    [sep].intercalate (splitFrom sep n cs) = cs := by
  fun_induction splitFrom sep n cs with
  | case1 => rfl
  | case2 n c hsep =>
      rw [(eq_of_separates hsep).2]
      rfl
  | case3 => rfl
  | case4 n c d cs _ ih => rw [intercalate_extendFirst, intercalate_extendFirst, ih]
  | case5 n c d cs _ _ _ ih => rw [intercalate_extendFirst, intercalate_extendFirst, ih]
  | case6 n c d cs _ hsep _ ih =>
      obtain ⟨piece, pieces, hpieces, -⟩ := exists_first_piece sep n (d :: cs)
      rw [hpieces] at ih ⊢
      rw [List.intercalate_cons_cons, ih, (eq_of_separates hsep).2]
      rfl
  | case7 n c d cs _ _ ih => rw [intercalate_extendFirst, ih]

/-- A piece is not divided again: the first one from where the scan stood, the others from outside
of everything. -/
theorem exists_pieces (sep : Char) (n : Nesting) (cs : List Char) :
    ∃ piece pieces, splitFrom sep n cs = piece :: pieces ∧ splitFrom sep n piece = [piece] ∧
      ∀ other ∈ pieces, splitFrom sep .top other = [other] := by
  fun_induction splitFrom sep n cs with
  | case1 => exact ⟨[], [], rfl, rfl, List.forall_mem_nil _⟩
  | case2 => exact ⟨[], [[]], rfl, rfl, List.forall_mem_singleton.2 rfl⟩
  | case3 n c hsep => exact ⟨[c], [], rfl, if_neg hsep, List.forall_mem_nil _⟩
  | case4 n c d cs hescape ih =>
      obtain ⟨piece, pieces, hpieces, hpiece, hothers⟩ := ih
      refine ⟨c :: d :: piece, pieces, by rw [hpieces]; rfl, ?_, hothers⟩
      rw [splitFrom, if_pos hescape, hpiece]
      rfl
  | case5 n c d cs hescape hsep hbars ih =>
      obtain ⟨piece, pieces, hpieces, hpiece, hothers⟩ := ih
      refine ⟨c :: d :: piece, pieces, by rw [hpieces]; rfl, ?_, hothers⟩
      rw [splitFrom, if_neg hescape, if_pos hsep, if_pos hbars, hpiece]
      rfl
  | case6 n c d cs _ hsep _ ih =>
      obtain rfl := (eq_of_separates hsep).1
      obtain ⟨piece, pieces, hpieces, hpiece, hothers⟩ := ih
      exact ⟨[], piece :: pieces, by rw [hpieces], rfl, List.forall_mem_cons.2 ⟨hpiece, hothers⟩⟩
  | case7 n c d cs hescape hsep ih =>
      obtain ⟨piece, pieces, hpieces, hpiece, hothers⟩ := ih
      refine ⟨c :: piece, pieces, by rw [hpieces]; rfl, ?_, hothers⟩
      rw [splitFrom_cons (not_separates_iff.1 hsep) (not_escapes_iff.1 hescape), hpiece]
      rfl

/-- No piece has a separator of its own. A piece is scanned anew from the top level, and would be
split if the scan met one. -/
theorem splitTopLevel_of_mem {piece : List Char} (h : piece ∈ splitTopLevel sep cs) :
    splitTopLevel sep piece = [piece] := by
  obtain ⟨first, others, hpieces, hfirst, hothers⟩ := exists_pieces sep .top cs
  rw [splitTopLevel, hpieces] at h
  rcases List.mem_cons.1 h with rfl | hmem
  · exact hfirst
  · exact hothers piece hmem

/-! ### Characters of several bytes -/

theorem utf8Size_eq_one_iff {c : Char} : c.utf8Size = 1 ↔ c.val.toNat ≤ 127 := by
  rw [Char.utf8Size_eq_one_iff, UInt32.le_iff_toNat_le]
  rfl

/-- A character of one byte is the one that the byte stands for. -/
theorem ofUInt8_toUInt8 {c : Char} (h : c.utf8Size = 1) : Char.ofUInt8 c.val.toUInt8 = c := by
  rw [utf8Size_eq_one_iff] at h
  refine Char.ext (UInt32.toNat_inj.1 ?_)
  show c.val.toUInt8.toUInt32.toNat = _
  rw [UInt8.toNat_toUInt32, UInt32.toNat_toUInt8]
  omega

section Wide

variable {c : Char} (hc : c.utf8Size ≠ 1)

include hc

theorem ne_of_utf8Size_ne {d : Char} (hd : d.utf8Size = 1) : c ≠ d := by
  rintro rfl
  exact hc hd

/-- No byte of a character that has several stands for a character that has one. -/
theorem utf8Size_ne_of_mem : ∀ b ∈ String.utf8EncodeChar c, (Char.ofUInt8 b).utf8Size ≠ 1 := by
  have hhigh : ∀ {b : UInt8}, 127 < b.toNat → (Char.ofUInt8 b).utf8Size ≠ 1 := by
    intro b hb hone
    rw [utf8Size_eq_one_iff] at hone
    exact absurd hb (Nat.not_lt.2 hone)
  rw [Ne, utf8Size_eq_one_iff, Nat.not_le] at hc
  refine fun b hb => hhigh ?_
  revert b
  fun_cases String.utf8EncodeChar c with
  | case1 _ hle => exact absurd hle (Nat.not_le.2 hc)
  | _ =>
      simp only [List.forall_mem_cons, List.not_mem_nil, false_implies, implies_true, and_true,
        UInt8.toNat_ofNat']
      omega

/-- What nests and quotes has one byte, so a longer character leaves a scan where it is. -/
theorem after_of_utf8Size_ne (hn : ∀ q ∈ n.quote, isQuote q = true) : n.after c = n := by
  have hne : ∀ {d : Char}, d.utf8Size = 1 → (c == d) = false := fun hd =>
    beq_eq_false_iff_ne.2 (ne_of_utf8Size_ne hc hd)
  obtain ⟨depth, quote⟩ := n
  rcases quote with _ | q
  · refine after_ordinary ?_ ?_ ?_ depth
    · rw [isQuote, hne rfl, hne rfl]
      rfl
    · rw [opens, hne rfl, hne rfl, hne rfl]
      rfl
    · rw [closes, hne rfl, hne rfl, hne rfl]
      rfl
  · refine after_quoted (ne_of_utf8Size_ne hc ?_) depth
    have hq : isQuote q = true := hn q rfl
    simp only [isQuote, Bool.or_eq_true, beq_iff_eq] at hq
    rcases hq with rfl | rfl
    · rfl
    · rfl

end Wide

/-! ### Bytes -/

/-- A byte that neither separates nor escapes is passed over. -/
theorem positionsFrom_cons {b : UInt8} (hseparates : n.isTop = false ∨ Char.ofUInt8 b ≠ sep)
    (hescapes : n.quote = none ∨ Char.ofUInt8 b ≠ '\\') :
    positionsFrom sep 0 position n (b :: bytes) =
      positionsFrom sep 0 (position + 1) (n.after (Char.ofUInt8 b)) bytes := by
  rw [positionsFrom]
  simp only [if_neg (not_escapes_iff.2 hescapes), if_neg (not_separates_iff.2 hseparates)]

section Scan

variable (hsep : sep.utf8Size = 1) (hn : ∀ q ∈ n.quote, isQuote q = true)

include hsep hn

theorem positionsFrom_append {bs : List UInt8} (hbs : ∀ b ∈ bs, (Char.ofUInt8 b).utf8Size ≠ 1)
    (position : Nat) :
    positionsFrom sep 0 position n (bs ++ bytes) =
      positionsFrom sep 0 (position + bs.length) n bytes := by
  induction bs generalizing position with
  | nil => rfl
  | cons b bs ih =>
      obtain ⟨hb, hbs⟩ := List.forall_mem_cons.1 hbs
      rw [List.cons_append, positionsFrom_cons (.inr (ne_of_utf8Size_ne hb hsep))
        (.inr (ne_of_utf8Size_ne hb rfl)), after_of_utf8Size_ne hb hn, ih hbs, List.length_cons,
        Nat.add_assoc, Nat.add_comm 1]

/-- A character that is escaped counts for nothing, although only its first byte is passed over. -/
theorem positionsFrom_skip (c : Char) :
    positionsFrom sep 1 position n (String.utf8EncodeChar c ++ bytes) =
      positionsFrom sep 0 (position + c.utf8Size) n bytes := by
  by_cases hc : c.utf8Size = 1
  · rw [String.utf8EncodeChar_eq_singleton hc, hc]
    rfl
  · have hwide := utf8Size_ne_of_mem hc
    have hne : String.utf8EncodeChar c ≠ [] := String.utf8EncodeChar_ne_nil
    rw [← String.length_utf8EncodeChar c]
    generalize String.utf8EncodeChar c = bs at hwide hne
    rcases bs with _ | ⟨b, bs⟩
    · exact absurd rfl hne
    · rw [List.cons_append, positionsFrom,
        positionsFrom_append hsep hn (List.forall_mem_cons.1 hwide).2, List.length_cons,
        Nat.add_assoc, Nat.add_comm 1]

/-- A character that neither separates nor escapes moves a scan as a whole. -/
theorem positionsFrom_char {c : Char} (hseparates : n.isTop = false ∨ c ≠ sep)
    (hescapes : n.quote = none ∨ c ≠ '\\') :
    positionsFrom sep 0 position n (String.utf8EncodeChar c ++ bytes) =
      positionsFrom sep 0 (position + c.utf8Size) (n.after c) bytes := by
  by_cases hc : c.utf8Size = 1
  · rw [String.utf8EncodeChar_eq_singleton hc, List.singleton_append, hc]
    rw [← ofUInt8_toUInt8 hc] at hseparates hescapes
    rw [positionsFrom_cons hseparates hescapes, ofUInt8_toUInt8 hc]
  · rw [positionsFrom_append hsep hn (utf8Size_ne_of_mem hc), after_of_utf8Size_ne hc hn,
      String.length_utf8EncodeChar]

end Scan

/-- A text begins with a character of one byte exactly if its bytes do. -/
theorem head?_utf8_cons {c : Char} (hc : c.utf8Size = 1) (d : Char) (cs : List Char) :
    ((utf8 (d :: cs)).head? == some c.val.toUInt8) = (d == c) := by
  rw [utf8_cons, Bool.eq_iff_iff, beq_iff_eq, beq_iff_eq]
  by_cases hd : d.utf8Size = 1
  · rw [String.utf8EncodeChar_eq_singleton hd, List.singleton_append, List.head?_cons,
      Option.some_inj]
    refine ⟨fun h => ?_, fun h => h ▸ rfl⟩
    rw [← ofUInt8_toUInt8 hd, h, ofUInt8_toUInt8 hc]
  · refine ⟨fun h => ?_, fun h => absurd h (ne_of_utf8Size_ne hd hc)⟩
    have hne : String.utf8EncodeChar d ≠ [] := String.utf8EncodeChar_ne_nil
    rw [List.head?_append_of_ne_nil _ hne] at h
    have hsize := utf8Size_ne_of_mem hd _ (List.mem_of_mem_head? h)
    rw [ofUInt8_toUInt8 hc] at hsize
    exact absurd hc hsize

theorem positionsFrom_escape (hquote : n.quote.isSome = true) (cs : List Char) :
    positionsFrom sep 0 position n (utf8 ('\\' :: cs)) =
      positionsFrom sep 1 (position + 1) n (utf8 cs) := by
  have hone : Char.utf8Size '\\' = 1 := rfl
  rw [utf8_cons, String.utf8EncodeChar_eq_singleton hone, List.singleton_append, positionsFrom]
  simp only [ofUInt8_toUInt8 hone, hquote, beq_self_eq_true, Bool.and_self, if_true]

theorem positionsFrom_separator (hsep : sep.utf8Size = 1) (cs : List Char) :
    positionsFrom sep 0 position .top (utf8 (sep :: cs)) =
      if sep == '|' && (utf8 cs).head? == some '|'.toUInt8 then
        positionsFrom sep 1 (position + 1) .top (utf8 cs)
      else position :: positionsFrom sep 0 (position + 1) .top (utf8 cs) := by
  have htop : (Nesting.top.isTop && sep == sep) = true := by
    rw [beq_self_eq_true]
    rfl
  have hescape : ¬ (sep == '\\' && Nesting.top.quote.isSome) = true :=
    Bool.eq_false_iff.1 (Bool.and_false _)
  rw [utf8_cons, String.utf8EncodeChar_eq_singleton hsep, List.singleton_append, positionsFrom]
  simp only [ofUInt8_toUInt8 hsep, if_neg hescape, if_pos htop]

/-! ### Ends of pieces -/

theorem pieceEnds_append (start : Nat) (word piece : List Char) (pieces : List (List Char)) :
    pieceEnds start ((word ++ piece) :: pieces) =
      pieceEnds (start + byteLength word) (piece :: pieces) := by
  cases pieces with
  | nil => rfl
  | cons next pieces =>
      simp only [pieceEnds, byteLength_append, Nat.add_assoc]

/-- What goes to the first piece moves the ends. -/
theorem pieceEnds_foldr (start : Nat) (word : List Char) (sep : Char) (n : Nesting)
    (cs : List Char) :
    pieceEnds start (word.foldr extendFirst (splitFrom sep n cs)) =
      pieceEnds (start + byteLength word) (splitFrom sep n cs) := by
  obtain ⟨piece, pieces, hpieces, -⟩ := exists_first_piece sep n cs
  rw [hpieces, foldr_extendFirst, pieceEnds_append]

/-- The separators among the bytes of a text are where its pieces end. No byte of a longer character
is one of the marks that the scan over bytes looks for. -/
theorem positionsFrom_utf8 (hsep : sep.utf8Size = 1) (hn : ∀ q ∈ n.quote, isQuote q = true)
    (position : Nat) (cs : List Char) :
    positionsFrom sep 0 position n (utf8 cs) = pieceEnds position (splitFrom sep n cs) := by
  have hbar : ∀ d cs, ((utf8 (d :: cs)).head? == some '|'.toUInt8) = (d == '|') :=
    head?_utf8_cons rfl
  fun_induction splitFrom sep n cs generalizing position with
  | case1 => rfl
  -- The last character is a separator.
  | case2 n c h =>
      obtain ⟨rfl, rfl⟩ := eq_of_separates h
      rw [positionsFrom_separator hsep, if_neg (by simp [utf8])]
      rfl
  | case3 n c h =>
      -- The last character is none: it may be escaping the end of the text.
      by_cases hescape : (c == '\\' && n.quote.isSome) = true
      · rw [Bool.and_eq_true, beq_iff_eq] at hescape
        obtain ⟨rfl, hquote⟩ := hescape
        rw [positionsFrom_escape hquote]
        rfl
      · rw [utf8_cons, positionsFrom_char hsep hn (not_separates_iff.1 h)
          (not_escapes_iff.1 hescape)]
        rfl
  -- An escape is passed over with the character behind it, which may have several bytes.
  | case4 n c d cs hescape ih =>
      rw [Bool.and_eq_true, beq_iff_eq] at hescape
      obtain ⟨rfl, hquote⟩ := hescape
      rw [positionsFrom_escape hquote, utf8_cons, positionsFrom_skip hsep hn, ih hn, Nat.add_assoc]
      exact (pieceEnds_foldr position ['\\', d] sep n cs).symm
  -- Two bars in a row do not separate.
  | case5 n c d cs _ h hbars ih =>
      obtain ⟨rfl, rfl⟩ := eq_of_separates h
      rw [positionsFrom_separator hsep, hbar d cs, if_pos hbars, utf8_cons,
        positionsFrom_skip hsep hn, ih hn, Nat.add_assoc, ← hsep]
      exact (pieceEnds_foldr position [c, d] c .top cs).symm
  -- A separator ends its piece.
  | case6 n c d cs _ h hbars ih =>
      obtain ⟨rfl, rfl⟩ := eq_of_separates h
      obtain ⟨piece, pieces, hpieces, -⟩ := exists_first_piece c .top (d :: cs)
      rw [positionsFrom_separator hsep, hbar d cs, if_neg hbars, ih hn, hpieces]
      rfl
  -- Any other character is part of the piece.
  | case7 n c d cs hescape h ih =>
      have hafter : ∀ q ∈ (n.after c).quote, isQuote q = true := by
        rw [quote_after]
        exact isQuote_quoteAfter hn c
      rw [utf8_cons, positionsFrom_char hsep hn (not_separates_iff.1 h)
        (not_escapes_iff.1 hescape), ih hafter]
      exact (pieceEnds_foldr position [c] sep (n.after c) (d :: cs)).symm

/-- What a scan reads over moves the ends. -/
theorem Passes.pieceEnds {word : List Char} (h : Passes sep n word n') (start : Nat)
    (rest : List Char) :
    Pipe.pieceEnds start (splitFrom sep n (word ++ rest)) =
      Pipe.pieceEnds (start + byteLength word) (splitFrom sep n' rest) := by
  rw [h rest, pieceEnds_foldr]

/-- The positions of separators come in their order. -/
theorem pairwise_positionsFrom (sep : Char) (skip position : Nat) (n : Nesting)
    (bytes : List UInt8) :
    (∀ p ∈ positionsFrom sep skip position n bytes, position ≤ p) ∧
      (positionsFrom sep skip position n bytes).Pairwise (· < ·) := by
  fun_induction positionsFrom sep skip position n bytes with
  | case1 => exact ⟨List.forall_mem_nil _, .nil⟩
  | case5 position n b bytes c _ _ _ ih =>
      exact ⟨List.forall_mem_cons.2 ⟨Nat.le_refl _, fun p hp => Nat.le_of_lt (ih.1 p hp)⟩,
        List.pairwise_cons.2 ⟨ih.1, ih.2⟩⟩
  | _ =>
      rename_i ih
      exact ⟨fun p hp => Nat.le_of_lt (ih.1 p hp), ih.2⟩

/-! ### Commas -/

/-- A comma among tokens that stands outside of brackets, as seen from a depth. -/
def IsOuterComma (d : Int) (ts : Tokens) (position : Nat) : Prop :=
  ∃ before after, ts = before ++ (position, .symbol .comma) :: after ∧
    d + depth (before.map Prod.snd) = 0

theorem isOuterComma_nil : ¬ IsOuterComma d [] position := by
  rintro ⟨before, after, h, -⟩
  exact absurd h (by simp)

theorem isOuterComma_cons {start : Nat} {token : Token} {ts : Tokens} :
    IsOuterComma d ((start, token) :: ts) position ↔
      (start = position ∧ token = .symbol .comma ∧ d = 0) ∨
        IsOuterComma (d + token.weight) ts position := by
  constructor
  · rintro ⟨_ | ⟨first, before⟩, after, hts, hdepth⟩
    · obtain ⟨hfirst, rfl⟩ := List.cons.inj hts
      obtain ⟨rfl, rfl⟩ := Prod.mk.inj hfirst
      exact .inl ⟨rfl, rfl, by simpa using hdepth⟩
    · obtain ⟨rfl, rfl⟩ := List.cons.inj hts
      rw [List.map_cons, depth_cons, ← Int.add_assoc] at hdepth
      exact .inr ⟨before, after, rfl, hdepth⟩
  · rintro (⟨rfl, rfl, rfl⟩ | ⟨before, after, rfl, hdepth⟩)
    · exact ⟨[], ts, rfl, rfl⟩
    · refine ⟨(start, token) :: before, after, rfl, ?_⟩
      rwa [List.map_cons, depth_cons, ← Int.add_assoc]

theorem eq_comma_of_lexeme {word : List Char} (h : Lexeme (.symbol .comma) word) :
    word = [','] := by
  have hspelling : ∀ entry ∈ Symbol.spellings, entry.2 = .comma → entry.1 = [','] := by
    decide
  cases h with
  | word htoken => exact Bool.noConfusion htoken
  | symbol hmem => exact hspelling _ hmem rfl

/-- A comma at the top level ends a piece. -/
theorem pieceEnds_comma (start : Nat) (cs : List Char) :
    pieceEnds start (splitFrom ',' ⟨0, none⟩ (',' :: cs)) =
      start :: pieceEnds (start + 1) (splitFrom ',' ⟨0, none⟩ cs) := by
  rcases cs with _ | ⟨c, cs⟩
  · rfl
  · obtain ⟨piece, pieces, hpieces, -⟩ := exists_first_piece ',' ⟨0, none⟩ (c :: cs)
    have hsplit : splitFrom ',' ⟨0, none⟩ (',' :: c :: cs) =
        [] :: splitFrom ',' ⟨0, none⟩ (c :: cs) := rfl
    rw [hsplit, hpieces]
    rfl

/-- Pieces end at the commas among the tokens that stand outside of brackets. The scan over
characters and the one over tokens keep the same depth and agree on the strings. -/
theorem mem_pieceEnds_of_lexesAt {start : Nat} {ts : Tokens} (h : LexesAt start cs ts) (d : Int) :
    position ∈ pieceEnds start (splitFrom ',' ⟨d, none⟩ cs) ↔ IsOuterComma d ts position := by
  induction h generalizing d with
  | nil => exact iff_of_false List.not_mem_nil isOuterComma_nil
  | @blank start c cs ts hc _ ih =>
      have hblank : Passes ',' ⟨d, none⟩ [c] ⟨d, none⟩ :=
        passes_blank (by decide) (List.all_eq_true.2 (List.forall_mem_singleton.2 hc))
      have hends := hblank.pieceEnds start cs
      rw [List.singleton_append] at hends
      rw [hends]
      exact ih d
  | @token start token text cs ts hspells _ ih =>
      rw [isOuterComma_cons, ← ih]
      by_cases hcomma : token = .symbol .comma ∧ d = 0
      · obtain ⟨rfl, rfl⟩ := hcomma
        rw [eq_comma_of_lexeme hspells.lexeme, List.singleton_append, pieceEnds_comma,
          List.mem_cons]
        exact or_congr_left (eq_comm.trans (and_iff_left ⟨rfl, rfl⟩).symm)
      · have hlexeme := passes_lexeme (d := d) hspells.lexeme
          (.inr ⟨rfl, fun htoken hd => hcomma ⟨htoken, hd⟩⟩)
        rw [hlexeme.pieceEnds start cs, or_iff_right fun h => hcomma h.2]

/-! ### Agreement -/

theorem topLevelPositions_eq (hsep : sep.utf8Size = 1) (cs : List Char) :
    topLevelPositions sep cs = pieceEnds 0 (splitTopLevel sep cs) :=
  positionsFrom_utf8 hsep (valid_outside 0).isQuote 0 cs

/-- A text has a bar at its top level if its bytes do, which is the test that decides between the
two routes of a condition. -/
theorem hasTopLevelPipe_eq (s : String) :
    hasTopLevelPipe s = !(topLevelPositions '|' s.toList).isEmpty := by
  obtain ⟨piece, pieces, hpieces, -⟩ := exists_first_piece '|' .top s.toList
  rw [topLevelPositions_eq rfl, hasTopLevelPipe, splitTopLevel, hpieces]
  cases pieces with
  | nil => rfl
  | cons next pieces => simp [pieceEnds]

/-- The pieces of a text, the separators among its bytes and the commas among its tokens agree: the
pieces make up the text and have no separators of their own, the separators stand where pieces end,
and those that are commas are the tokens before which as many brackets are opened as closed. -/
theorem topLevelPositions_agree (s : String) :
    (∀ sep, sep = ',' ∨ sep = '|' →
      [sep].intercalate (splitTopLevel sep s.toList) = s.toList ∧
      (∀ piece ∈ splitTopLevel sep s.toList, topLevelPositions sep piece = []) ∧
      topLevelPositions sep s.toList = pieceEnds 0 (splitTopLevel sep s.toList) ∧
      (topLevelPositions sep s.toList).Pairwise (· < ·)) ∧
    ∀ ts, tokenize s = .ok ts → ∀ position,
      position ∈ topLevelPositions ',' s.toList ↔
        ∃ before after, ts = before ++ (position, .symbol .comma) :: after ∧
          depth (before.map Prod.snd) = 0 := by
  constructor
  · intro sep hsep
    have hone : sep.utf8Size = 1 := by
      rcases hsep with rfl | rfl
      · rfl
      · rfl
    refine ⟨intercalate_splitFrom sep .top s.toList, fun piece hpiece => ?_,
      topLevelPositions_eq hone s.toList, (pairwise_positionsFrom sep 0 0 .top _).2⟩
    rw [topLevelPositions_eq hone, splitTopLevel_of_mem hpiece]
    rfl
  · intro ts hts position
    have hcommas : position ∈ pieceEnds 0 (splitFrom ',' ⟨0, none⟩ s.toList) ↔
        IsOuterComma 0 ts position := mem_pieceEnds_of_lexesAt (lexesAt_of_tokenize hts) 0
    simp only [IsOuterComma, Int.zero_add] at hcommas
    rw [topLevelPositions_eq rfl]
    exact hcommas

/-- A comma in a string, after a character of two bytes that is escaped, and one within brackets of
two kinds. -/
theorem topLevelPositions_agree_escaped :
    tokenize "'\\é,', f([a, b)), c" = .ok [(0, .str "é,"), (6, .symbol .comma), (8, .name "f"),
        (9, .symbol .openParen), (10, .symbol .openBracket), (11, .name "a"),
        (12, .symbol .comma), (14, .name "b"), (15, .symbol .closeParen),
        (16, .symbol .closeParen), (17, .symbol .comma), (19, .name "c")] ∧
      splitTopLevel ',' "'\\é,', f([a, b)), c".toList =
        ["'\\é,'".toList, " f([a, b))".toList, " c".toList] ∧
      topLevelPositions ',' "'\\é,', f([a, b)), c".toList = [6, 17] ∧
      [','].intercalate ["'\\é,'".toList, " f([a, b))".toList, " c".toList] =
        "'\\é,', f([a, b)), c".toList ∧
      ∃ before after, [(0, .str "é,"), (6, .symbol .comma), (8, .name "f"),
          (9, .symbol .openParen), (10, .symbol .openBracket), (11, .name "a"),
          (12, .symbol .comma), (14, .name "b"), (15, .symbol .closeParen),
          (16, .symbol .closeParen), (17, .symbol .comma), (19, .name "c")] =
        before ++ (17, .symbol .comma) :: after ∧ depth (before.map Prod.snd) = 0 := by
  have htokens : tokenize "'\\é,', f([a, b)), c" = .ok [(0, .str "é,"), (6, .symbol .comma),
      (8, .name "f"), (9, .symbol .openParen), (10, .symbol .openBracket), (11, .name "a"),
      (12, .symbol .comma), (14, .name "b"), (15, .symbol .closeParen),
      (16, .symbol .closeParen), (17, .symbol .comma), (19, .name "c")] := by cbv
  have hpieces : splitTopLevel ',' "'\\é,', f([a, b)), c".toList =
      ["'\\é,'".toList, " f([a, b))".toList, " c".toList] := by cbv
  have hpositions : topLevelPositions ',' "'\\é,', f([a, b)), c".toList = [6, 17] := by cbv
  obtain ⟨hseparators, hcommas⟩ := topLevelPositions_agree "'\\é,', f([a, b)), c"
  refine ⟨htokens, hpieces, hpositions, ?_, (hcommas _ htokens 17).1 (by rw [hpositions]; decide)⟩
  rw [← hpieces]
  exact (hseparators ',' (.inl rfl)).1

end Stencil.Pipe
