import Stencil.Proofs.Pipe.Place

/-!
# Expressions at the top level

What a scan for separators makes of the tokens of an expression.

## Main results

* `passes_lexeme` — a scan reads over the text of a token, unless this is what it looks for
* `splitTopLevel_of_parse` — an expression has no bar at its top level

## Design notes

Strings are left at the quote that ends them, whatever they hold, so that a scan stands outside of
quotes between any two tokens.  Bars are doubled wherever they are tokens.
-/

namespace Stencil.Pipe

open Text Stencil.Expr

variable {sep : Char} {d : Int}

/-- Within quotes a scan reads over everything up to the quote that ends the string. -/
theorem passes_string {q : Char} {body content : List Char} (h : StringBody q body content)
    (hsep : q ≠ sep) (d : Int) : Passes sep ⟨d, some q⟩ body ⟨d, none⟩ := by
  have hquoted : Nesting.isTop ⟨d, some q⟩ = false := Bool.and_false _
  induction h with
  | closing hq => exact .cons (after_unquoting q d) (.inr hsep) (.inr hq) .nil
  | escaped c _ ih => exact ih.escaped rfl
  | plain hbackslash hc _ ih =>
      exact .cons (after_quoted hc d) (.inl hquoted) (.inr hbackslash) ih

theorem passes_inert {word : List Char} (h : ∀ c ∈ word, isInert c = true) (hsep : sep ∉ word)
    (d : Int) : Passes sep ⟨d, none⟩ word ⟨d, none⟩ := by
  refine passes_ordinary fun c hc => ?_
  have hinert := h c hc
  simp only [isInert, Bool.and_eq_true, Bool.not_eq_true', bne_iff_ne] at hinert
  exact ⟨fun he => hsep (he ▸ hc), hinert.1.1.1, hinert.1.1.2, hinert.1.2⟩

theorem Passes.weightless {token : Token} {word : List Char}
    (h : Passes sep ⟨d, none⟩ word ⟨d, none⟩) (hweight : token.weight = 0) :
    Passes sep ⟨d, none⟩ word ⟨d + token.weight, none⟩ := by
  rwa [hweight, Int.add_zero]

theorem spellings_separators : ∀ entry ∈ Symbol.spellings,
    entry = (['|', '|'], .either) ∨ entry = ([','], .comma) ∨ ('|' ∉ entry.1 ∧ ',' ∉ entry.1) := by
  decide

/-- A symbol without separators is read over, and moves a scan by its weight. Of the symbols only
brackets have one. -/
theorem passes_symbol {s : Symbol} {word : List Char} (h : (word, s) ∈ Symbol.spellings)
    (hsep : sep ∉ word) (d : Int) :
    Passes sep ⟨d, none⟩ word ⟨d + (Token.symbol s).weight, none⟩ := by
  have hone : ∀ {c : Char}, sep ∉ [c] → c ≠ sep := fun hmem he =>
    hmem (he ▸ List.mem_singleton_self _)
  rcases spellings_brackets _ h with ⟨hall, hweight⟩ | ⟨hlength, hall, hweight⟩ |
    ⟨hlength, hall, hweight⟩
  · exact (passes_inert (List.all_eq_true.1 hall) hsep d).weightless hweight
  · obtain ⟨c, rfl⟩ := List.length_eq_one_iff.1 hlength
    have hc : opens c = true := List.all_eq_true.1 hall c List.mem_cons_self
    dsimp only at hweight
    rw [hweight]
    exact .cons (after_opening hc d) (.inr (hone hsep)) (.inl rfl) .nil
  · obtain ⟨c, rfl⟩ := List.length_eq_one_iff.1 hlength
    have hc : closes c = true := List.all_eq_true.1 hall c List.mem_cons_self
    have hafter := after_closing hc (d - 1)
    dsimp only at hweight
    rw [Int.sub_add_cancel] at hafter
    rw [hweight]
    exact .cons hafter (.inr (hone hsep)) (.inl rfl) .nil

/-- A scan for bars or commas reads over the text of a token, but for a comma outside of brackets.
-/
theorem passes_lexeme {token : Token} {word : List Char} (h : Lexeme token word)
    (hsep : sep = '|' ∨ sep = ',' ∧ (token = .symbol .comma → d ≠ 0)) :
    Passes sep ⟨d, none⟩ word ⟨d + token.weight, none⟩ := by
  have hclasses : isWordChar sep = false ∧ isQuote sep = false := by
    rcases hsep with rfl | ⟨rfl, -⟩
    · exact ⟨rfl, rfl⟩
    · exact ⟨rfl, rfl⟩
  cases h with
  | word htoken _ hchars =>
      have hnone : sep ∉ word := fun hmem =>
        Bool.false_ne_true (hclasses.1.symm.trans (hchars sep hmem))
      exact (passes_inert (fun c hc => isInert_of_isWordChar (hchars c hc)) hnone d).weightless
        (weight_of_isWord htoken)
  | @string q body content hq hbody =>
      have hne : q ≠ sep := by
        rintro rfl
        exact Bool.false_ne_true (hclasses.2.symm.trans hq)
      have hstring : Passes sep ⟨d, none⟩ (q :: body) ⟨d, none⟩ :=
        .cons (after_quoting hq d) (.inr hne) (.inl rfl) (passes_string hbody hne d)
      exact hstring.weightless rfl
  | @symbol s word hmem =>
      rcases spellings_separators _ hmem with he | he | ⟨hbar, hcomma⟩
      -- The operator of two bars, a comma, and a symbol that is neither.
      · obtain ⟨rfl, rfl⟩ := Prod.mk.inj he
        rcases hsep with rfl | ⟨rfl, -⟩
        · have hbars : Passes '|' ⟨d, none⟩ ['|', '|'] ⟨d, none⟩ := .bars rfl .nil
          exact hbars.weightless rfl
        · exact passes_symbol hmem (by decide) d
      · obtain ⟨rfl, rfl⟩ := Prod.mk.inj he
        rcases hsep with rfl | ⟨rfl, hdepth⟩
        -- A comma separates at the top level only, and there is none here.
        · exact passes_symbol hmem (by decide) d
        · have htop : Nesting.isTop ⟨d, none⟩ = false := by
            simpa [Nesting.isTop] using hdepth rfl
          have hinside : Passes ',' ⟨d, none⟩ [','] ⟨d, none⟩ :=
            .cons (after_ordinary rfl rfl rfl d) (.inl htop) (.inl rfl) .nil
          exact hinside.weightless rfl
      · rcases hsep with rfl | ⟨rfl, -⟩
        · exact passes_symbol hmem hbar d
        · exact passes_symbol hmem hcomma d

/-- A scan for bars reads over tokens, and comes to their depth. -/
theorem passes_lexes {rest cs : List Char} {tokens : List Token} (h : Lexes rest cs tokens)
    (d : Int) : Passes '|' ⟨d, none⟩ cs ⟨d + depth tokens, none⟩ := by
  induction h generalizing d with
  | nil =>
      rw [depth_nil, Int.add_zero]
      exact .nil
  | @blank c cs tokens hc _ ih =>
      have hblank : Passes '|' ⟨d, none⟩ [c] ⟨d, none⟩ :=
        passes_blank (by decide) (List.all_eq_true.2 (List.forall_mem_singleton.2 hc))
      exact hblank.append (ih d)
  | @token token text cs tokens hspells _ ih =>
      rw [depth_cons, ← Int.add_assoc]
      exact (passes_lexeme hspells.lexeme (.inl rfl)).append (ih _)

/-- An expression has no bar at its top level. Its operator of two bars does not separate, and there
is no operator of one. -/
theorem splitTopLevel_of_parse {source : String} {e : Expr} (h : Expr.parse source = .ok e) :
    splitTopLevel '|' source.toList = [source.toList] := by
  unfold Expr.parse at h
  split at h
  · rename_i ts hts
    have hwhole := passes_lexes (lexes_of_tokenize hts) 0 []
    rwa [splitFrom, foldr_extendFirst, List.append_nil] at hwhole
  · cases h

end Stencil.Pipe
