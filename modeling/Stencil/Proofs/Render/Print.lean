import Stencil.Engine
import Stencil.Proofs.Render.Output

/-!
# What a render prints

## Main definitions

* `Render.output?` — the trees that a render prints
* `Render.ShownOnce` — how the text of a node is shown, with its values escaped once
* `Render.IsPage` — a source and some variables give a page with a piece

## Main results

* `Render.page_eq_printForest` — a page is its trees in print
* `Render.shownOnce_of_page` — whatever the escaping of possibly escaped text decides, values are
  escaped once, and not at all in raw text
* `Render.takeStartTag_of_page` — the start tags that are read as they were written

## Design notes

Evaluation escapes values by the tag of the element around a text, and the printer escapes by what
it met on the way down and by how the text looks.  That the two agree on raw text is what `Output`
is about; that the second escaping leaves the values alone is a fact about their marks.
-/

namespace Stencil.Render

open Markup Interpolation Text

/-- The trees that rendering a template prints. -/
def output? (depth : Nat) (t : Template) (library : Library) (scope : Scope) :
    Option (List Tree) :=
  match (template (nodes depth) t).run (Context.new library scope) with
  | (.ok roots, c) => roots.mapM c.out.tree?
  | (.error _, _) => none

variable {depth : Nat} {t : Template} {library : Library} {scope : Scope} {html : String}

/-- A page is its trees in print. What can be said of the output as trees is thereby said of the
text. -/
theorem page_eq_printForest
    (h : ((pageWithin depth t).run (Context.new library scope)).1 = .ok html) :
    ∃ forest, output? depth t library scope = some forest ∧ printForest forest = html := by
  obtain ⟨c', hrun⟩ : ∃ c', (pageWithin depth t).run (Context.new library scope) = (.ok html, c') :=
    ⟨_, Prod.ext h rfl⟩
  obtain ⟨roots, c, htemplate, hrun⟩ := Act.exists_of_run_bind hrun
  rw [markup, Act.run_get_bind] at hrun
  rw [output?, htemplate]
  cases hforest : roots.mapM c.out.tree? with
  | none =>
      rw [hforest] at hrun
      exact nomatch congrArg Prod.fst hrun
  | some forest =>
      rw [hforest] at hrun
      exact ⟨forest, hforest, Except.ok.inj (congrArg Prod.fst hrun)⟩

/-- What the trees that a render prints are made of. -/
theorem made_of_output? {forest : List Tree} (ht : t.Parsed)
    (h : output? depth t library scope = some forest) :
    ∀ tree ∈ forest, tree.Made (TextOrigin (.template depth t) (Context.new library scope))
      IsStartTag false := by
  unfold output? at h
  split at h
  · rename_i roots c hrun
    intro tree htree
    obtain ⟨root, hroot, hget⟩ := Arena.exists_of_forall₂ (Arena.forall₂_of_mapM h) htree
    exact (made_template ht hrun root hroot).tree hget
  · exact nomatch h

/-- What the pieces of a page are like. -/
theorem exists_pieces {region : Nat} {file source : String}
    (hparse : Template.parse region file source = .ok t)
    (hpage : ((pageWithin depth t).run (Context.new library scope)).1 = .ok html) :
    ∃ forest, output? depth t library scope = some forest ∧
      (segments forest).flatMap Segment.chars = html.toList ∧
      ∀ segment ∈ segments forest, segment.Made
        (TextOrigin (.template depth t) (Context.new library scope)) IsStartTag := by
  obtain ⟨forest, hforest, rfl⟩ := page_eq_printForest hpage
  have hmade := made_of_output? ⟨region, file, source, hparse⟩ hforest
  exact ⟨forest, hforest, flatMap_segments forest, made_segments hmade⟩

/-- The context of a page with some variables and no other files. -/
def plainContext (frame : Frame) : Context :=
  Context.new (.new (.memory []) []) (.ofData (.map frame))

/-- A source and some variables give a page with a piece. It goes from the source to the printed
page; the template and the trees on the way are given as well. -/
structure IsPage (source : String) (frame : Frame) (html : String) (piece : Segment) (t : Template)
    (forest : List Tree) : Prop where
  parse : Template.parse 1 "page" source = .ok t
  page : ((page t).run (plainContext frame)).1 = .ok html
  output : output? depthLimit t (.new (.memory []) []) (.ofData (.map frame)) = some forest
  mem : piece ∈ segments forest

/-- The page of a source, by evaluation. -/
theorem exists_isPage {source html : String} {frame : Frame} {piece : Segment}
    (h : ((Template.parse 1 "page" source).toOption.any fun t =>
      decide (((Render.page t).run (plainContext frame)).1.toOption = some html) &&
        (output? depthLimit t (.new (.memory []) []) (.ofData (.map frame))).any fun forest =>
          decide (piece ∈ segments forest)) = true) :
    ∃ t forest, IsPage source frame html piece t forest := by
  obtain ⟨t, ht, h⟩ := (Option.any_eq_true _ _).1 h
  rw [Bool.and_eq_true, decide_eq_true_eq] at h
  obtain ⟨forest, hforest, hmem⟩ := (Option.any_eq_true _ _).1 h.2
  exact ⟨t, forest, eq_ok_of_toOption ht, eq_ok_of_toOption h.1, hforest, of_decide_eq_true hmem⟩

/-! ### Texts -/

/-- How the text of a node is shown, with its values escaped once: in raw text everything is as it
is, unless blank text is dropped, and elsewhere the static pieces are escaped, all or none of them,
and the text may be trimmed. -/
def ShownOnce (raw inlined : Bool) (parts : List Part) (printed : List Char) : Prop :=
  if raw then
    printed = if !inlined && isBlankText (fill id id parts) then [] else fill id id parts
  else
    ∃ f, (f = id ∨ f = escapeChars) ∧
      (printed = fill f escapeChars parts ∨ printed = trim (fill f escapeChars parts))

theorem shownOnce_of_printed {raw inlined : Bool} {s : String} {parts : List Part}
    {printed : List Char} (hs : s.toList = fill id (valueChars (!raw)) parts)
    (h : Printed raw inlined s printed) : ShownOnce raw inlined parts printed := by
  cases raw with
  | true =>
      have hplain : s.toList = fill id id parts := hs
      rw [ShownOnce, if_pos rfl, ← hplain]
      cases h with
      | inlined => rfl
      | blank _ hblank => simp [hblank]
      | kept _ hblank => simp [hblank, printText]
  | false =>
      have hescaped : s.toList = fill id escapeChars parts := hs
      obtain ⟨f, hf, hfill⟩ := escapeUnlessEscaped_fill parts
      have htrim : escapeUnlessEscaped (trim s.toList) = trim (fill f escapeChars parts) := by
        rw [hescaped, escapeUnlessEscaped_trim, hfill]
      rw [← hescaped] at hfill
      refine ⟨f, hf, ?_⟩
      cases h with
      | inlined => exact .inl hfill
      | blank _ hblank =>
          rw [trim_eq_nil_of_isBlankText hblank] at htrim
          exact .inr htrim
      | kept => exact .inl hfill
      | trimmed => exact .inr htrim

/-- A text that a page shows was copied with the element around it, or evaluated where the render
came to it; then it is put together of its static pieces and its values, escaped unless it is raw
text.  However a text is put together so, its values are shown escaped once, and as they are in raw
text.  Nothing of an escaped value begins markup or ends a quoted value. -/
theorem shownOnce_of_page {region : Nat} {file source : String}
    (hparse : Template.parse region file source = .ok t)
    (hpage : ((pageWithin depth t).run (Context.new library scope)).1 = .ok html) :
    ∃ forest, output? depth t library scope = some forest ∧
      (segments forest).flatMap Segment.chars = html.toList ∧
      (∀ raw inlined s printed, .text raw inlined s printed ∈ segments forest →
        (Copied (.template depth t) (Context.new library scope) s ∨
          ∃ parts, Evaluated (.template depth t) (Context.new library scope) raw parts ∧
            s.toList = fill id (valueChars (!raw)) parts) ∧
        ∀ parts, s.toList = fill id (valueChars (!raw)) parts →
          ShownOnce raw inlined parts printed) ∧
      ∀ value, ∀ d ∈ ['<', '>', '"', '\''], d ∉ escapeChars value := by
  obtain ⟨forest, hforest, hpieces, hmade⟩ := exists_pieces hparse hpage
  refine ⟨forest, hforest, hpieces, ?_, fun value d hd => ?_⟩
  · intro raw inlined s printed hmem
    obtain ⟨horigin, hprinted⟩ := hmade _ hmem
    exact ⟨horigin, fun parts hs => shownOnce_of_printed hs hprinted⟩
  · exact not_mem_escapeChars hd value

/-- The value `<b>` in a paragraph. -/
theorem shownOnce_of_page_angle :
    ∃ t forest, IsPage "<p>\x7b\x7b e \x7d\x7d</p>" [("e", .str "<b>")] "<p>&lt;b&gt;</p>\n"
        (.text false false "&lt;b&gt;" "&lt;b&gt;".toList) t forest ∧
      (Copied (.template depthLimit t) (plainContext [("e", .str "<b>")]) "&lt;b&gt;" ∨
        ∃ parts, Evaluated (.template depthLimit t) (plainContext [("e", .str "<b>")]) false parts ∧
          ShownOnce false false parts "&lt;b&gt;".toList) := by
  have hexists : ∃ t forest, IsPage "<p>\x7b\x7b e \x7d\x7d</p>" [("e", .str "<b>")]
      "<p>&lt;b&gt;</p>\n" (.text false false "&lt;b&gt;" "&lt;b&gt;".toList) t forest :=
    exists_isPage (by decide +kernel)
  obtain ⟨t, forest, h⟩ := hexists
  obtain ⟨forest', hforest', -, hshown, -⟩ := shownOnce_of_page h.parse h.page
  obtain rfl : forest = forest' := Option.some.inj (h.output.symm.trans hforest')
  refine ⟨t, forest, h, ?_⟩
  obtain ⟨hcopied | ⟨parts, hevaluated, hs⟩, honce⟩ := hshown _ _ _ _ h.mem
  · exact .inl hcopied
  · exact .inr ⟨parts, hevaluated, honce parts hs⟩

/-- Blank raw text is shown among nodes without added white space. -/
theorem blank_raw_text_shown :
    ∃ t forest, IsPage "<pre>x<script>\x7b\x7b e \x7d\x7d</script></pre>" [("e", .str "  ")]
      "<pre>x<script>  </script></pre>\n" (.text true true "  " [' ', ' ']) t forest :=
  exists_isPage (by decide +kernel)

/-! ### Start tags -/

/-- A start tag on a page is read as it was written if and only if no attribute is named with a
slash first, and no value with a quote in it seems to be escaped already. -/
theorem takeStartTag_of_page {region : Nat} {file source : String}
    (hparse : Template.parse region file source = .ok t)
    (hpage : ((pageWithin depth t).run (Context.new library scope)).1 = .ok html) :
    ∃ forest, output? depth t library scope = some forest ∧
      (segments forest).flatMap Segment.chars = html.toList ∧
      ∀ tag attributes, .startTag tag attributes ∈ segments forest → ∀ position,
        (takeStartTag position (openTag tag attributes).tail =
            .ok (tag, shownAttributes attributes, false, []) ↔
          ∀ a ∈ attributes, isDirectiveAttribute a.1 = false →
            a.1.toList.head? ≠ some '/' ∧ ¬ (looksEscaped a.2 = true ∧ '"' ∈ a.2.toList)) := by
  obtain ⟨forest, hforest, hpieces, hmade⟩ := exists_pieces hparse hpage
  refine ⟨forest, hforest, hpieces, fun tag attributes hmem position => ?_⟩
  have hstart : IsStartTag tag attributes := hmade _ hmem
  have hnames : ∀ a ∈ shownAttributes attributes, IsAttributeName a.1 := by
    intro a ha
    obtain ⟨a', ha', rfl⟩ := List.mem_map.1 ha
    exact hstart.names a' (List.mem_filter.1 ha').1
  rw [takeStartTag_openTag hstart.tag hnames]
  simp only [shownAttributes, List.forall_mem_map, List.mem_filter, Bool.not_eq_true', and_imp,
    ReadsBack, String.toList_ofList, quote_mem_escapeUnlessEscaped, looksEscaped]

/-- A value with a quote in it. -/
theorem takeStartTag_of_page_quote :
    ∃ t forest, IsPage "<p :title=\"t\"></p>" [("t", .str "a\"b")]
        "<p title=\"a&quot;b\"></p>\n" (.startTag "p" [("title", "a\"b")]) t forest ∧
      takeStartTag 0 (openTag "p" [("title", "a\"b")]).tail =
        .ok ("p", [("title", "a&quot;b")], false, []) := by
  have hexists : ∃ t forest, IsPage "<p :title=\"t\"></p>" [("t", .str "a\"b")]
      "<p title=\"a&quot;b\"></p>\n" (.startTag "p" [("title", "a\"b")]) t forest :=
    exists_isPage (by decide +kernel)
  obtain ⟨t, forest, h⟩ := hexists
  obtain ⟨forest', hforest', -, hread⟩ := takeStartTag_of_page h.parse h.page
  obtain rfl : forest = forest' := Option.some.inj (h.output.symm.trans hforest')
  exact ⟨t, forest, h, (hread _ _ h.mem 0).2 (by decide)⟩

/-- A value that seems to be escaped already ends its quotes and adds an attribute, and a name that
begins with a slash is read without it. -/
theorem attribute_injected :
    (∃ t forest, IsPage "<p :title=\"t\"></p>" [("t", .str "&;\" onclick=\"x")]
      "<p title=\"&;\" onclick=\"x\"></p>\n"
      (.startTag "p" [("title", "&;\" onclick=\"x")]) t forest) ∧
    (takeStartTag 0 (openTag "p" [("title", "&;\" onclick=\"x")]).tail).toOption =
      some ("p", [("title", "&;"), ("onclick", "x")], false, []) ∧
    (∃ t forest, IsPage "<p :/x=\"t\"></p>" [("t", .str "v")] "<p /x=\"v\"></p>\n"
      (.startTag "p" [("/x", "v")]) t forest) ∧
    (takeStartTag 0 (openTag "p" [("/x", "v")]).tail).toOption =
      some ("p", [("x", "v")], false, []) :=
  ⟨exists_isPage (by decide +kernel), by decide +kernel, exists_isPage (by decide +kernel),
    by decide +kernel⟩

end Stencil.Render
