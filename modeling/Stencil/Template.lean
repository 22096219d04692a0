import Stencil.Attribute.Eval
import Stencil.FrontMatter
import Stencil.Markup.Arena
import Stencil.Markup.Parser

/-!
# Templates

A source divided into its settings and its nodes.

## Main definitions

* `Template`, `Template.parse` — a template file
* `Template.setting?` — a setting that is text
-/

namespace Stencil

open Markup

/-- A template file: its settings, and its nodes in an arena of its own. Templates are read once and
shared by all renders, which change none of them. -/
structure Template where
  file : String
  frontMatter : FrontMatter
  arena : Arena
  roots : List NodeId

namespace Template

/-- The settings at the start of a source, and the body. -/
def settingsOf (file source : String) : Except TemplateError (FrontMatter × String) :=
  match FrontMatter.split source with
  | (none, body) => .ok ([], body)
  | (some block, body) =>
    match FrontMatter.parse block with
    | .ok settings => .ok (settings, body)
    | .error e => .error (.frontMatter file e)

/-- The template of a source; its nodes are numbered in a region of their own. -/
def parse (region : Nat) (file source : String) : Except TemplateError Template := do
  let (frontMatter, body) ← settingsOf file source
  match parseDocument body with
  | .ok forest =>
    let (roots, arena) := (Arena.empty region).plantAll forest
    .ok ⟨file, frontMatter, arena, roots⟩
  | .error e => .error (.markup file e)

/-- The region of the nodes of a template. -/
def region (t : Template) : Nat := t.arena.region

/-- A setting that is text. -/
def setting? (t : Template) (key : String) : Option String :=
  match Dict.get? t.frontMatter key with
  | some (.str s) => some s
  | _ => none

/-- The element of an id. -/
def element? (t : Template) (id : NodeId) : Option Element := t.arena.element? id

/-- Whether an id is that of an element with an attribute. -/
def has (t : Template) (id : NodeId) (name : String) : Bool :=
  ((t.element? id).map (·.has name)).getD false

/-- Whether an id is that of blank text. -/
def isBlankText (t : Template) (id : NodeId) : Bool :=
  match t.arena.get? id with
  | some (.text s) => Text.isBlankText s.toList
  | _ => false

/-- A template is what its settings and its body say. -/
theorem exists_of_parse {region : Nat} {file source : String} {t : Template}
    (h : parse region file source = .ok t) :
    ∃ body forest, settingsOf file source = .ok (t.frontMatter, body) ∧
      parseDocument body = .ok forest ∧ t.file = file ∧
      (t.roots, t.arena) = (Arena.empty region).plantAll forest := by
  unfold parse at h
  cases hs : settingsOf file source with
  | error e => simp [hs, bind, Except.bind] at h
  | ok settings =>
      obtain ⟨frontMatter, body⟩ := settings
      cases hd : parseDocument body with
      | error e => simp [hs, hd, bind, Except.bind] at h
      | ok forest =>
          simp only [hs, hd, bind, Except.bind, Except.ok.injEq] at h
          subst h
          exact ⟨body, forest, rfl, hd, rfl, rfl⟩

/-- The nodes of a template are in the region it was parsed for. -/
theorem region_of_parse {region : Nat} {file source : String} {t : Template}
    (h : parse region file source = .ok t) : t.region = region := by
  obtain ⟨body, forest, -, -, -, hp⟩ := exists_of_parse h
  have ha : t.arena = ((Arena.empty region).plantAll forest).2 := congrArg Prod.snd hp
  rw [Template.region, ha, Arena.region_plantAll]
  rfl

end Template
end Stencil
