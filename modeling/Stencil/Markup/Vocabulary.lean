import Stencil.Text.Scan

/-!
# Vocabulary of markup

What has to be known of single elements and attributes.

## Main definitions

* `hasClosingTag`, `isRawText`, `isPreformatted` — kinds of elements, by their tags in any case
* `isDirectiveAttribute` — attributes that steer evaluation and are never printed
* `bindingName?` — the attribute that a binding gives a value
-/

namespace Stencil.Markup

open Text

/-- Elements without content and without a closing tag. -/
def voidTags : List String :=
  ["area", "base", "br", "col", "embed", "hr", "img", "input", "link", "meta", "param", "source",
    "track", "wbr"]

/-- Elements whose content is text that is neither parsed nor escaped. -/
def rawTextTags : List String := ["script", "style"]

/-- Elements in which white space counts. -/
def preformattedTags : List String := ["pre", "textarea"]

/-- A tag with its ASCII letters in lower case. -/
def lowerTag (tag : String) : String := String.ofList (tag.toList.map Char.toLower)

/-- Whether an element can have content and ends with a closing tag. -/
def hasClosingTag (tag : String) : Bool := !voidTags.contains (lowerTag tag)

/-- Whether the content of an element is raw text. -/
def isRawText (tag : String) : Bool := rawTextTags.contains (lowerTag tag)

/-- Whether white space counts in an element. -/
def isPreformatted (tag : String) : Bool := preformattedTags.contains (lowerTag tag)

/-- The attributes of directives. -/
def directiveNames : List String :=
  ["v-if", "v-else-if", "v-else", "v-for", "v-pre", "v-html", "v-text", "v-show", "v-once",
    "v-once-id"]

/-- Whether a name begins with a given text. -/
def hasPrefix (start name : String) : Bool := startsWith start.toList name.toList

/-- The rest of a name after a given text. -/
def nameAfter? (start name : String) : Option String :=
  (stripPrefix? start.toList name.toList).map String.ofList

/-- Whether an attribute only steers evaluation: a directive or a binding. -/
def isDirectiveAttribute (name : String) : Bool :=
  directiveNames.contains name || hasPrefix ":" name || hasPrefix "v-bind:" name

/-- The attribute that a binding `:x` or `v-bind:x` gives a value. -/
def bindingName? (name : String) : Option String :=
  ((nameAfter? ":" name).or (nameAfter? "v-bind:" name)).filter (!·.isEmpty)

end Stencil.Markup
