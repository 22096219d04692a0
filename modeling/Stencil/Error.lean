import Stencil.Expr.Number
import Stencil.Expr.Parser
import Stencil.Function.Signature
import Stencil.Markup.SyntaxError
import Stencil.Yaml.Error

/-!
# Errors

Why a template cannot be rendered.

## Main definitions

* `TemplateError` — a source that is no template; `LoadError` — a template that cannot be loaded
* `Fault` — the causes of failure, with their wording and category
* `RenderError` — a fault with the template files it arose in

## Design notes

A list of messages goes from the outermost context to the innermost cause. A fault is annotated with
the chain of template files at most once, by the innermost template: an empty chain means not yet.
-/

namespace Stencil

/-- Why a block of front matter is none. -/
inductive FrontMatterError where
  | yaml (e : Yaml.Error)
  | notMapping (typeName : String)

/-- The wording of a front matter error. -/
def FrontMatterError.message : FrontMatterError → String
  | .yaml e => e.message
  | .notMapping typeName => s!"front matter must be a mapping, got a {typeName}"

/-- Why a source is no template. -/
inductive TemplateError where
  | frontMatter (file : String) (cause : FrontMatterError)
  | markup (file : String) (cause : Markup.SyntaxError)

/-- The wording of a template error, the outer context first. -/
def TemplateError.messages : TemplateError → List String
  | .frontMatter file cause => [s!"front matter of {Text.quoted file}", cause.message]
  | .markup file cause => [s!"parsing {Text.quoted file}", cause.message]

/-- Why a template cannot be loaded: there is no source for it, its path is refused, it cannot be
read, or its source is no template. -/
inductive LoadError where
  | notFound
  | unnamed (file : String)
  | outside (file : String)
  | unreadable (file : String)
  | invalid (cause : TemplateError)

/-- The wording of a load error, the outer context first. -/
def LoadError.messages : LoadError → List String
  | .notFound => ["template not found"]
  | .unnamed file => [s!"no template named {Text.quoted file}"]
  | .outside file => [s!"template path {Text.quoted file} leaves the template directory"]
  | .unreadable file => [s!"opening path for reading: {Text.quoted file}"]
  | .invalid cause => cause.messages

/-- The outermost message of a load error. -/
def LoadError.message (e : LoadError) : String := e.messages.headD ""

/-- Why an expression has no value. -/
inductive ExpressionFault where
  | syntactic (e : SyntaxError)
  | operator (fault : Expr.TypeFault)
  /-- A loop clause that is none. -/
  | loopClause

/-- The wording of an expression fault. -/
def ExpressionFault.message : ExpressionFault → String
  | .syntactic e => e.message
  | .operator fault => fault.message
  | .loopClause => "expected \x60item in items\x60 or \x60(index, item) in items\x60"

/-- A coarse classification of faults, which does not depend on their data. -/
inductive Category where
  | validation | resolution | io | cycle | expression | other
  deriving DecidableEq, Repr

/-- A cause of failure, with the data that its wording shows. It names no template file; those are
told by the chain of a `RenderError`. -/
inductive Fault where
  | requiredAttribute (name : String)
  | variableNotFound (source : String)
  | functionNotFound (name : String)
  | arity (name : String) (expected : ArgumentCount) (got : Nat)
  | coercion (value : Value) (target : Kind)
  | filter (name : String) (problem : String)
  | expression (source : String) (cause : ExpressionFault)
  | io (file : String) (cause : LoadError)
  | layoutDepth (limit : Nat) (chain : List String)
  /-- A node that its arena does not hold. -/
  | missingNode

/-- A chain of template files. -/
def chainText (files : List String) : String := " -> ".intercalate files

/-- What a value that does not convert is called. -/
def coercionText (value : Value) (target : Kind) : String :=
  match value with
  | .str s => s!"cannot convert {Text.quoted s} to {target.name}"
  | v => s!"cannot convert {v.typeName} {v.display} to {target.name}"

namespace Fault

/-- The wording of a fault. -/
def message : Fault → String
  | .requiredAttribute name => s!"required attribute '{name}' not provided"
  | .variableNotFound source => s!"variable '{source}' not found"
  | .functionNotFound name => s!"function '{name}' not found"
  | .arity name expected got => s!"function '{name}' expects {expected.text} arguments, got {got}"
  | .coercion value target => coercionText value target
  | .filter name problem => s!"filter '{name}': {problem}"
  | .expression source cause => s!"expression \"{source}\": {cause.message}"
  | .io file cause => s!"loading template \"{file}\": {cause.message}"
  | .layoutDepth limit chain => s!"layout chain depth exceeded (limit {limit}): {chainText chain}"
  | .missingNode => "node does not belong to the arena"

/-- The category of a fault. -/
def category : Fault → Category
  | .requiredAttribute _ => .validation
  | .variableNotFound _ | .functionNotFound _ | .arity .. | .coercion .. | .filter .. => .resolution
  | .expression .. => .expression
  | .io .. => .io
  | .layoutDepth .. => .cycle
  | .missingNode => .other

/-- Whether a fault is an unresolved variable. -/
def isVariableNotFound : Fault → Bool
  | .variableNotFound _ => true
  | _ => false

end Fault

/-- A fault with the template files it arose in, outermost first; none if it is not annotated. The
chain is set once, by the template in which the fault arises. -/
structure RenderError where
  fault : Fault
  chain : List String

namespace RenderError

/-- A fault that is not annotated. -/
def ofFault (fault : Fault) : RenderError := ⟨fault, []⟩

/-- Whether an error names the template files it arose in. -/
def isAnnotated (e : RenderError) : Bool := !e.chain.isEmpty

/-- Annotates an error with a chain of template files, unless it is annotated already. -/
def inChain (e : RenderError) (chain : List String) : RenderError :=
  if e.isAnnotated then e else ⟨e.fault, chain⟩

/-- The wording of an error. -/
def message (e : RenderError) : String :=
  if e.isAnnotated then s!"in {chainText e.chain}: {e.fault.message}" else e.fault.message

/-- The category of an error. -/
def category (e : RenderError) : Category := e.fault.category

/-- Whether an error is an unresolved variable. -/
def isVariableNotFound (e : RenderError) : Bool := e.fault.isVariableNotFound

end RenderError
end Stencil
