import Stencil.Act
import Stencil.Attribute.Eval
import Stencil.Attribute.Style
import Stencil.Cache
import Stencil.Decimal.Binary
import Stencil.Decimal.Notation
import Stencil.Decimal.Read
import Stencil.Decimal.Shortest
import Stencil.Dict
import Stencil.Engine
import Stencil.Error
import Stencil.Evaluator
import Stencil.Expr.Basic
import Stencil.Expr.Eval
import Stencil.Expr.Number
import Stencil.Expr.Parser
import Stencil.Expr.Token
import Stencil.FrontMatter
import Stencil.Function.Builtin
import Stencil.Function.Kind
import Stencil.Function.Signature
import Stencil.Function.Table
import Stencil.Interpolation
import Stencil.Json.Basic
import Stencil.Json.Reader
import Stencil.Layout
import Stencil.Library
import Stencil.Loader
import Stencil.Markup.Arena
import Stencil.Markup.Escape
import Stencil.Markup.Parser
import Stencil.Markup.Printer
import Stencil.Markup.SyntaxError
import Stencil.Markup.Token
import Stencil.Markup.Tree
import Stencil.Markup.Vocabulary
import Stencil.Path
import Stencil.Pipe.Basic
import Stencil.Pipe.Eval
import Stencil.Pipe.TopLevel
import Stencil.Program
import Stencil.Proofs.Argument
import Stencil.Proofs.Attribute.Merge
import Stencil.Proofs.Binding
import Stencil.Proofs.Condition
import Stencil.Proofs.Expr.Arithmetic
import Stencil.Proofs.Expr.Comparison
import Stencil.Proofs.Expr.Current
import Stencil.Proofs.Expr.Extent
import Stencil.Proofs.Expr.Members
import Stencil.Proofs.Expr.Point
import Stencil.Proofs.Expr.RoundTrip
import Stencil.Proofs.FrontMatter
import Stencil.Proofs.Function.Argument
import Stencil.Proofs.Interpolation.Split
import Stencil.Proofs.Layout
import Stencil.Proofs.Library.Hierarchy
import Stencil.Proofs.Loading
import Stencil.Proofs.Markup.Childless
import Stencil.Proofs.Markup.Copy
import Stencil.Proofs.Markup.Document
import Stencil.Proofs.Markup.EndTag
import Stencil.Proofs.Markup.Levels
import Stencil.Proofs.Markup.RoundTrip
import Stencil.Proofs.Numeral
import Stencil.Proofs.Path.Print
import Stencil.Proofs.Path.Resolution
import Stencil.Proofs.Pipe.Agreement
import Stencil.Proofs.Pipe.Call
import Stencil.Proofs.Pipe.Literal
import Stencil.Proofs.Pipe.Print
import Stencil.Proofs.Pipe.RoundTrip
import Stencil.Proofs.Pipe.Separator
import Stencil.Proofs.Record
import Stencil.Proofs.Render.Depth
import Stencil.Proofs.Render.Law
import Stencil.Proofs.Render.Lexical
import Stencil.Proofs.Render.Loop
import Stencil.Proofs.Render.Origin
import Stencil.Proofs.Render.Print
import Stencil.Proofs.Render.Siblings
import Stencil.Proofs.Render.Step
import Stencil.Proofs.Render.Uphold
import Stencil.Proofs.Rendering
import Stencil.Proofs.Scope
import Stencil.Proofs.Session
import Stencil.Proofs.Style
import Stencil.Proofs.Yaml.Reader
import Stencil.Render.Context
import Stencil.Render.Element
import Stencil.Render.Include
import Stencil.Render.Loop
import Stencil.Render.Nodes
import Stencil.Render.Siblings
import Stencil.Render.Slot
import Stencil.Scope
import Stencil.Scope.Eval
import Stencil.Session
import Stencil.Template
import Stencil.Text.Blank
import Stencil.Text.Case
import Stencil.Text.CaseTables
import Stencil.Text.Name
import Stencil.Text.PrintableTable
import Stencil.Text.Quoted
import Stencil.Text.Scan
import Stencil.Text.Span
import Stencil.Time.Basic
import Stencil.Time.Layout
import Stencil.Time.Pattern
import Stencil.Time.Rfc3339
import Stencil.Value.Basic
import Stencil.Value.Text
import Stencil.Yaml.Cursor
import Stencil.Yaml.Error
import Stencil.Yaml.Event
import Stencil.Yaml.Event.Grammar
import Stencil.Yaml.Reader
import Stencil.Yaml.Scalar.Block
import Stencil.Yaml.Scalar.Fold
import Stencil.Yaml.Scalar.Plain
import Stencil.Yaml.Scalar.Quoted
import Stencil.Yaml.Tag
import Stencil.Yaml.Token
import Stencil.Yaml.Token.Lexer
