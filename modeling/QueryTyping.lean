import QueryTyping.Analysis
import QueryTyping.Binary64.Basic
import QueryTyping.Binary64.Shortest
import QueryTyping.Catalog.Function
import QueryTyping.Catalog.Operator
import QueryTyping.Check.Basic
import QueryTyping.Check.Overload
import QueryTyping.CommandLine.Arguments
import QueryTyping.CommandLine.Command
import QueryTyping.CommandLine.Run
import QueryTyping.CommandLine.Session
import QueryTyping.Context
import QueryTyping.Diagnostic.Basic
import QueryTyping.Diagnostic.Code
import QueryTyping.Diagnostic.Json
import QueryTyping.Diagnostic.Problem
import QueryTyping.Diagnostic.Text
import QueryTyping.Document
import QueryTyping.Expr.Basic
import QueryTyping.Expr.Fold
import QueryTyping.Expr.Fresh
import QueryTyping.Expr.Kind
import QueryTyping.Expr.Numbering
import QueryTyping.Expr.OfJson
import QueryTyping.Expr.Operator
import QueryTyping.Expr.Reads
import QueryTyping.Expr.ToJson
import QueryTyping.Files.Documents
import QueryTyping.Files.Path
import QueryTyping.Files.Tree
import QueryTyping.Json.Number
import QueryTyping.Json.Reader
import QueryTyping.Json.Record
import QueryTyping.Json.Token
import QueryTyping.Json.Value
import QueryTyping.Json.Writer
import QueryTyping.Main
import QueryTyping.Names.Map
import QueryTyping.Names.Set
import QueryTyping.Order.Increasing
import QueryTyping.Proofs.Binary64.Text
import QueryTyping.Proofs.Check.Declaring
import QueryTyping.Proofs.Check.Frame
import QueryTyping.Proofs.Check.Narrowing
import QueryTyping.Proofs.Check.Overload
import QueryTyping.Proofs.Check.Ranking
import QueryTyping.Proofs.Check.Reports
import QueryTyping.Proofs.Check.Scopes
import QueryTyping.Proofs.Diagnostic.Carets
import QueryTyping.Proofs.Diagnostic.Stored
import QueryTyping.Proofs.Expr.Address
import QueryTyping.Proofs.Expr.Distinct
import QueryTyping.Proofs.Expr.FreeNames
import QueryTyping.Proofs.Expr.FreeVariables
import QueryTyping.Proofs.Expr.Ids
import QueryTyping.Proofs.Expr.Items
import QueryTyping.Proofs.Expr.Numbering
import QueryTyping.Proofs.Expr.Place
import QueryTyping.Proofs.Expr.Renaming
import QueryTyping.Proofs.Expr.Traversal
import QueryTyping.Proofs.Expr.Walk
import QueryTyping.Proofs.Expr.WithoutIds
import QueryTyping.Proofs.Files.Places
import QueryTyping.Proofs.Json.Number
import QueryTyping.Proofs.Json.RoundTrip
import QueryTyping.Proofs.Json.Text
import QueryTyping.Proofs.Reading.Document
import QueryTyping.Proofs.Reading.Drawn
import QueryTyping.Proofs.Reading.Follows
import QueryTyping.Proofs.Reading.Stored
import QueryTyping.Proofs.Report.Declared
import QueryTyping.Proofs.Report.Independence
import QueryTyping.Proofs.Report.Untyped
import QueryTyping.Proofs.Report.Unused
import QueryTyping.Proofs.Settings.Nearest
import QueryTyping.Proofs.Span.Stored
import QueryTyping.Proofs.State.Recording
import QueryTyping.Proofs.State.WellFormed
import QueryTyping.Proofs.Text.Trim
import QueryTyping.Proofs.Ty.Grammar
import QueryTyping.Proofs.Ty.Join
import QueryTyping.Proofs.Ty.Lattice
import QueryTyping.Proofs.Ty.Order
import QueryTyping.Proofs.TypeSet.Elements
import QueryTyping.Proofs.TypeSet.Join
import QueryTyping.Proofs.TypeSet.Joins
import QueryTyping.Proofs.TypeSet.Lattice
import QueryTyping.Proofs.TypeSet.Membership
import QueryTyping.Proofs.TypeSet.RangeBounds
import QueryTyping.Proofs.TypeSet.RangeJoin
import QueryTyping.Proofs.TypeSet.Spelling
import QueryTyping.Proofs.Typing.Blame
import QueryTyping.Proofs.Typing.Composition
import QueryTyping.Proofs.Typing.Entries
import QueryTyping.Proofs.Typing.Filters
import QueryTyping.Proofs.Typing.Form
import QueryTyping.Proofs.Typing.Independence
import QueryTyping.Proofs.Typing.Judge
import QueryTyping.Proofs.Typing.Recovery
import QueryTyping.Proofs.Typing.Renaming
import QueryTyping.Proofs.Typing.Resolution
import QueryTyping.Proofs.Typing.Stages
import QueryTyping.Proofs.Typing.Undefined
import QueryTyping.Proofs.Typing.Uses
import QueryTyping.Proofs.Typing.Verdict
import QueryTyping.Report
import QueryTyping.Settings.Basic
import QueryTyping.Settings.Declared
import QueryTyping.Settings.Discovery
import QueryTyping.Settings.OfToml
import QueryTyping.Span
import QueryTyping.Span.Json
import QueryTyping.State.Basic
import QueryTyping.State.Scope
import QueryTyping.State.Table
import QueryTyping.Text.Blank
import QueryTyping.Text.Capitals
import QueryTyping.Text.Lines
import QueryTyping.Toml.Reader
import QueryTyping.Toml.Scalar
import QueryTyping.Toml.Text
import QueryTyping.Toml.Value
import QueryTyping.Ty.Basic
import QueryTyping.Ty.Name
import QueryTyping.TypeSet.Basic
import QueryTyping.TypeSet.Range
import QueryTyping.Typing
