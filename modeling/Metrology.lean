import Metrology.Algebra.Approximation
import Metrology.Algebra.Bridge
import Metrology.Algebra.Circular
import Metrology.Algebra.Cost
import Metrology.Algebra.Equation
import Metrology.Algebra.Expansion
import Metrology.Algebra.Extremum
import Metrology.Algebra.Fact
import Metrology.Algebra.Factoring
import Metrology.Algebra.Inversion
import Metrology.Algebra.Literal
import Metrology.Algebra.Normal
import Metrology.Algebra.NumericRoots
import Metrology.Algebra.Order
import Metrology.Algebra.Polynomial
import Metrology.Algebra.Ratio
import Metrology.Algebra.Remainder
import Metrology.Algebra.Root
import Metrology.Algebra.Roots
import Metrology.Algebra.Simplification
import Metrology.Algebra.Substitution
import Metrology.Algebra.Term
import Metrology.Algebra.Text
import Metrology.Algebra.Verdict
import Metrology.Catalog.Basic
import Metrology.Catalog.Loading
import Metrology.Catalog.Reading
import Metrology.Catalog.Standard
import Metrology.CommandLine.Argument
import Metrology.CommandLine.Arguments
import Metrology.CommandLine.Switch
import Metrology.CommandLine.Usage
import Metrology.Conversion.Error
import Metrology.Conversion.Route
import Metrology.Conversion.Weight
import Metrology.Converter.Basic
import Metrology.Converter.Build
import Metrology.Converter.BuildJournal
import Metrology.Converter.Journal
import Metrology.Decimal.Double
import Metrology.Decimal.Numeral
import Metrology.Decimal.Shortest
import Metrology.Decimal.Style
import Metrology.Formula.Arithmetic
import Metrology.Formula.Basic
import Metrology.Formula.Journal
import Metrology.Formula.Lexer
import Metrology.Formula.Operator
import Metrology.Formula.Parser
import Metrology.Formula.Token
import Metrology.Formula.Tree
import Metrology.Formula.Value
import Metrology.Graph.Basic
import Metrology.Graph.Search
import Metrology.Log
import Metrology.Main
import Metrology.Program.Basic
import Metrology.Program.Folder
import Metrology.Proofs.Algebra.Affine
import Metrology.Proofs.Algebra.AffineTerm
import Metrology.Proofs.Algebra.Inversion
import Metrology.Proofs.Algebra.LinearEquation
import Metrology.Proofs.Algebra.LinearSum
import Metrology.Proofs.Catalog.Flattening
import Metrology.Proofs.Catalog.Reading
import Metrology.Proofs.CommandLine.Dashes
import Metrology.Proofs.Conversion.Account
import Metrology.Proofs.Conversion.Route
import Metrology.Proofs.Conversion.Stage
import Metrology.Proofs.Converter.Assembly
import Metrology.Proofs.Converter.Build
import Metrology.Proofs.Converter.Component
import Metrology.Proofs.Converter.Failure
import Metrology.Proofs.Converter.History
import Metrology.Proofs.Converter.Outcome
import Metrology.Proofs.Converter.Record
import Metrology.Proofs.Converter.Reverse
import Metrology.Proofs.Converter.Shortcut
import Metrology.Proofs.Converter.Transparency
import Metrology.Proofs.Converter.Weights
import Metrology.Proofs.Converter.Words
import Metrology.Proofs.Decimal.Exact
import Metrology.Proofs.Decimal.Nearest
import Metrology.Proofs.Decimal.Notation
import Metrology.Proofs.Decimal.Product
import Metrology.Proofs.Decimal.Reading
import Metrology.Proofs.Decimal.Reciprocal
import Metrology.Proofs.Decimal.RoundTrip
import Metrology.Proofs.Decimal.Rounding
import Metrology.Proofs.Decimal.Shortest
import Metrology.Proofs.Decimal.Unsigned
import Metrology.Proofs.Decimal.Value
import Metrology.Proofs.Formula.Arithmetic
import Metrology.Proofs.Formula.Bindings
import Metrology.Proofs.Formula.Completeness
import Metrology.Proofs.Formula.Concatenation
import Metrology.Proofs.Formula.Drawing
import Metrology.Proofs.Formula.Evaluation
import Metrology.Proofs.Formula.Grammar
import Metrology.Proofs.Formula.Inventory
import Metrology.Proofs.Formula.Machine
import Metrology.Proofs.Formula.Names
import Metrology.Proofs.Formula.Nesting
import Metrology.Proofs.Formula.Placement
import Metrology.Proofs.Formula.Reduction
import Metrology.Proofs.Formula.Rendering
import Metrology.Proofs.Formula.Scanning
import Metrology.Proofs.Formula.Soundness
import Metrology.Proofs.Formula.Spelling
import Metrology.Proofs.Graph.Extension
import Metrology.Proofs.Graph.Growth
import Metrology.Proofs.Graph.Indexed
import Metrology.Proofs.Graph.Linked
import Metrology.Proofs.Graph.Links
import Metrology.Proofs.Graph.ShortestPath
import Metrology.Proofs.Graph.Walk
import Metrology.Proofs.Over.Expansion
import Metrology.Proofs.Over.Factor
import Metrology.Proofs.Over.Fraction
import Metrology.Proofs.Over.Inverse
import Metrology.Proofs.Over.Product
import Metrology.Proofs.Over.Roots
import Metrology.Proofs.Over.Simplification
import Metrology.Proofs.Over.Solution
import Metrology.Proofs.Over.Substitution
import Metrology.Proofs.Over.Sum
import Metrology.Proofs.Over.Term
import Metrology.Proofs.Program.Loading
import Metrology.Proofs.Program.OneShot
import Metrology.Proofs.Request.Grammar
import Metrology.Proofs.Request.Resolution
import Metrology.Proofs.Service.Calls
import Metrology.Proofs.Service.Listing
import Metrology.Proofs.Service.Payload
import Metrology.Proofs.Service.Shapes
import Metrology.Proofs.Session.RequestText
import Metrology.Proofs.Session.Routing
import Metrology.Proofs.Text.Characters
import Metrology.Proofs.UnitTable.Rows
import Metrology.Request
import Metrology.Service.Basic
import Metrology.Service.Payload
import Metrology.Session.Line
import Metrology.Session.Query
import Metrology.Session.Report
import Metrology.Settings.Basic
import Metrology.Settings.Path
import Metrology.Text.Blank
import Metrology.Text.CaseRun
import Metrology.Text.Digit
import Metrology.Text.Folding
import Metrology.Text.Letter
import Metrology.Text.Lines
import Metrology.Text.Lowercase
import Metrology.Text.Printable
import Metrology.Text.Quoted
import Metrology.Text.Range
import Metrology.Text.Split
import Metrology.Text.Uppercase
import Metrology.Text.Word
import Metrology.Trace
import Metrology.UnitTable
import Metrology.Yaml.BlockScalar
import Metrology.Yaml.Bytes
import Metrology.Yaml.Character
import Metrology.Yaml.Construction
import Metrology.Yaml.Document
import Metrology.Yaml.Kind
import Metrology.Yaml.Layout
import Metrology.Yaml.Moment
import Metrology.Yaml.Node
import Metrology.Yaml.Number
import Metrology.Yaml.Plain
import Metrology.Yaml.QuotedScalar
import Metrology.Yaml.Timestamp
import Metrology.Yaml.Token
import Metrology.Yaml.Value
