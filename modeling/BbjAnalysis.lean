import BbjAnalysis.Build.Builder
import BbjAnalysis.Build.Pass
import BbjAnalysis.Build.Report
import BbjAnalysis.Diagnostic.Basic
import BbjAnalysis.Editor.Location
import BbjAnalysis.Editor.Session
import BbjAnalysis.Java.Catalog
import BbjAnalysis.Java.Name
import BbjAnalysis.Java.Resolver
import BbjAnalysis.Link.Candidates
import BbjAnalysis.Link.Linking
import BbjAnalysis.Link.Links
import BbjAnalysis.Ordered.Map
import BbjAnalysis.Ordered.Set
import BbjAnalysis.Program.Expr
import BbjAnalysis.Program.Fault
import BbjAnalysis.Program.Parser.Cursor
import BbjAnalysis.Program.Parser.Expr
import BbjAnalysis.Program.Parser.Simple
import BbjAnalysis.Program.Parser.Statement
import BbjAnalysis.Program.Statement
import BbjAnalysis.Program.Walk
import BbjAnalysis.Proofs.Ordered.Map
import BbjAnalysis.Proofs.Renaming.Basic
import BbjAnalysis.Proofs.Renaming.Scope
import BbjAnalysis.Rule.Basic
import BbjAnalysis.Rule.OptionTable
import BbjAnalysis.Scope.Collect
import BbjAnalysis.Scope.Reference
import BbjAnalysis.Scope.Tree
import BbjAnalysis.Symbol.Basic
import BbjAnalysis.Symbol.Name
import BbjAnalysis.Text.Blank
import BbjAnalysis.Text.IdentifierChar
import BbjAnalysis.Text.LineIndex
import BbjAnalysis.Text.LineSearch
import BbjAnalysis.Text.Quoted
import BbjAnalysis.Text.Span
import BbjAnalysis.Token.Basic
import BbjAnalysis.Token.Lexer
import BbjAnalysis.Workspace.Dependencies
import BbjAnalysis.Workspace.Index
import BbjAnalysis.Proofs.Java.Resolver
import BbjAnalysis.Proofs.Java.Interleaving
import BbjAnalysis.Proofs.Renaming.Link
import BbjAnalysis.Proofs.Workspace.Dependencies
import BbjAnalysis.Proofs.Workspace.Index
import BbjAnalysis.Proofs.Renaming.Rule
import BbjAnalysis.Proofs.Build.Quiet
import BbjAnalysis.Proofs.Build.Reading
import BbjAnalysis.Proofs.Build.Relinking
import BbjAnalysis.Proofs.Build.Coherence
import BbjAnalysis.Proofs.Build.Run
import BbjAnalysis.Proofs.Build.Cancellation
import BbjAnalysis.Proofs.Build.UpToDate
import BbjAnalysis.Proofs.Renaming.Builder
import BbjAnalysis.Proofs.Renaming.Location
import BbjAnalysis.Proofs.Editor.History
import BbjAnalysis.Proofs.Build.Accounting
import BbjAnalysis.Proofs.Workspace.Refinement
import BbjAnalysis.Proofs.Program.Relabelling
import BbjAnalysis.Proofs.Program.Comparison
import BbjAnalysis.Proofs.Program.Comparison.Expr
import BbjAnalysis.Proofs.Program.Comparison.Simple
import BbjAnalysis.Proofs.Program.Comparison.Statement
import BbjAnalysis.Proofs.Token.Lexer
import BbjAnalysis.Proofs.Program.Layout
import BbjAnalysis.Proofs.Program.Concatenation
import BbjAnalysis.Proofs.Program.Ensures
import BbjAnalysis.Proofs.Program.Progress
import BbjAnalysis.Proofs.Program.Progress.Expr
import BbjAnalysis.Proofs.Program.Progress.Statement
import BbjAnalysis.Proofs.Program.Part
import BbjAnalysis.Proofs.Token.Row
import BbjAnalysis.Proofs.Token.Pattern
import BbjAnalysis.Proofs.Token.Munch
import BbjAnalysis.Proofs.Program.Gathering
import BbjAnalysis.Proofs.Program.Gathering.Expr
import BbjAnalysis.Proofs.Program.Gathering.Simple
import BbjAnalysis.Proofs.Program.Gathering.Statement
import BbjAnalysis.Proofs.Program.Soundness
import BbjAnalysis.Proofs.Program.Walk
import BbjAnalysis.Proofs.Scope.Citation
import BbjAnalysis.Proofs.Link.Outcome
import BbjAnalysis.Proofs.Diagnostic.Listing
import BbjAnalysis.Proofs.Rule.Options
import BbjAnalysis.Proofs.Program.Occurrence
import BbjAnalysis.Proofs.Scope.Tree
import BbjAnalysis.Proofs.Scope.Labels
import BbjAnalysis.Proofs.Scope.Labels.Statement
import BbjAnalysis.Proofs.Symbol.Name
import BbjAnalysis.Proofs.Link.Label
import BbjAnalysis.Proofs.Link.Footprint
import BbjAnalysis.Proofs.Scope.LabelMap
import BbjAnalysis.Proofs.Rule.Finding
import BbjAnalysis.Proofs.Rule.Labels
import BbjAnalysis.Proofs.Scope.Visit
import BbjAnalysis.Proofs.Scope.Walk
import BbjAnalysis.Proofs.Scope.Shape
import BbjAnalysis.Proofs.Build.Recorded
import BbjAnalysis.Proofs.Build.Tables
import BbjAnalysis.Proofs.Text.LineIndex
import BbjAnalysis.Proofs.Program.Spelling
import BbjAnalysis.Proofs.Link.Search
import BbjAnalysis.Proofs.Link.Meaning
import BbjAnalysis.Proofs.Link.Legal
import BbjAnalysis.Proofs.Link.Shadowing
import BbjAnalysis.Proofs.Link.Exporters
import BbjAnalysis.Proofs.Editor.Definition
import BbjAnalysis.Proofs.Token.Line
import BbjAnalysis.Proofs.Program.Grouping
import BbjAnalysis.Proofs.Program.Literal
import BbjAnalysis.Proofs.Program.Flattening
import BbjAnalysis.Proofs.Program.Flattening.Expr
import BbjAnalysis.Proofs.Scope.Exports
import BbjAnalysis.Proofs.Program.Order
import BbjAnalysis.Proofs.Scope.Uses
import BbjAnalysis.Proofs.Scope.Fields
import BbjAnalysis.Proofs.Link.Fields
import BbjAnalysis.Proofs.Scope.Writes
import BbjAnalysis.Proofs.Scope.Implicit
import BbjAnalysis.Proofs.Link.Writes
import BbjAnalysis.Proofs.Text.LineSearch
import BbjAnalysis.Proofs.Text.Line
import BbjAnalysis.Proofs.Link.Path
import BbjAnalysis.Proofs.Program.ImportPath
import BbjAnalysis.Proofs.Scope.Opener
import BbjAnalysis.Proofs.Scope.Owner
import BbjAnalysis.Proofs.Scope.Size
