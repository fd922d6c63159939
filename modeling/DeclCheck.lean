import DeclCheck.Analysis.Collection
import DeclCheck.Analysis.Immutability
import DeclCheck.Analysis.Outline
import DeclCheck.Analysis.References
import DeclCheck.Analysis.Report
import DeclCheck.Analysis.Run
import DeclCheck.Analysis.Synthesis
import DeclCheck.Ast.DocTags
import DeclCheck.Ast.Flags
import DeclCheck.Ast.Listing
import DeclCheck.Ast.Node
import DeclCheck.Ast.Operator
import DeclCheck.Diagnostic.Basic
import DeclCheck.Diagnostic.Encoding
import DeclCheck.Diagnostic.Kind
import DeclCheck.Diagnostic.Message
import DeclCheck.Files.Error
import DeclCheck.Files.Path
import DeclCheck.Files.Tree
import DeclCheck.Grammar.Error
import DeclCheck.Grammar.Expression
import DeclCheck.Grammar.Parse
import DeclCheck.Grammar.State
import DeclCheck.Grammar.Statement
import DeclCheck.Json.Comments
import DeclCheck.Json.Reader
import DeclCheck.Json.Value
import DeclCheck.ModuleGraph.Basic
import DeclCheck.ModuleGraph.Cycle
import DeclCheck.ModuleGraph.Reach
import DeclCheck.ModuleGraph.Sort
import DeclCheck.ModuleGraph.Verdict
import DeclCheck.Program.Basic
import DeclCheck.Program.Building
import DeclCheck.Proofs.Ast.Depth
import DeclCheck.Proofs.Ast.Grouping
import DeclCheck.Proofs.Ast.Identifiers
import DeclCheck.Proofs.Ast.Listing
import DeclCheck.Proofs.Ast.Tree
import DeclCheck.Proofs.Ast.Typed
import DeclCheck.Proofs.Ast.Whole
import DeclCheck.Proofs.Diagnostic.Collected
import DeclCheck.Proofs.Diagnostic.Encoding
import DeclCheck.Proofs.Diagnostic.Filling
import DeclCheck.Proofs.Files.Locations
import DeclCheck.Proofs.Files.Pieces
import DeclCheck.Proofs.Grammar.Annotations
import DeclCheck.Proofs.Grammar.Clean
import DeclCheck.Proofs.Grammar.CleanExpressions
import DeclCheck.Proofs.Grammar.CleanStatements
import DeclCheck.Proofs.Grammar.CleanTexts
import DeclCheck.Proofs.Grammar.Completion
import DeclCheck.Proofs.Grammar.Derivation
import DeclCheck.Proofs.Grammar.DerivedExpressions
import DeclCheck.Proofs.Grammar.DerivedStatements
import DeclCheck.Proofs.Grammar.Descents
import DeclCheck.Proofs.Grammar.Expressions
import DeclCheck.Proofs.Grammar.Faults
import DeclCheck.Proofs.Grammar.Heeding
import DeclCheck.Proofs.Grammar.Levels
import DeclCheck.Proofs.Grammar.Listing
import DeclCheck.Proofs.Grammar.Lockstep
import DeclCheck.Proofs.Grammar.LockstepExpressions
import DeclCheck.Proofs.Grammar.LockstepStatements
import DeclCheck.Proofs.Grammar.LookAhead
import DeclCheck.Proofs.Grammar.Loops
import DeclCheck.Proofs.Grammar.Nesting
import DeclCheck.Proofs.Grammar.Places
import DeclCheck.Proofs.Grammar.Positions
import DeclCheck.Proofs.Grammar.Refusal
import DeclCheck.Proofs.Grammar.Room
import DeclCheck.Proofs.Grammar.Sound
import DeclCheck.Proofs.Grammar.Spans
import DeclCheck.Proofs.Grammar.Statements
import DeclCheck.Proofs.Grammar.Steps
import DeclCheck.Proofs.Grammar.Trace
import DeclCheck.Proofs.Json.Commas
import DeclCheck.Proofs.Json.Commented
import DeclCheck.Proofs.Json.Comments
import DeclCheck.Proofs.Json.Grammar
import DeclCheck.Proofs.Json.Layout
import DeclCheck.Proofs.Json.Printing
import DeclCheck.Proofs.Json.Reading
import DeclCheck.Proofs.Json.RoundTrip
import DeclCheck.Proofs.ModuleGraph.Components
import DeclCheck.Proofs.ModuleGraph.Consistency
import DeclCheck.Proofs.ModuleGraph.CyclePath
import DeclCheck.Proofs.ModuleGraph.Cycles
import DeclCheck.Proofs.ModuleGraph.Dependencies
import DeclCheck.Proofs.ModuleGraph.Numbering
import DeclCheck.Proofs.ModuleGraph.Reach
import DeclCheck.Proofs.ModuleGraph.Sorting
import DeclCheck.Proofs.ModuleGraph.Transitive
import DeclCheck.Proofs.Names.Bindings
import DeclCheck.Proofs.Names.Census
import DeclCheck.Proofs.Names.Demands
import DeclCheck.Proofs.Names.Depth
import DeclCheck.Proofs.Names.Descent
import DeclCheck.Proofs.Names.Events
import DeclCheck.Proofs.Names.Externs
import DeclCheck.Proofs.Names.Handling
import DeclCheck.Proofs.Names.Hoisting
import DeclCheck.Proofs.Names.Immutable
import DeclCheck.Proofs.Names.Isolated
import DeclCheck.Proofs.Names.Layout
import DeclCheck.Proofs.Names.Meaning
import DeclCheck.Proofs.Names.Mentions
import DeclCheck.Proofs.Names.Openings
import DeclCheck.Proofs.Names.Reach
import DeclCheck.Proofs.Names.Recounted
import DeclCheck.Proofs.Names.Reflection
import DeclCheck.Proofs.Names.Renumbered
import DeclCheck.Proofs.Names.Run
import DeclCheck.Proofs.Names.Standing
import DeclCheck.Proofs.Names.Undefined
import DeclCheck.Proofs.Names.Units
import DeclCheck.Proofs.Names.Variables
import DeclCheck.Proofs.Program.Accepted
import DeclCheck.Proofs.Program.Assembly
import DeclCheck.Proofs.Program.Built
import DeclCheck.Proofs.Program.Grouped
import DeclCheck.Proofs.Program.Identifiers
import DeclCheck.Proofs.Runs.Closure
import DeclCheck.Proofs.Runs.Extension
import DeclCheck.Proofs.Runs.Failure
import DeclCheck.Proofs.Runs.Immutable
import DeclCheck.Proofs.Runs.Insertion
import DeclCheck.Proofs.Runs.Isolation
import DeclCheck.Proofs.Runs.Marks
import DeclCheck.Proofs.Runs.Meaning
import DeclCheck.Proofs.Runs.Modules
import DeclCheck.Proofs.Runs.Outcome
import DeclCheck.Proofs.Runs.Persistence
import DeclCheck.Proofs.Runs.Reports
import DeclCheck.Proofs.Runs.Rerun
import DeclCheck.Proofs.Runs.SelfCheck
import DeclCheck.Proofs.Runs.Severity
import DeclCheck.Proofs.Runs.Spots
import DeclCheck.Proofs.Runs.Statements
import DeclCheck.Proofs.Runs.Synthesized
import DeclCheck.Proofs.Runs.Wanted
import DeclCheck.Proofs.Scope.Ascent
import DeclCheck.Proofs.Scope.Caught
import DeclCheck.Proofs.Scope.Clash
import DeclCheck.Proofs.Scope.Conflict
import DeclCheck.Proofs.Scope.Core
import DeclCheck.Proofs.Scope.EitherOrder
import DeclCheck.Proofs.Scope.History
import DeclCheck.Proofs.Scope.Lasting
import DeclCheck.Proofs.Scope.Markers
import DeclCheck.Proofs.Scope.Named
import DeclCheck.Proofs.Scope.Nesting
import DeclCheck.Proofs.Scope.Opening
import DeclCheck.Proofs.Scope.Origins
import DeclCheck.Proofs.Scope.Passing
import DeclCheck.Proofs.Scope.Record
import DeclCheck.Proofs.Scope.Redeclared
import DeclCheck.Proofs.Scope.Region
import DeclCheck.Proofs.Scope.Renumbered
import DeclCheck.Proofs.Scope.Repeated
import DeclCheck.Proofs.Scope.Resolution
import DeclCheck.Proofs.Scope.Side
import DeclCheck.Proofs.Scope.Soundness
import DeclCheck.Proofs.Scope.Tables
import DeclCheck.Proofs.Scope.TopLevel
import DeclCheck.Proofs.Scope.Twin
import DeclCheck.Proofs.Settings.Chain
import DeclCheck.Proofs.Settings.Commented
import DeclCheck.Proofs.Settings.Loading
import DeclCheck.Proofs.Settings.Merging
import DeclCheck.Proofs.Settings.Nearest
import DeclCheck.Proofs.Settings.Tables
import DeclCheck.Proofs.Source.Lines
import DeclCheck.Proofs.Source.Positions
import DeclCheck.Proofs.Token.Comments
import DeclCheck.Proofs.Token.Distinct
import DeclCheck.Proofs.Token.Extent
import DeclCheck.Proofs.Token.Faults
import DeclCheck.Proofs.Token.LineBreaks
import DeclCheck.Proofs.Token.Longest
import DeclCheck.Proofs.Token.Quoted
import DeclCheck.Proofs.Token.Scanning
import DeclCheck.Proofs.Token.Sessions
import DeclCheck.Proofs.Token.Spelling
import DeclCheck.Proofs.Token.Text
import DeclCheck.Scope.Declare
import DeclCheck.Scope.Tree
import DeclCheck.Settings.Document
import DeclCheck.Settings.Error
import DeclCheck.Settings.Language
import DeclCheck.Settings.LevelTable
import DeclCheck.Settings.Load
import DeclCheck.Settings.LogStyle
import DeclCheck.Settings.Options
import DeclCheck.Source.LineMap
import DeclCheck.Source.Span
import DeclCheck.Text.Whitespace
import DeclCheck.Token.Kind
import DeclCheck.Token.Lexer
