import Lookahead.Text.CodeRange
import Lookahead.Text.Alphanumeric
import Lookahead.Text.Blank
import Lookahead.Text.Lines
import Lookahead.Text.Words
import Lookahead.IndexSet
import Lookahead.Grammar.Rules
import Lookahead.Grammar.Error
import Lookahead.Grammar.RuleForm
import Lookahead.Grammar.RuleLine
import Lookahead.Grammar.Basic
import Lookahead.Grammar.Interning
import Lookahead.Derivation
import Lookahead.Fixpoint
import Lookahead.Sets.Table
import Lookahead.Sets.First
import Lookahead.Sets.Follow
import Lookahead.LeftCorner.Search
import Lookahead.LeftCorner.Recursion
import Lookahead.LeftCorner.Links
import Lookahead.Analysis
import Lookahead.Log
import Lookahead.Sets.Loop
import Lookahead.Json.Basic
import Lookahead.Json.Quoted
import Lookahead.Json.Denotation
import Lookahead.Json.Reader
import Lookahead.Json.RoundTrip
import Lookahead.Latex
import Lookahead.Report.Format
import Lookahead.Report.Productions
import Lookahead.Report.Sets
import Lookahead.Lookups
import Lookahead.CommandLine.Arguments
import Lookahead.CommandLine.Help
import Lookahead.CommandLine.Input
import Lookahead.CommandLine.Directory
import Lookahead.CommandLine.Run
import Lookahead.CommandLine.Session
import Lookahead.Main
import Lookahead.Proofs.Text.Encoding
import Lookahead.Proofs.Text.Joined
import Lookahead.Proofs.Text.Layout
import Lookahead.Proofs.Text.Separators
import Lookahead.Proofs.FirstOccurrences
import Lookahead.Proofs.Grammar.WellFormed
import Lookahead.Proofs.Grammar.Interning
import Lookahead.Proofs.Grammar.Resolution
import Lookahead.Proofs.Grammar.Spelling
import Lookahead.Proofs.Grammar.Representation
import Lookahead.Proofs.Grammar.RuleLines
import Lookahead.Proofs.Grammar.LineWords
import Lookahead.Proofs.Grammar.Relaid
import Lookahead.Proofs.Derivation
import Lookahead.Proofs.Sets.Passes
import Lookahead.Proofs.Sets.PassCount
import Lookahead.Proofs.Sets.First
import Lookahead.Proofs.Sets.Follow
import Lookahead.Proofs.Sets.Nonempty
import Lookahead.Proofs.Sets.Expansion
import Lookahead.Proofs.Sets.SameDerivations
import Lookahead.Proofs.LeftCorner.Cycle
import Lookahead.Proofs.LeftCorner.LeftRecursive
import Lookahead.Proofs.LeftCorner.SameCorners
import Lookahead.Proofs.LeftCorner.Links
import Lookahead.Proofs.LeftCorner.Chain
import Lookahead.Proofs.Embedding
import Lookahead.Proofs.Grammar.Labels
import Lookahead.Proofs.Grammar.Extension
import Lookahead.Proofs.Grammar.RuleOrder
import Lookahead.Proofs.Grammar.Renaming
import Lookahead.Proofs.Grammar.EmptyMarked
import Lookahead.Proofs.LeftCorner.EmptyMarked
import Lookahead.Proofs.Grammar.Padding
import Lookahead.Proofs.Grammar.AddedAlternatives
import Lookahead.Proofs.ClosedPart
import Lookahead.Proofs.Grammar.FreshRule
import Lookahead.Proofs.Grammar.NewStart
import Lookahead.Proofs.Report.RowLine
import Lookahead.Proofs.Report.PlainProductions
import Lookahead.Proofs.Report.Columns
import Lookahead.Proofs.Report.JsonProductions
import Lookahead.Proofs.Report.JsonSummary
import Lookahead.Proofs.Report.SetRows
import Lookahead.Proofs.Latex
import Lookahead.Proofs.Report.LatexTables
import Lookahead.Proofs.Lookups
import Lookahead.Proofs.CommandLine.Arguments
import Lookahead.Proofs.CommandLine.Run
import Lookahead.Proofs.CommandLine.Input
import Lookahead.Proofs.CommandLine.Printing
import Lookahead.Proofs.CommandLine.Verbosity
import Lookahead.Proofs.CommandLine.Outputs
