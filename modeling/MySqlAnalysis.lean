import MySqlAnalysis.Analysis
import MySqlAnalysis.Config.Basic
import MySqlAnalysis.Config.Json
import MySqlAnalysis.Config.Serialization
import MySqlAnalysis.Diagnostic
import MySqlAnalysis.Grammar.Change
import MySqlAnalysis.Grammar.Expression
import MySqlAnalysis.Grammar.Machine
import MySqlAnalysis.Grammar.Name
import MySqlAnalysis.Grammar.Parse
import MySqlAnalysis.Grammar.Phrase
import MySqlAnalysis.Grammar.Program
import MySqlAnalysis.Grammar.Query
import MySqlAnalysis.Grammar.Report
import MySqlAnalysis.Grammar.Schema
import MySqlAnalysis.Grammar.Script
import MySqlAnalysis.Grammar.Session
import MySqlAnalysis.Json.Notation
import MySqlAnalysis.Json.Quoted
import MySqlAnalysis.Json.Value
import MySqlAnalysis.Keyword.Basic
import MySqlAnalysis.Keyword.Policy
import MySqlAnalysis.Keyword.Vocabulary
import MySqlAnalysis.Proofs.Analysis.KeywordTokens
import MySqlAnalysis.Proofs.Analysis.TwoPass
import MySqlAnalysis.Proofs.Config.ModeText
import MySqlAnalysis.Proofs.Config.RoundTrip
import MySqlAnalysis.Proofs.Config.VersionNumbers
import MySqlAnalysis.Proofs.Grammar.Acceptance
import MySqlAnalysis.Proofs.Grammar.ArenaShape
import MySqlAnalysis.Proofs.Grammar.Attempts
import MySqlAnalysis.Proofs.Grammar.Balanced
import MySqlAnalysis.Proofs.Grammar.Bodies
import MySqlAnalysis.Proofs.Grammar.Building
import MySqlAnalysis.Proofs.Grammar.Climbing
import MySqlAnalysis.Proofs.Grammar.Completion
import MySqlAnalysis.Proofs.Grammar.Doubts
import MySqlAnalysis.Proofs.Grammar.Evaluation
import MySqlAnalysis.Proofs.Grammar.ExactSpans
import MySqlAnalysis.Proofs.Grammar.ExpectedKinds
import MySqlAnalysis.Proofs.Grammar.ExpressionShapes
import MySqlAnalysis.Proofs.Grammar.Facts
import MySqlAnalysis.Proofs.Grammar.Filled
import MySqlAnalysis.Proofs.Grammar.Flow
import MySqlAnalysis.Proofs.Grammar.Formula
import MySqlAnalysis.Proofs.Grammar.Groups
import MySqlAnalysis.Proofs.Grammar.Joined
import MySqlAnalysis.Proofs.Grammar.Leading
import MySqlAnalysis.Proofs.Grammar.Leaves
import MySqlAnalysis.Proofs.Grammar.Lookahead
import MySqlAnalysis.Proofs.Grammar.Nesting
import MySqlAnalysis.Proofs.Grammar.NodeSpans
import MySqlAnalysis.Proofs.Grammar.PlainColumns
import MySqlAnalysis.Proofs.Grammar.Precedence
import MySqlAnalysis.Proofs.Grammar.Prediction
import MySqlAnalysis.Proofs.Grammar.Preorder
import MySqlAnalysis.Proofs.Grammar.Reaction
import MySqlAnalysis.Proofs.Grammar.Reading
import MySqlAnalysis.Proofs.Grammar.ReportOrder
import MySqlAnalysis.Proofs.Grammar.Rounds
import MySqlAnalysis.Proofs.Grammar.Shapes
import MySqlAnalysis.Proofs.Grammar.Siblings
import MySqlAnalysis.Proofs.Grammar.Spacing
import MySqlAnalysis.Proofs.Grammar.Sparing
import MySqlAnalysis.Proofs.Grammar.StatementEnd
import MySqlAnalysis.Proofs.Grammar.Steady
import MySqlAnalysis.Proofs.Grammar.Strategy
import MySqlAnalysis.Proofs.Grammar.Survey
import MySqlAnalysis.Proofs.Grammar.Termination
import MySqlAnalysis.Proofs.Grammar.Terminators
import MySqlAnalysis.Proofs.Grammar.Twins
import MySqlAnalysis.Proofs.Json.Reading
import MySqlAnalysis.Proofs.Json.Written
import MySqlAnalysis.Proofs.QueryType.Agreement
import MySqlAnalysis.Proofs.QueryType.CleanStart
import MySqlAnalysis.Proofs.QueryType.Describing
import MySqlAnalysis.Proofs.QueryType.Queries
import MySqlAnalysis.Proofs.QueryType.Reading
import MySqlAnalysis.Proofs.QueryType.Skimming
import MySqlAnalysis.Proofs.QueryType.Wording
import MySqlAnalysis.Proofs.Reference.Collected
import MySqlAnalysis.Proofs.Reference.ComparedColumns
import MySqlAnalysis.Proofs.Reference.Inference
import MySqlAnalysis.Proofs.Reference.Linked
import MySqlAnalysis.Proofs.Reference.Placement
import MySqlAnalysis.Proofs.Reference.Recorded
import MySqlAnalysis.Proofs.Reference.Scope
import MySqlAnalysis.Proofs.Reference.SelectAliases
import MySqlAnalysis.Proofs.Reference.Waiting
import MySqlAnalysis.Proofs.Reference.WellFormed
import MySqlAnalysis.Proofs.Script.BareText
import MySqlAnalysis.Proofs.Script.Directives
import MySqlAnalysis.Proofs.Script.Elements
import MySqlAnalysis.Proofs.Script.Fillers
import MySqlAnalysis.Proofs.Script.Regular
import MySqlAnalysis.Proofs.Script.Rows
import MySqlAnalysis.Proofs.Script.StatementSpans
import MySqlAnalysis.Proofs.Script.StatementTokens
import MySqlAnalysis.Proofs.Script.Stretches
import MySqlAnalysis.Proofs.Text.Bytes
import MySqlAnalysis.Proofs.Text.Trimming
import MySqlAnalysis.Proofs.Token.Alone
import MySqlAnalysis.Proofs.Token.Cursor
import MySqlAnalysis.Proofs.Token.Extent
import MySqlAnalysis.Proofs.Token.Listing
import MySqlAnalysis.Proofs.Token.OpenComments
import MySqlAnalysis.Proofs.Token.Positions
import MySqlAnalysis.Proofs.Token.Quoting
import MySqlAnalysis.Proofs.Token.Regions
import MySqlAnalysis.Proofs.Token.Solid
import MySqlAnalysis.Proofs.Token.Spans
import MySqlAnalysis.Proofs.Token.Tiling
import MySqlAnalysis.Proofs.Token.VersionComments
import MySqlAnalysis.Proofs.Token.Words
import MySqlAnalysis.Proofs.Tree.ArenaWalk
import MySqlAnalysis.Proofs.Tree.Building
import MySqlAnalysis.Proofs.Tree.Inside
import MySqlAnalysis.Proofs.Tree.Lineage
import MySqlAnalysis.Proofs.Tree.Places
import MySqlAnalysis.Proofs.Tree.Shape
import MySqlAnalysis.Proofs.Tree.Stored
import MySqlAnalysis.QueryType.Basic
import MySqlAnalysis.QueryType.Classify
import MySqlAnalysis.Reference.Basic
import MySqlAnalysis.Reference.Collect
import MySqlAnalysis.Reference.Infer
import MySqlAnalysis.Script.Piece
import MySqlAnalysis.Script.Statement
import MySqlAnalysis.SqlMode
import MySqlAnalysis.SyntaxEvent
import MySqlAnalysis.Text.Characters
import MySqlAnalysis.Text.Offset
import MySqlAnalysis.Text.Search
import MySqlAnalysis.Token.Basic
import MySqlAnalysis.Token.Recognize
import MySqlAnalysis.Token.Stream
import MySqlAnalysis.Token.Tokenize
import MySqlAnalysis.Tree.Arena
import MySqlAnalysis.Tree.Basic
import MySqlAnalysis.Tree.Builder
import MySqlAnalysis.Tree.Document
import MySqlAnalysis.Tree.Rule
import MySqlAnalysis.Tree.Walk
import MySqlAnalysis.Version
