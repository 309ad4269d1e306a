import SqlReview.Analysis
import SqlReview.CommandLine.Arguments
import SqlReview.CommandLine.Log
import SqlReview.CommandLine.Run
import SqlReview.Failure
import SqlReview.FileTree
import SqlReview.Lexical.Comment
import SqlReview.Lexical.Literal
import SqlReview.Lexical.Quote
import SqlReview.Lexical.Script
import SqlReview.Main
import SqlReview.Proofs.Analysis.Appearance
import SqlReview.Proofs.Analysis.Comments
import SqlReview.Proofs.Analysis.Script
import SqlReview.Proofs.Checked.Analysis
import SqlReview.Proofs.Checked.FromList
import SqlReview.Proofs.Checked.Names
import SqlReview.Proofs.Checked.Query
import SqlReview.Proofs.Checked.Rule
import SqlReview.Proofs.Checked.Text
import SqlReview.Proofs.CommandLine.Run
import SqlReview.Proofs.Lexical.Blanked
import SqlReview.Proofs.Lexical.Case
import SqlReview.Proofs.Lexical.Ending
import SqlReview.Proofs.Lexical.Idle
import SqlReview.Proofs.Lexical.KeywordIn
import SqlReview.Proofs.Lexical.Layout
import SqlReview.Proofs.Lexical.Literal
import SqlReview.Proofs.Lexical.Normalized
import SqlReview.Proofs.Lexical.Plain
import SqlReview.Proofs.Lexical.Region
import SqlReview.Proofs.Lexical.Script
import SqlReview.Proofs.Lexical.Uncommented
import SqlReview.Proofs.Lexical.Whole
import SqlReview.Proofs.Lexical.Written
import SqlReview.Proofs.Query.AggregateCalls
import SqlReview.Proofs.Query.BoundTable
import SqlReview.Proofs.Query.ClauseEnd
import SqlReview.Proofs.Query.Closing
import SqlReview.Proofs.Query.FirstClause
import SqlReview.Proofs.Query.Folded
import SqlReview.Proofs.Query.FromList
import SqlReview.Proofs.Query.Join
import SqlReview.Proofs.Query.JoinModifiers
import SqlReview.Proofs.Query.ListItems
import SqlReview.Proofs.Query.ListParts
import SqlReview.Proofs.Query.ListPass
import SqlReview.Proofs.Query.LiteralMarks
import SqlReview.Proofs.Query.Loosened
import SqlReview.Proofs.Query.LoosenedNames
import SqlReview.Proofs.Query.MainQuery
import SqlReview.Proofs.Query.Margin
import SqlReview.Proofs.Query.Metrics
import SqlReview.Proofs.Query.NameOrigin
import SqlReview.Proofs.Query.Names
import SqlReview.Proofs.Query.NamesAfter
import SqlReview.Proofs.Query.NamesBehind
import SqlReview.Proofs.Query.NestedSelect
import SqlReview.Proofs.Query.NestedTables
import SqlReview.Proofs.Query.Nesting
import SqlReview.Proofs.Query.Passage
import SqlReview.Proofs.Query.Prologue
import SqlReview.Proofs.Query.PrologueEnd
import SqlReview.Proofs.Query.QuotedSpan
import SqlReview.Proofs.Query.Scan
import SqlReview.Proofs.Query.Score
import SqlReview.Proofs.Query.SelectItems
import SqlReview.Proofs.Query.SpacedItems
import SqlReview.Proofs.Query.SpacedParenthesis
import SqlReview.Proofs.Query.Span
import SqlReview.Proofs.Query.SpanMetrics
import SqlReview.Proofs.Query.Standing
import SqlReview.Proofs.Query.Table
import SqlReview.Proofs.Query.TableName
import SqlReview.Proofs.Query.TopLevel
import SqlReview.Proofs.Report.Colour
import SqlReview.Proofs.Report.Lines
import SqlReview.Proofs.Rule.Contents
import SqlReview.Proofs.Rule.Enabled
import SqlReview.Proofs.Rule.Evaluate
import SqlReview.Proofs.Rule.InList
import SqlReview.Proofs.Rule.LeadingWildcard
import SqlReview.Proofs.Rule.ListBytes
import SqlReview.Proofs.Rule.ListTables
import SqlReview.Proofs.Rule.Report
import SqlReview.Proofs.Rule.Searches
import SqlReview.Proofs.Rule.Subquery
import SqlReview.Proofs.Rule.Tidy
import SqlReview.Proofs.Rule.Union
import SqlReview.Proofs.Rule.Wildcard
import SqlReview.Proofs.Rule.WithClause
import SqlReview.Proofs.Rule.Wording
import SqlReview.Proofs.Search.Backtracking
import SqlReview.Proofs.Search.Direct
import SqlReview.Proofs.Search.Ending
import SqlReview.Proofs.Search.ExactWords
import SqlReview.Proofs.Search.Folded
import SqlReview.Proofs.Search.Keyword
import SqlReview.Proofs.Search.Loosened
import SqlReview.Proofs.Search.Margin
import SqlReview.Proofs.Search.Mark
import SqlReview.Proofs.Search.MarkBehind
import SqlReview.Proofs.Search.Occurrence
import SqlReview.Proofs.Search.Offset
import SqlReview.Proofs.Search.Steady
import SqlReview.Proofs.Search.Taken
import SqlReview.Proofs.Search.Word
import SqlReview.Proofs.Settings.Laws
import SqlReview.Proofs.Settings.Layers
import SqlReview.Proofs.Settings.Merge
import SqlReview.Proofs.Settings.UnknownTier
import SqlReview.Proofs.Text.AsciiBytes
import SqlReview.Proofs.Text.Bytes
import SqlReview.Proofs.Text.Folding
import SqlReview.Proofs.Text.Letter
import SqlReview.Proofs.Text.Loosened
import SqlReview.Proofs.Text.LowerCase
import SqlReview.Proofs.Text.Tidy
import SqlReview.Proofs.Text.Trim
import SqlReview.Proofs.Text.WordAt
import SqlReview.Query.Aggregate
import SqlReview.Query.Clause
import SqlReview.Query.Complexity
import SqlReview.Query.FromList
import SqlReview.Query.Join
import SqlReview.Query.Keyword
import SqlReview.Query.Metrics
import SqlReview.Query.Prologue
import SqlReview.Query.SelectList
import SqlReview.Query.Structure
import SqlReview.Query.Subquery
import SqlReview.Query.Table
import SqlReview.Query.TopLevel
import SqlReview.Report.Basic
import SqlReview.Report.Document
import SqlReview.Report.Json
import SqlReview.Report.Plain
import SqlReview.Report.Scalar
import SqlReview.Report.Style
import SqlReview.Report.Yaml
import SqlReview.Rule.Basic
import SqlReview.Rule.Catalogue
import SqlReview.Rule.InList
import SqlReview.Rule.Measured
import SqlReview.Rule.Severity
import SqlReview.Rule.Textual
import SqlReview.Search.Phrase
import SqlReview.Settings.Basic
import SqlReview.Settings.Data
import SqlReview.Text.Alphabetic
import SqlReview.Text.Ascii
import SqlReview.Text.Blank
import SqlReview.Text.Bytes
import SqlReview.Text.Cased
import SqlReview.Text.Decimal
import SqlReview.Text.LowerCase
import SqlReview.Text.Mark
import SqlReview.Text.Number
import SqlReview.Text.Ranges
import SqlReview.Text.Recent
import SqlReview.Text.Split
import SqlReview.Text.WordChar
import SqlReview.Toml.Document
import SqlReview.Toml.Lexeme
import SqlReview.Toml.Moment
import SqlReview.Toml.Reader
import SqlReview.Toml.Table
