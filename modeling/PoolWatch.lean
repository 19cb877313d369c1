import PoolWatch.Axis.Label
import PoolWatch.Axis.Step
import PoolWatch.Axis.Ticks
import PoolWatch.Calendar
import PoolWatch.Chart
import PoolWatch.Color
import PoolWatch.Console
import PoolWatch.Dashboard
import PoolWatch.Decimal.Notation
import PoolWatch.Decimal.Shortest
import PoolWatch.Feed
import PoolWatch.Fetch
import PoolWatch.History
import PoolWatch.Http.Answer
import PoolWatch.Http.Chunks
import PoolWatch.Http.Head
import PoolWatch.Http.Host
import PoolWatch.Http.Line
import PoolWatch.Http.Request
import PoolWatch.Http.Url
import PoolWatch.Json.Number
import PoolWatch.Json.Pass
import PoolWatch.Json.Problem
import PoolWatch.Json.Record
import PoolWatch.Json.Text
import PoolWatch.Main
import PoolWatch.Mark
import PoolWatch.Metric
import PoolWatch.Numeric.Checked
import PoolWatch.Numeric.Parts
import PoolWatch.Outcome
import PoolWatch.Poller
import PoolWatch.Poller.Clock
import PoolWatch.Poller.Observer
import PoolWatch.Poller.Policy
import PoolWatch.Poller.Wait
import PoolWatch.Pool
import PoolWatch.Pool.Arrange
import PoolWatch.Report
import PoolWatch.Series
import PoolWatch.Series.Reduction
import PoolWatch.Settings
import PoolWatch.Svg
import PoolWatch.Text.AsciiForm
import PoolWatch.Text.Base64
import PoolWatch.Text.Blank
import PoolWatch.Text.Quoted
import PoolWatch.Text.Unprintable
import PoolWatch.Text.Utf8
import PoolWatch.Proofs.Poller.Course
import PoolWatch.Proofs.Poller.Account
import PoolWatch.Proofs.Poller.Balance
import PoolWatch.Proofs.Poller.Display
import PoolWatch.Proofs.Poller.Isolation
import PoolWatch.Proofs.Poller.Overlap
import PoolWatch.Proofs.Poller.Notification
import PoolWatch.Proofs.Poller.Story
import PoolWatch.Proofs.Poller.Delivery
import PoolWatch.Proofs.Poller.Settlement
import PoolWatch.Proofs.Poller.Dropping
import PoolWatch.Proofs.Poller.Waiting
import PoolWatch.Proofs.Numeric.FloatOrder
import PoolWatch.Proofs.History.Log
import PoolWatch.Proofs.History.Recording
import PoolWatch.Proofs.History.NaiveLog
import PoolWatch.Proofs.History.Keys
import PoolWatch.Proofs.History.Commuting
import PoolWatch.Proofs.Feed.Feeding
import PoolWatch.Proofs.Feed.Programs
import PoolWatch.Proofs.Poller.Interleaving
import PoolWatch.Proofs.Poller.Concurrency
import PoolWatch.Proofs.Poller.Timing
import PoolWatch.Proofs.Poller.Timeline
import PoolWatch.Proofs.Poller.Cadence
import PoolWatch.Proofs.Pool.Arrangement
import PoolWatch.Proofs.Pool.Reordering
import PoolWatch.Proofs.Numeric.FloatPacking
import PoolWatch.Proofs.Axis.Pitch
import PoolWatch.Proofs.Axis.Scale
import PoolWatch.Proofs.Calendar.Dates
import PoolWatch.Proofs.Axis.Multiples
import PoolWatch.Proofs.Axis.Grids
import PoolWatch.Proofs.Axis.Labels
import PoolWatch.Proofs.Axis.Instants
import PoolWatch.Proofs.Axis.Extremes
import PoolWatch.Proofs.Numeric.FloatRounding
import PoolWatch.Proofs.Numeric.FloatValue
import PoolWatch.Proofs.Numeric.FloatQuotient
import PoolWatch.Proofs.Numeric.FloatSum
import PoolWatch.Proofs.Series.Blocks
import PoolWatch.Proofs.Series.Lines
import PoolWatch.Proofs.Series.Budget
import PoolWatch.Proofs.Series.Grid
import PoolWatch.Proofs.Series.Partition
import PoolWatch.Proofs.Series.Overflow
import PoolWatch.Proofs.Series.Windows
import PoolWatch.Proofs.Series.LeastChunk
import PoolWatch.Proofs.Svg.Escaping
import PoolWatch.Proofs.Svg.Markup
import PoolWatch.Proofs.Svg.Documents
import PoolWatch.Proofs.Text.Encoding
import PoolWatch.Proofs.Json.Grammar
import PoolWatch.Proofs.Json.Strings
import PoolWatch.Proofs.Json.Numerals
import PoolWatch.Proofs.Json.Passing
import PoolWatch.Proofs.Json.Readers
import PoolWatch.Proofs.Json.Records
import PoolWatch.Proofs.Numeric.FloatFinite
import PoolWatch.Proofs.Json.Amounts
import PoolWatch.Proofs.Json.Contents
import PoolWatch.Proofs.Json.Writing
import PoolWatch.Proofs.Report.Spelling
import PoolWatch.Proofs.Report.Strictness
import PoolWatch.Proofs.Report.Writing
import PoolWatch.Proofs.Numeric.FloatSame
import PoolWatch.Proofs.History.Repeating
import PoolWatch.Proofs.Fetch.Sessions
import PoolWatch.Proofs.Settings.Numerals
import PoolWatch.Proofs.Settings.Loading
import PoolWatch.Proofs.Series.Extents
import PoolWatch.Proofs.Series.Independence
import PoolWatch.Proofs.Numeric.FloatDivision
import PoolWatch.Proofs.Axis.Thinning
import PoolWatch.Proofs.Series.Spacing
import PoolWatch.Proofs.Series.CommonGrid
