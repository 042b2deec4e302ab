import ShotTally.Main
import ShotTally.Proofs.Rule.Grammar
import ShotTally.Proofs.Rule.Postfix
import ShotTally.Proofs.Rule.Reading
import ShotTally.Proofs.Rule.Expansion
import ShotTally.Proofs.Rule.HalfRead
import ShotTally.Proofs.Rule.Acceptance
import ShotTally.Proofs.Codec.RoundTrip
import ShotTally.Proofs.Json.Unambiguous
import ShotTally.Proofs.Cache.Key
import ShotTally.Proofs.Notice
import ShotTally.Proofs.Run.Job
import ShotTally.Proofs.Run.Plain
import ShotTally.Proofs.Cache.Block
import ShotTally.Proofs.Run.Names
import ShotTally.Proofs.Cache.Dependable
import ShotTally.Proofs.Run.Pieces
import ShotTally.Proofs.Run.Keeping
import ShotTally.Proofs.Run.Recalling
import ShotTally.Proofs.Run.Session
import ShotTally.Proofs.Run.Transparency
import ShotTally.Proofs.Text.Split
import ShotTally.Proofs.Disk.Location
import ShotTally.Proofs.Cache.PlainFolder
import ShotTally.Proofs.Number.Exact
import ShotTally.Proofs.Statistics.Blocks
import ShotTally.Proofs.Statistics.Means
import ShotTally.Proofs.Bucket.Evenness
import ShotTally.Proofs.Statistics.Joining
import ShotTally.Proofs.Run.Exactness
import ShotTally.Proofs.Run.Meaning
import ShotTally.Proofs.Run.Configuration
import ShotTally.Proofs.Rule.Asking
import ShotTally.Proofs.Rule.Eager
import ShotTally.Proofs.Rule.Deferring
import ShotTally.Proofs.Rule.Settling
import ShotTally.Proofs.Codec.Delimiting
import ShotTally.Proofs.Shot.Bytes
import ShotTally.Proofs.Shot.Arrays
import ShotTally.Proofs.Tensor.RowView
import ShotTally.Proofs.Slice.Rows
import ShotTally.Proofs.Condition.Partition
import ShotTally.Proofs.Bucket.Contents
import ShotTally.Proofs.Rule.Spanning
import ShotTally.Proofs.Statistics.Tables
import ShotTally.Proofs.Bucket.Safety
import ShotTally.Proofs.Bucket.Places
import ShotTally.Proofs.Run.Rules
import ShotTally.Proofs.Number.Comoment
import ShotTally.Proofs.Statistics.TwoPass
import ShotTally.Proofs.Statistics.Pooling
import ShotTally.Proofs.Statistics.Samples
import ShotTally.Proofs.Statistics.Bracketing
import ShotTally.Proofs.Statistics.Batches
import ShotTally.Proofs.Statistics.Totals
import ShotTally.Proofs.Bucket.Moments
import ShotTally.Proofs.Run.Moments
import ShotTally.Proofs.Cache.Collision
import ShotTally.Proofs.Slice.Entries
import ShotTally.Proofs.Bucket.Slicing
import ShotTally.Proofs.Run.SideBySide
import ShotTally.Proofs.Run.Slicing
import ShotTally.Proofs.Condition.Folding
import ShotTally.Proofs.Bucket.Folding
import ShotTally.Proofs.Statistics.Together
import ShotTally.Proofs.Run.Splitting
import ShotTally.Proofs.Disk.Writing
import ShotTally.Proofs.Cache.Stock
import ShotTally.Proofs.Cache.Deposits
import ShotTally.Proofs.Cache.Cutting
import ShotTally.Proofs.Run.Tracing
import ShotTally.Proofs.Run.Gathering
import ShotTally.Proofs.Run.Filling
import ShotTally.Proofs.Run.Growing
import ShotTally.Proofs.Run.Accounting
import ShotTally.Proofs.Run.Asking
import ShotTally.Proofs.Run.Interruption
import ShotTally.Proofs.Run.Grouping
import ShotTally.Proofs.Run.Report
import ShotTally.Proofs.Run.Noticing
import ShotTally.Proofs.Run.Warnings
import ShotTally.Proofs.Condition.Lowest
import ShotTally.Proofs.Condition.Detection
import ShotTally.Proofs.Statistics.Filtering
import ShotTally.Proofs.Rule.Pointing
import ShotTally.Proofs.Number.Packing
import ShotTally.Proofs.Number.Counting
import ShotTally.Proofs.Number.Order
import ShotTally.Proofs.Condition.Missing
import ShotTally.Proofs.Slice.Reading
import ShotTally.Proofs.Slice.Progression
import ShotTally.Proofs.Slice.Elements
import ShotTally.Proofs.Tensor.Joining
import ShotTally.Proofs.Tensor.Program
import ShotTally.Proofs.Rule.Questions
import ShotTally.Proofs.Rule.Equality
import ShotTally.Proofs.Text.Order
import ShotTally.Proofs.Json.Canonical
import ShotTally.Proofs.Slice.Text
import ShotTally.Proofs.Disk.Components
import ShotTally.Proofs.Cache.WorkFolder
import ShotTally.Proofs.Text.Padding
import ShotTally.Proofs.Shot.Store
import ShotTally.Proofs.Synthetic
import ShotTally.Proofs.Number.Word
import ShotTally.Proofs.Tensor.Cursor
import ShotTally.Proofs.Slice.Walking
