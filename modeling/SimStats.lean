import SimStats.Files.Listing
import SimStats.Main
import SimStats.Suite
import SimStats.Proofs.Tree.Insert
import SimStats.Proofs.Tree.Lines
import SimStats.Proofs.Keyed
import SimStats.Proofs.Path.Split
import SimStats.Proofs.Text.Lines
import SimStats.Proofs.Tree.Flatten
import SimStats.Proofs.Dump.Content
import SimStats.Proofs.Dump.Query
import SimStats.Proofs.Dump.Keys
import SimStats.Proofs.Dump.Isolation
import SimStats.Proofs.Tree.Runs
import SimStats.Proofs.Value
import SimStats.Proofs.Dump.Text
import SimStats.Proofs.Dump.Category
import SimStats.Proofs.Dump.Count
import SimStats.Proofs.Dump.Delimiters
import SimStats.Proofs.Suite
import SimStats.Proofs.Path.Scan
import SimStats.Proofs.Tree.Walk
import SimStats.Proofs.Configuration
import SimStats.Proofs.Arguments
import SimStats.Proofs.Command
import SimStats.Proofs.Line.Grammar
import SimStats.Proofs.Dump.Composition
import SimStats.Proofs.Dump.Outcome
import SimStats.Proofs.Dump.Layout
import SimStats.Proofs.Tree.Keys
import SimStats.Proofs.Tree.Conflict
import SimStats.Proofs.Path.Kept
import SimStats.Proofs.Words
import SimStats.Proofs.Number.Grammar
import SimStats.Proofs.Number.Double
import SimStats.Proofs.Suite.Refusal
import SimStats.Proofs.Report.Columns
import SimStats.Proofs.Report.Object
import SimStats.Proofs.Series
import SimStats.Proofs.Mix
