import PlaybookTidy.Main
import PlaybookTidy.Proofs.Lines
import PlaybookTidy.Proofs.Pass.Naming
import PlaybookTidy.Proofs.Pass.Truthy
import PlaybookTidy.Proofs.Table
import PlaybookTidy.Proofs.Bytes
import PlaybookTidy.Proofs.Merged
import PlaybookTidy.Proofs.Pass.Qualify
import PlaybookTidy.Proofs.Pass.Lookup
import PlaybookTidy.Proofs.Pass.Stability
import PlaybookTidy.Proofs.Pipeline
import PlaybookTidy.Proofs.Locality
import PlaybookTidy.Proofs.References
import PlaybookTidy.Proofs.Discovery
import PlaybookTidy.Proofs.Glob.Pattern
import PlaybookTidy.Proofs.Glob.Search
import PlaybookTidy.Proofs.Joined
import PlaybookTidy.Proofs.Relative
import PlaybookTidy.Proofs.Run.Frame
import PlaybookTidy.Proofs.Run.Rerun
import PlaybookTidy.Proofs.Run.DryRun
import PlaybookTidy.Proofs.Run.Abort
import PlaybookTidy.Proofs.Run.Order
import PlaybookTidy.Proofs.Command.Arguments
import PlaybookTidy.Proofs.Run.Pending
import PlaybookTidy.Proofs.Command.Check
import PlaybookTidy.Proofs.Command.Data
import PlaybookTidy.Proofs.Command.Refused
import PlaybookTidy.Proofs.Command.Exit
import PlaybookTidy.Proofs.Command.Shown
import PlaybookTidy.Proofs.Tally
import PlaybookTidy.Proofs.Commute
import PlaybookTidy.Proofs.Json.Grammar
import PlaybookTidy.Proofs.Json.Unique
import PlaybookTidy.Proofs.Json.Printed
import PlaybookTidy.Proofs.Sorted
import PlaybookTidy.Proofs.Json.Same
import PlaybookTidy.Proofs.Command.Envelope
import PlaybookTidy.Proofs.Json.Scan
import PlaybookTidy.Proofs.Config.Spelling
import PlaybookTidy.Proofs.Config.Reading
import PlaybookTidy.Proofs.Config.Load
import PlaybookTidy.Proofs.Scan
import PlaybookTidy.Proofs.Pass.Assignment
import PlaybookTidy.Proofs.Pass.Letters
import PlaybookTidy.Proofs.Run.Batch
import PlaybookTidy.Proofs.Distinct
import PlaybookTidy.Proofs.Tree.Atomic
import PlaybookTidy.Proofs.Patterns
import PlaybookTidy.Proofs.Command.Selection
import PlaybookTidy.Proofs.Literal
