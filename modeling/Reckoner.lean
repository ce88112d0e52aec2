import Reckoner.Arguments
import Reckoner.Bytes
import Reckoner.Checked
import Reckoner.Decimal
import Reckoner.Decimal.Bounded
import Reckoner.Diagnostic
import Reckoner.Evaluation
import Reckoner.Event
import Reckoner.Fault
import Reckoner.FileSystem.Access
import Reckoner.FileSystem.Layout
import Reckoner.FileSystem.Resolve
import Reckoner.FileSystem.Route
import Reckoner.FileSystem.Tree
import Reckoner.IoError
import Reckoner.Job
import Reckoner.Line
import Reckoner.Main
import Reckoner.Occurrence
import Reckoner.Operation
import Reckoner.Pattern
import Reckoner.Pieces
import Reckoner.Program
import Reckoner.Proofs.Accounting
import Reckoner.Proofs.Buffering
import Reckoner.Proofs.Clearing
import Reckoner.Proofs.CommandLine
import Reckoner.Proofs.Context
import Reckoner.Proofs.Cutoff
import Reckoner.Proofs.Decoding
import Reckoner.Proofs.Endings
import Reckoner.Proofs.Exactness
import Reckoner.Proofs.Filling
import Reckoner.Proofs.FirstExpression
import Reckoner.Proofs.Joining
import Reckoner.Proofs.Labels
import Reckoner.Proofs.Lines
import Reckoner.Proofs.Lookup
import Reckoner.Proofs.LossyDecoding
import Reckoner.Proofs.Numerals
import Reckoner.Proofs.OnTree
import Reckoner.Proofs.Opening
import Reckoner.Proofs.Outcome
import Reckoner.Proofs.PatternSearch
import Reckoner.Proofs.Refusal
import Reckoner.Proofs.Repetition
import Reckoner.Proofs.Run
import Reckoner.Proofs.SourceSpans
import Reckoner.Proofs.Splitting
import Reckoner.Proofs.Trace
import Reckoner.Proofs.WholeProgram
import Reckoner.Proofs.WrittenForm
import Reckoner.Record
import Reckoner.Report
import Reckoner.Sink
import Reckoner.Sink.Buffered
import Reckoner.Sink.Tank
import Reckoner.Text.Lossy
import Reckoner.Text.Plain
import Reckoner.Transcript
import Reckoner.Verdict
