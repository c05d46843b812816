import FlowLint.Vocabulary
import FlowLint.Binary64
import FlowLint.Json
import FlowLint.Json.Printer
import FlowLint.Json.Reader
import FlowLint.CType
import FlowLint.CType.Codec
import FlowLint.Target
import FlowLint.Format.Directive
import FlowLint.Format.Parser
import FlowLint.Format.Argument
import FlowLint.Snapshot.Expr
import FlowLint.Snapshot.Function
import FlowLint.Source.Codec
import FlowLint.Snapshot.Codec
import FlowLint.Flow.Closure
import FlowLint.Flow.DeadRegion
import FlowLint.Ordered.Map
import FlowLint.Escape.Evaluation
import FlowLint.Escape.Analysis
import FlowLint.Diagnostic
import FlowLint.Diagnostic.Codec
import FlowLint.Report
import FlowLint.Report.Codec
import FlowLint.Format.Registry
import FlowLint.Settings
import FlowLint.Text.Digits
import FlowLint.Yaml
import FlowLint.Yaml.Reader
import FlowLint.Settings.Codec
import FlowLint.Settings.File
import FlowLint.Check.FormatString
import FlowLint.Check.StackEscape
import FlowLint.Check.UnreachableCode
import FlowLint.Analysis
import FlowLint.CommandLine
import FlowLint.Main
import FlowLint.Proofs.Flow.Rescan
import FlowLint.Proofs.Flow.Revival
import FlowLint.Proofs.Flow.Prune
import FlowLint.Proofs.Escape.Path
import FlowLint.Proofs.Escape.Convergence
import FlowLint.Proofs.Escape.DeadEnd
import FlowLint.Proofs.Flow.DeadRegion
import FlowLint.Proofs.Flow.DeadLinks
import FlowLint.Proofs.Flow.Trim
import FlowLint.Proofs.Format.Grammar
import FlowLint.Proofs.Format.Parser
import FlowLint.Proofs.Format.Concatenation
import FlowLint.Proofs.Yaml.Value
import FlowLint.Proofs.Settings.File
import FlowLint.Proofs.Flow.BlockOrder
import FlowLint.Proofs.Escape.BlockOrder
import FlowLint.Proofs.Yaml.Words
import FlowLint.Proofs.Yaml.Scanner
import FlowLint.Proofs.Yaml.Reader
import FlowLint.Proofs.Flow.Roots
import FlowLint.Proofs.Analysis.Cap
import FlowLint.Proofs.Escape.Coverage
import FlowLint.Proofs.Escape.Landing
import FlowLint.Proofs.Json.Fields
import FlowLint.Proofs.CType.Codec
import FlowLint.Proofs.Snapshot.Codec
import FlowLint.Proofs.Format.Registry
import FlowLint.Proofs.Format.Slots
import FlowLint.Proofs.Format.Admission
import FlowLint.Proofs.Format.CorrectCall
import FlowLint.Proofs.Analysis.Targets
import FlowLint.Proofs.Format.Reordering
import FlowLint.Proofs.Format.Wrappers
import FlowLint.Proofs.Report.Canonical
import FlowLint.Proofs.Snapshot.Expr
import FlowLint.Proofs.Snapshot.Renaming
import FlowLint.Proofs.Flow.Faults
import FlowLint.Proofs.Escape.Store
import FlowLint.Proofs.Analysis.Isolation
import FlowLint.Proofs.Escape.Sources
import FlowLint.Proofs.Escape.Objects
import FlowLint.Proofs.Escape.Aggregate
import FlowLint.Proofs.Escape.Aliases
import FlowLint.Proofs.Flow.Cause
import FlowLint.Proofs.Report.FailureLog
import FlowLint.Proofs.Format.Encoding
import FlowLint.Proofs.Json.Text
import FlowLint.Proofs.Report.Codec
import FlowLint.Proofs.Text.EditDistance
import FlowLint.Proofs.Escape.Join
import FlowLint.Proofs.Snapshot.Calls
