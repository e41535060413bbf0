import Adjudication.Text.Blank
import Adjudication.Text.Quoted
import Adjudication.Text.Utf8
import Adjudication.Decimal.Layout
import Adjudication.Decimal.Numeral
import Adjudication.Json.Reader
import Adjudication.Json.Writer
import Adjudication.Json.Display
import Adjudication.Schema.Scalar
import Adjudication.Time.Timestamp
import Adjudication.Report.Basic
import Adjudication.Source
import Adjudication.Template
import Adjudication.Time.Timeline
import Adjudication.Config.Basic
import Adjudication.Judge.Prompt
import Adjudication.Files.Tree
import Adjudication.Failure
import Adjudication.Analyzer.Command
import Adjudication.Analyzer.Results
import Adjudication.Judge.Client
import Adjudication.Export.Delivery
import Adjudication.Staging
import Adjudication.Analyzer.Execution
import Adjudication.Judge.Task
import Adjudication.Verification
import Adjudication.Yaml.Token.Scalar
import Adjudication.Yaml.Token.Basic
import Adjudication.Yaml.Token.Lexer
import Adjudication.Decimal.Literal
import Adjudication.Yaml.Node
import Adjudication.Text.Base64
import Adjudication.Yaml.Scalar
import Adjudication.Yaml.Value
import Adjudication.Config.Loading
import Adjudication.CommandLine.Arguments
import Adjudication.CommandLine.Session
import Adjudication.Recording
import Adjudication.Main
import Adjudication.Text.Case
import Adjudication.Proofs.Act
import Adjudication.Proofs.Judge.Client
import Adjudication.Proofs.Judge.Limits
import Adjudication.Proofs.Judge.Order
import Adjudication.Proofs.Limits
import Adjudication.Proofs.Analyzer.Acceptance
import Adjudication.Proofs.Analyzer.Execution
import Adjudication.Proofs.Analyzer.Paths
import Adjudication.Proofs.Analyzer.Results
import Adjudication.Proofs.CommandLine.Session
import Adjudication.Proofs.Config.Loading
import Adjudication.Proofs.Export.Document
import Adjudication.Proofs.Export.Lines
import Adjudication.Proofs.Staging.Isolation
import Adjudication.Proofs.Time.Calendar
import Adjudication.Proofs.Time.Operations
import Adjudication.Proofs.Verification.Containment
import Adjudication.Proofs.Verification.Fingerprints
import Adjudication.Proofs.Verification.Reading
import Adjudication.Proofs.Verification.Release
import Adjudication.Proofs.Verification.Report
import Adjudication.Proofs.Analyzer.Polling
import Adjudication.Proofs.CommandLine.Clients
import Adjudication.Proofs.Export.Agreement
import Adjudication.Proofs.Time.Waiting
import Adjudication.Proofs.Judge.Confidences
import Adjudication.Proofs.Verification.Audit
import Adjudication.Proofs.Analyzer.Locations
import Adjudication.Proofs.Judge.Timely
import Adjudication.Proofs.Judge.Prompt
import Adjudication.Proofs.CommandLine.Deadlines
import Adjudication.Proofs.Analyzer.Command
import Adjudication.Proofs.Export.Rules
import Adjudication.Proofs.Export.Regions
import Adjudication.Proofs.Config.Overriding
import Adjudication.Proofs.Verification.Sight
import Adjudication.Proofs.Staging.Names
import Adjudication.Proofs.Staging.Nesting
import Adjudication.Proofs.Export.Targets
import Adjudication.Proofs.CommandLine.Closing
import Adjudication.Proofs.Time.Elapsed
import Adjudication.Proofs.Judge.Budget
import Adjudication.Proofs.Json.LineEnds
import Adjudication.Proofs.Analyzer.LineEnds
import Adjudication.Proofs.Retry.Calls
