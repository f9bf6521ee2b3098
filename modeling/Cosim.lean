import Cosim.Word
import Cosim.Fault
import Cosim.Error
import Cosim.Record
import Cosim.Snapshot
import Cosim.Exchange
import Cosim.Pool
import Cosim.Source
import Cosim.Reader
import Cosim.Assembler
import Cosim.Device
import Cosim.Journal
import Cosim.Golden
import Cosim.Checker
import Cosim.Watchdog
import Cosim.Trace
import Cosim.Outcome
import Cosim.Session
import Cosim.Stepper
import Cosim.Script
import Cosim.Pipeline
import Cosim.Numeral
import Cosim.Hex
import Cosim.Metrics
import Cosim.Decimal.Binary
import Cosim.Decimal.Fixed
import Cosim.Decimal.Shortest
import Cosim.Decimal.Read
import Cosim.Text.Printable
import Cosim.Text.Blank
import Cosim.Text.Quoted
import Cosim.Text.Utf8
import Cosim.Text.Base64
import Cosim.Yaml.Cursor
import Cosim.Yaml.Lexeme
import Cosim.Yaml.Token
import Cosim.Yaml.Node
import Cosim.Yaml.Timestamp
import Cosim.Yaml.Scalar
import Cosim.Yaml.Schema
import Cosim.Yaml.Written
import Cosim.Report
import Cosim.Flag
import Cosim.Config
import Cosim.Files
import Cosim.Supervisor
import Cosim.CommandLine
import Cosim.Main
import Cosim.Proofs.Ownership
import Cosim.Proofs.Handover
import Cosim.Proofs.RunControl
import Cosim.Proofs.Watchdog
import Cosim.Proofs.Sections
import Cosim.Proofs.Endings
import Cosim.Proofs.Chronicle
import Cosim.Proofs.Pool
import Cosim.Proofs.Custody
import Cosim.Proofs.Ledger
import Cosim.Proofs.Stream
import Cosim.Proofs.Supply
import Cosim.Proofs.Assembly
import Cosim.Proofs.Workers
import Cosim.Proofs.Frames
import Cosim.Proofs.Progress
import Cosim.Proofs.Delivery
import Cosim.Proofs.Liveness
import Cosim.Proofs.Halting
import Cosim.Proofs.Shutdown
import Cosim.Proofs.Acts
import Cosim.Proofs.Budget
import Cosim.Proofs.Schedules
import Cosim.Proofs.Verdict
import Cosim.Proofs.Supervision
import Cosim.Proofs.Accounts
import Cosim.Proofs.Refinement
import Cosim.Proofs.Rounds
import Cosim.Proofs.Completion
import Cosim.Proofs.Conclusion
import Cosim.Proofs.Histories
import Cosim.Proofs.Agreement
import Cosim.Proofs.Codec
import Cosim.Proofs.Statistics
import Cosim.Proofs.Twins
import Cosim.Proofs.Displays
import Cosim.Proofs.Rows
import Cosim.Proofs.Numerals
import Cosim.Proofs.Hexadecimal
import Cosim.Proofs.Layers
import Cosim.Proofs.Dimensions
import Cosim.Proofs.Backpressure
import Cosim.Proofs.Register
import Cosim.Proofs.Checking
import Cosim.Proofs.Ceiling
import Cosim.Proofs.Presence
import Cosim.Proofs.Arrivals
import Cosim.Proofs.Loading
import Cosim.Proofs.Comparison
import Cosim.Proofs.Explanations
import Cosim.Proofs.Calls
import Cosim.Proofs.Recording
import Cosim.Proofs.Batches
import Cosim.Proofs.Framing
import Cosim.Proofs.Leaks
