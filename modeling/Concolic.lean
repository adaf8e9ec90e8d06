import Concolic.Answer
import Concolic.Arith
import Concolic.CommandLine
import Concolic.Condition
import Concolic.Decimal.Double
import Concolic.Decimal.Layout
import Concolic.Decimal.Reading
import Concolic.Decimal.Shortest
import Concolic.Directory
import Concolic.Exploration
import Concolic.Formula
import Concolic.Input
import Concolic.Json.Decode
import Concolic.Json.Parser
import Concolic.Json.Printer
import Concolic.Json.Token
import Concolic.Json.Tree
import Concolic.Json.Value
import Concolic.Lexicon
import Concolic.Limits
import Concolic.Linear
import Concolic.Location
import Concolic.Main
import Concolic.Path
import Concolic.PathFile
import Concolic.Proofs.Admission
import Concolic.Proofs.Alignment
import Concolic.Proofs.Answers
import Concolic.Proofs.Attempts
import Concolic.Proofs.Calls
import Concolic.Proofs.Canonical
import Concolic.Proofs.Characters
import Concolic.Proofs.Decision
import Concolic.Proofs.Declarations
import Concolic.Proofs.Exhaustion
import Concolic.Proofs.Feasible
import Concolic.Proofs.Files
import Concolic.Proofs.Infeasible
import Concolic.Proofs.Iteration
import Concolic.Proofs.Json
import Concolic.Proofs.Lengths
import Concolic.Proofs.Linear
import Concolic.Proofs.Lines
import Concolic.Proofs.Literals
import Concolic.Proofs.Marks
import Concolic.Proofs.Meaning
import Concolic.Proofs.Numeral
import Concolic.Proofs.Order
import Concolic.Proofs.Persistence
import Concolic.Proofs.Presentation
import Concolic.Proofs.Printing
import Concolic.Proofs.Program
import Concolic.Proofs.Recorded
import Concolic.Proofs.Reordering
import Concolic.Proofs.Repetition
import Concolic.Proofs.Rerun
import Concolic.Proofs.Retries
import Concolic.Proofs.RoundTrip
import Concolic.Proofs.Scope
import Concolic.Proofs.Solving
import Concolic.Proofs.Sparsity
import Concolic.Proofs.Statements
import Concolic.Proofs.Stored
import Concolic.Proofs.Stream
import Concolic.Proofs.Substitution
import Concolic.Proofs.Tally
import Concolic.Proofs.Texts
import Concolic.Proofs.Trail
import Concolic.Proofs.Turning
import Concolic.Proofs.Values
import Concolic.Proofs.VarMap
import Concolic.Proofs.Written
import Concolic.Query
import Concolic.Recording
import Concolic.Rehearsal
import Concolic.Relation
import Concolic.Report
import Concolic.Search
import Concolic.Settings
import Concolic.Solver
import Concolic.Solving
import Concolic.Stored.Condition
import Concolic.Stored.Input
import Concolic.Stored.Path
import Concolic.Stored.Report
import Concolic.Stored.Settings
import Concolic.Stored.Trace
import Concolic.SymText
import Concolic.Text.Blank
import Concolic.Text.Duration
import Concolic.Text.Lines
import Concolic.Text.Numeral
import Concolic.Text.Occurrence
import Concolic.TextTest
import Concolic.Trace
import Concolic.TraceCommand
import Concolic.Transcript
import Concolic.VarMap
import Concolic.Variable
