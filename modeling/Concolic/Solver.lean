import Concolic.Answer
import Concolic.Text.Duration
import Concolic.Text.Lines

/-!
# Solvers

A solver is asked by handing it a formula and answers with lines of text, or it fails. Since answers
of a process may depend on anything, a solver is a function of the number of the call and the
formula; every behaviour of a process is one such function.
-/

namespace Concolic

/-- Why a question to the solver got no verdict. -/
inductive SolverFailure where
  /-- A file or pipe could not be used. -/
  | io
  | spawn
  /-- The solver took longer than the given number of milliseconds. -/
  | timeout (milliseconds : Nat)
  /-- The solver broke the protocol in some way that it describes itself. -/
  | protocol (text : String)
  | badAnswer (fault : AnswerFault)
  /-- The path has no condition of the given number. -/
  | noCondition (number : Nat)
  deriving DecidableEq, Repr

namespace SolverFailure

/-- Only after a timeout can the search go on. -/
def isFatal : SolverFailure → Bool
  | .timeout _ => false
  | _ => true

/-- The message of a failure, where its wording is fixed. -/
def message? : SolverFailure → Option String
  | .timeout milliseconds => some ("solver timed out after " ++ Text.duration milliseconds)
  | .protocol text => some ("solver protocol error: " ++ text)
  | .badAnswer fault => some ("solver protocol error: " ++ fault.message)
  | .io | .spawn | .noCondition _ => none

end SolverFailure

/-- The answers of a solver, by the number of the call and the formula. -/
abbrev Solver := Nat → String → Except SolverFailure (List String)

/-- What to do when the solver takes too long. -/
inductive TimeoutPolicy where
  /-- Treat the branch as one that cannot be turned aside. -/
  | skipBranch
  /-- Stop the exploration. -/
  | abort
  deriving DecidableEq, Repr

/-- How the solver is called. -/
structure SolverSettings where
  command : String := "cvc4"
  /-- Arguments before the formula file. -/
  arguments : List String := ["--lang", "cvc4"]
  formulaFile : String := "formula"
  timeoutMs : Nat := 10000
  /-- How often the integer layer is asked for one branch. -/
  retryBudget : Nat := 100
  timeoutPolicy : TimeoutPolicy := .skipBranch
  deriving DecidableEq, Repr

/-- What a solver process does once it is called. -/
structure SolverProcess where
  /-- The executable exists. -/
  starts : Bool := true
  /-- What it prints to its standard output. -/
  output : List UInt8 := []
  /-- It never ends. -/
  hangs : Bool := false

namespace SolverProcess

/-- The bytes up to the last newline. -/
def finishedLines (bytes : List UInt8) : List UInt8 :=
  (bytes.reverse.dropWhile (· != 10)).reverse

/-- The lines that a process prints within the given time. Lines are read as they come in, so one
that is no UTF-8 text is noticed before a process that never ends runs out of time. -/
def exchange (process : SolverProcess) (timeoutMs : Nat) : Except SolverFailure (List String) :=
  if !process.starts then .error .spawn
  else
    let seen := if process.hangs then finishedLines process.output else process.output
    if timeoutMs = 0 then .error (.timeout timeoutMs)
    else
      match String.fromUTF8? ⟨seen.toArray⟩ with
      | none => .error .io
      | some text =>
          if process.hangs then .error (.timeout timeoutMs) else .ok (Text.lines text)

end SolverProcess

end Concolic
