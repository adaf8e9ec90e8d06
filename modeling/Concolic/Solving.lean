import Concolic.Directory
import Concolic.Query
import Concolic.Recording
import Concolic.Solver

/-!
# Turning a path aside

One attempt asks the solver twice. The integer layer solves the path with tests on texts reduced to
lengths. The character layer then solves it again with that model substituted, which fixes the
single characters. If the second layer fails, the integer model is excluded and the first layer is
asked again, as often as the budget allows.

Everything an attempt changes is in the `Bench`: the files, the statistics, the formulas that were
sent, and the solution whose input lines were written.
-/

namespace Concolic

/-- Counts of what happened while solving. -/
structure Tally where
  /-- Branches that were to be turned aside. -/
  attempts : Nat := 0
  feasible : Nat := 0
  infeasible : Nat := 0
  /-- Branches that repeat a test. -/
  quickUnsat : Nat := 0
  /-- Integer models that the character layer refused. -/
  retries : Nat := 0
  /-- Formulas that reached the solver. -/
  solverCalls : Nat := 0
  /-- Branches given up after a timeout. -/
  timeoutsSkipped : Nat := 0
  deriving DecidableEq, Repr

/-- What solving needs to know of a recorded run and its surroundings. -/
structure Problem where
  solver : Solver
  settings : SolverSettings
  inputsFile : String
  format : InputFormat
  conditions : List PathCondition
  records : List InputRecord
  lexicon : Lexicon

/-- What solving changes. -/
structure Bench where
  directory : Directory := {}
  tally : Tally := {}
  /-- The formulas sent so far. -/
  sent : List String := []
  /-- The solution whose lines were written last. -/
  solution : Option Assignment := none

namespace Bench

def count (bench : Bench) (change : Tally → Tally) : Bench :=
  { bench with tally := change bench.tally }

end Bench

namespace Problem

def ofRecording (solver : Solver) (settings : SolverSettings) (inputsFile : String)
    (recording : Recording) : Problem where
  solver := solver
  settings := settings
  inputsFile := inputsFile
  format := recording.format
  conditions := recording.conditions
  records := recording.records
  lexicon := recording.lexicon

/-- The inputs that are bounded to 32 bits. -/
def narrow (problem : Problem) : List UInt32 :=
  problem.records.filterMap InputRecord.narrow?

/-- Sends a query that is not trivial: the formula file is written, the solver is called, and its
answer is read. -/
def send (problem : Problem) (query : Query) (bench : Bench) :
    Except SolverFailure Verdict × Bench :=
  match bench.directory.write problem.settings.formulaFile query.text with
  | .error _ => (.error .io, bench)
  | .ok directory =>
      let called := { bench with directory, sent := bench.sent ++ [query.text] }.count
        fun tally => { tally with solverCalls := tally.solverCalls + 1 }
      match problem.solver bench.sent.length query.text with
      | .error failure => (.error failure, called)
      | .ok lines =>
          match Verdict.read lines with
          | .error fault => (.error (.badAnswer fault), called)
          | .ok verdict => (.ok verdict, called)

/-- One layer for the condition of the given number. A query without open questions is satisfied by
the empty model. -/
def ask (problem : Problem) (number : Nat) (layer : Layer) (extra : Option String)
    (assignment : Assignment) (bench : Bench) : Except SolverFailure Verdict × Bench :=
  match Query.build? problem.conditions number problem.lexicon problem.narrow layer assignment
      extra with
  | none => (.error (.noCondition number), bench)
  | some query =>
      if query.isTrivial then (.ok (.sat []), bench) else problem.send query bench

/-- The integer layer, which needs no solver for a test that the path repeats. -/
def askIntegers (problem : Problem) (number : Nat) (extra : Option String) (bench : Bench) :
    Except SolverFailure Verdict × Bench :=
  if Query.repeatsTest problem.conditions number then
    (.ok .unsat, bench.count fun tally => { tally with quickUnsat := tally.quickUnsat + 1 })
  else
    problem.ask number .integers extra ∅ bench

def adopt (problem : Problem) (solution : Assignment) (bench : Bench) :
    Except SolverFailure Bool × Bench :=
  let lines := InputRecord.lines problem.records solution problem.format
  match writeInputs bench.directory problem.inputsFile lines with
  | (.error _, directory) => (.error .io, { bench with directory })
  | (.ok (), directory) => (.ok true, { bench with directory, solution := some solution })

/-- The assertion that excludes the given models. -/
def exclusion? (models : List Model) : Option String :=
  match models.filterMap Model.exclusion? with
  | [] => none
  | clauses => some (String.intercalate " AND " clauses)

/-- Attempts one after another, each excluding the integer models of the earlier ones. -/
def attempts (problem : Problem) (number : Nat) :
    (budget : Nat) → (excluded : List Model) → Bench → Except SolverFailure Bool × Bench
  | 0, _, bench => (.ok false, bench)
  | budget + 1, excluded, bench =>
      match problem.askIntegers number (exclusion? excluded) bench with
      | (.error failure, bench) => (.error failure, bench)
      | (.ok .unsat, bench) => (.ok false, bench)
      | (.ok (.sat model), bench) =>
          match problem.ask number .characters none (model.onto ∅) bench with
          | (.error failure, bench) => (.error failure, bench)
          | (.ok (.sat characters), bench) => problem.adopt (characters.onto (model.onto ∅)) bench
          | (.ok .unsat, bench) =>
              let retried := bench.count fun tally => { tally with retries := tally.retries + 1 }
              -- Without a clause to add, the integer layer would be asked the same again.
              if model.isEmpty then (.ok false, retried)
              else problem.attempts number budget (excluded ++ [model]) retried

/-- Counts the result of a call. -/
def conclude (feasible : Bool) (bench : Bench) : Bench :=
  bench.count fun tally =>
    if feasible then { tally with feasible := tally.feasible + 1 }
    else { tally with infeasible := tally.infeasible + 1 }

/-- Tries to turn the path aside at the condition of the given number. On success the input lines of
the next run are written. -/
def solveAt (problem : Problem) (number : Nat) (bench : Bench) :
    Except SolverFailure Bool × Bench :=
  let started := bench.count fun tally => { tally with attempts := tally.attempts + 1 }
  match problem.attempts number problem.settings.retryBudget [] started with
  | (.ok feasible, bench) => (.ok feasible, conclude feasible bench)
  | (.error failure, bench) =>
      if !failure.isFatal && problem.settings.timeoutPolicy = .skipBranch then
        let skipped := bench.count fun tally =>
          { tally with timeoutsSkipped := tally.timeoutsSkipped + 1 }
        (.ok false, conclude false skipped)
      else
        (.error failure, bench)

end Problem

end Concolic
