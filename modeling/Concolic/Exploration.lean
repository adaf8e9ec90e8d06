import Concolic.PathFile
import Concolic.Report
import Concolic.Search
import Concolic.Settings
import Concolic.Stored.Report
import Concolic.Trace

/-!
# Exploring a program

Each iteration runs the program once on the present input file, searches the recorded trail for a
branch that can be turned aside, and saves the flipped path for the next run to follow. The input
file gets new lines when a branch is turned aside. The exploration ends when no such branch is left,
when a limit is reached, or with a fault.

The program, the solver and the clock are functions, so an exploration is a function of them and of
the directory it starts in.
-/

namespace Concolic

/-- The program under test: what its run of the given number does to a recording, and to the
directory. -/
abbrev Program := Nat → Recording → Directory → Except RunFault Unit × Recording × Directory

inductive ExplorationFault where
  | run (fault : RunFault)
  | solve (failure : SolverFailure)
  /-- The expected path could not be used. -/
  | path (fault : PathFault)
  /-- The input file or the report could not be used. -/
  | file
  deriving DecidableEq, Repr

namespace ExplorationFault

/-- The message of a fault, where its wording is fixed. -/
def message? : ExplorationFault → Option String
  | .run fault => fault.message?.map ("program run failed: " ++ ·)
  | .solve failure => failure.message?.map ("solving failed: " ++ ·)
  | .path _ | .file => none

end ExplorationFault

/-- What surrounds an exploration. -/
structure Environment where
  settings : Settings
  program : Program
  solver : Solver
  /-- The whole seconds that have passed when the given number of runs is over. -/
  clock : Nat → Nat := fun _ => 0
  /-- The seconds that the report shows. -/
  elapsedSecs : Float := 0

structure Exploration where
  bench : Bench := {}
  lexicon : Lexicon := {}
  /-- All runs so far. -/
  runs : List Recording := []
  /-- The input lines of the runs that did not fail. -/
  inputs : List (List String) := []

namespace Exploration

def directory (exploration : Exploration) : Directory :=
  exploration.bench.directory

def inDirectory (exploration : Exploration) (directory : Directory) : Exploration :=
  { exploration with bench := { exploration.bench with directory } }

/-- Saves what the next run is expected to do after a search. -/
def concludeSearch (environment : Environment) (trail : Trail) (found : Option Nat)
    (exploration : Exploration) : Except ExplorationFault (Option Nat) × Exploration :=
  let saved :=
    match found with
    | some position =>
        PathFile.save exploration.directory environment.settings.pathFile
          (trail.flippedPrefix position)
    | none => PathFile.clear exploration.directory environment.settings.pathFile
  match saved with
  | .error fault => (.error (.path fault), exploration)
  | .ok directory => (.ok found, exploration.inDirectory directory)

/-- Searches the trail of a run that did not fail. -/
def search (environment : Environment) (recording : Recording) (exploration : Exploration) :
    Except ExplorationFault (Option Nat) × Exploration :=
  let problem := Problem.ofRecording environment.solver environment.settings.solver
    environment.settings.inputsFile recording
  match Search.depthFirst problem.solveAt recording.trail
      { exploration.bench with solution := none } with
  | (.error failure, bench) => (.error (.solve failure), { exploration with bench })
  | (.ok found, bench) =>
      concludeSearch environment recording.trail found { exploration with bench }

/-- Runs the program on the given lines and searches the trail. -/
def runOn (environment : Environment) (lines : List String) (expected : List PathStep)
    (exploration : Exploration) : Except ExplorationFault (Option Nat) × Exploration :=
  let fresh := Recording.start lines expected environment.settings.format
    environment.settings.maxLength exploration.lexicon
  let (outcome, recording, directory) :=
    environment.program exploration.runs.length fresh exploration.directory
  let ran := { exploration.inDirectory directory with
    lexicon := recording.lexicon
    runs := exploration.runs ++ [recording] }
  match outcome with
  | .error fault => (.error (.run fault), ran)
  | .ok () => search environment recording { ran with inputs := exploration.inputs ++ [lines] }

/-- One run and one search. The result is the position of the branch that was turned aside. -/
def iterate (environment : Environment) (exploration : Exploration) :
    Except ExplorationFault (Option Nat) × Exploration :=
  match readInputs exploration.directory environment.settings.inputsFile with
  | .error _ => (.error .file, exploration)
  | .ok lines =>
      match PathFile.load exploration.directory environment.settings.pathFile with
      | .error fault => (.error (.path fault), exploration)
      | .ok expected => runOn environment lines expected exploration

/-- Iterates until something ends the exploration; `remaining` is the number of iterations that the
limits still allow. -/
def loop (environment : Environment) : (remaining iterations : Nat) → Exploration →
    Except ExplorationFault (Nat × StopReason) × Exploration
  | 0, iterations, exploration => (.ok (iterations, .iterationLimit), exploration)
  | remaining + 1, iterations, exploration =>
      -- The limits are looked at between runs, so a run that has started is finished and searched.
      match environment.settings.limits.check iterations (environment.clock iterations) with
      | some reason => (.ok (iterations, reason), exploration)
      | none =>
          match iterate environment exploration with
          | (.error fault, exploration) => (.error fault, exploration)
          | (.ok none, exploration) => (.ok (iterations + 1, .exhausted), exploration)
          | (.ok (some _), exploration) =>
              loop environment remaining (iterations + 1) exploration

def report (environment : Environment) (iterations : Nat) (stopReason : StopReason)
    (exploration : Exploration) : Report where
  iterations := iterations
  stopReason := stopReason
  tally := exploration.bench.tally
  inputs := exploration.inputs
  elapsedSecs := environment.elapsedSecs

/-- Writes a report where the settings ask for it. -/
def publish (environment : Environment) (report : Report) (exploration : Exploration) :
    Except ExplorationFault Report × Exploration :=
  match environment.settings.reportFile with
  | none => (.ok report, exploration)
  | some path =>
      match exploration.directory.write path report.toText with
      | .error _ => (.error .file, exploration)
      | .ok directory => (.ok report, exploration.inDirectory directory)

/-- Explores a program from the files of a directory. Nothing is expected of the first run. -/
def run (environment : Environment) (directory : Directory) :
    Except ExplorationFault Report × Exploration :=
  let initial : Exploration := { bench := { directory } }
  match PathFile.clear directory environment.settings.pathFile with
  | .error fault => (.error (.path fault), initial)
  | .ok cleared =>
      match loop environment environment.settings.limits.maxIterations 0
          (initial.inDirectory cleared) with
      | (.error fault, exploration) => (.error fault, exploration)
      | (.ok (iterations, stopReason), exploration) =>
          publish environment (report environment iterations stopReason exploration) exploration

end Exploration

end Concolic
