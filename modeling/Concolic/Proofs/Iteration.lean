import Mathlib
import Concolic.Exploration
import Concolic.Proofs.Solving
import Concolic.Proofs.Trail

/-!
# What an iteration does

`Exploration.Iterated` lists the ways in which an iteration can end, each with what was done up to
there: the files were read, the program ran, the search asked its questions, and the expected path
was saved or removed. Whatever is said about single iterations, and so about whole explorations, follows
from these cases.
-/

namespace Concolic

namespace Exploration

variable {environment : Environment} {exploration : Exploration}

/-- The run of an iteration: what it read, and what the program made of it. -/
structure Ran (environment : Environment) (exploration : Exploration) (lines : List String)
    (expected : List PathStep) (outcome : Except RunFault Unit) (recording : Recording)
    (directory : Directory) : Prop where
  isRead : readInputs exploration.directory environment.settings.inputsFile = .ok lines
  isLoaded : PathFile.load exploration.directory environment.settings.pathFile = .ok expected
  ended : environment.program exploration.runs.length
      (.start lines expected environment.settings.format environment.settings.maxLength
        exploration.lexicon) exploration.directory =
    (outcome, recording, directory)

/-- The exploration when a run is over. -/
def afterRun (exploration : Exploration) (recording : Recording) (directory : Directory) :
    Exploration :=
  { exploration.inDirectory directory with
    lexicon := recording.lexicon
    runs := exploration.runs ++ [recording] }

/-- The exploration when the search after a run is over. -/
def afterSearch (exploration : Exploration) (lines : List String) (recording : Recording)
    (directory : Directory) (bench : Bench) : Exploration :=
  { exploration.afterRun recording directory with
    inputs := exploration.inputs ++ [lines]
    bench := bench }

/-- The search for a branch of the recorded trail. -/
def Searched (environment : Environment) (exploration : Exploration) (recording : Recording)
    (directory : Directory) (found : Except SolverFailure (Option Nat)) (bench : Bench) : Prop :=
  Search.Ends
    (Problem.ofRecording environment.solver environment.settings.solver
      environment.settings.inputsFile recording).solveAt
    (Search.IsOpenIn recording.trail.steps 0)
    { exploration.bench with directory, solution := none } found bench

/-- The ways in which an iteration can end. -/
inductive Iterated (environment : Environment) (exploration : Exploration) :
    Except ExplorationFault (Option Nat) → Exploration → Prop where
  | unread : Iterated environment exploration (.error .file) exploration
  | unloaded {fault : PathFault} :
      Iterated environment exploration (.error (.path fault)) exploration
  | runFailed {lines : List String} {expected : List PathStep} {fault : RunFault}
      {recording : Recording} {directory : Directory}
      (ran : Ran environment exploration lines expected (.error fault) recording directory) :
      Iterated environment exploration (.error (.run fault))
        (exploration.afterRun recording directory)
  | solveFailed {lines : List String} {expected : List PathStep} {recording : Recording}
      {directory : Directory} {failure : SolverFailure} {bench : Bench}
      (ran : Ran environment exploration lines expected (.ok ()) recording directory)
      (searched : Searched environment exploration recording directory (.error failure) bench) :
      Iterated environment exploration (.error (.solve failure))
        (exploration.afterSearch lines recording directory bench)
  | unsaved {lines : List String} {expected : List PathStep} {recording : Recording}
      {directory : Directory} {position : Nat} {bench : Bench} {fault : PathFault}
      (ran : Ran environment exploration lines expected (.ok ()) recording directory)
      (searched : Searched environment exploration recording directory (.ok (some position)) bench)
      (notSaved : PathFile.save bench.directory environment.settings.pathFile
        (recording.trail.flippedPrefix position) = .error fault) :
      Iterated environment exploration (.error (.path fault))
        (exploration.afterSearch lines recording directory bench)
  | uncleared {lines : List String} {expected : List PathStep} {recording : Recording}
      {directory : Directory} {bench : Bench} {fault : PathFault}
      (ran : Ran environment exploration lines expected (.ok ()) recording directory)
      (searched : Searched environment exploration recording directory (.ok none) bench)
      (notCleared : PathFile.clear bench.directory environment.settings.pathFile = .error fault) :
      Iterated environment exploration (.error (.path fault))
        (exploration.afterSearch lines recording directory bench)
  | turned {lines : List String} {expected : List PathStep} {recording : Recording}
      {directory saved : Directory} {position : Nat} {bench : Bench}
      (ran : Ran environment exploration lines expected (.ok ()) recording directory)
      (searched : Searched environment exploration recording directory (.ok (some position)) bench)
      (isSaved : PathFile.save bench.directory environment.settings.pathFile
        (recording.trail.flippedPrefix position) = .ok saved) :
      Iterated environment exploration (.ok (some position))
        ((exploration.afterSearch lines recording directory bench).inDirectory saved)
  | exhausted {lines : List String} {expected : List PathStep} {recording : Recording}
      {directory cleared : Directory} {bench : Bench}
      (ran : Ran environment exploration lines expected (.ok ()) recording directory)
      (searched : Searched environment exploration recording directory (.ok none) bench)
      (isCleared : PathFile.clear bench.directory environment.settings.pathFile = .ok cleared) :
      Iterated environment exploration (.ok none)
        ((exploration.afterSearch lines recording directory bench).inDirectory cleared)

/-- An iteration ends in one of these ways. -/
theorem iterated_iterate (environment : Environment) (exploration : Exploration) :
    Iterated environment exploration (iterate environment exploration).1
      (iterate environment exploration).2 := by
  simp only [iterate]
  split
  · exact .unread
  rename_i lines isRead
  split
  · exact .unloaded
  rename_i expected isLoaded
  rcases ended : environment.program exploration.runs.length
      (.start lines expected environment.settings.format environment.settings.maxLength
        exploration.lexicon) exploration.directory with ⟨outcome, recording, directory⟩
  simp only [runOn, ended]
  have ran : Ran environment exploration lines expected outcome recording directory :=
    ⟨isRead, isLoaded, ended⟩
  rcases outcome with fault | ⟨⟩
  · exact .runFailed ran
  simp only [search]
  have searched := Search.ends_depthFirst (Problem.ofRecording environment.solver
    environment.settings.solver environment.settings.inputsFile recording).solveAt recording.trail
    { exploration.bench with directory, solution := none }
  split
  · rename_i failure bench stopped
    rw [inDirectory] at stopped
    rw [stopped] at searched
    exact .solveFailed ran searched
  · rename_i found bench stopped
    rw [inDirectory] at stopped
    rw [stopped] at searched
    simp only [concludeSearch]
    cases found with
    | none =>
        split
        · rename_i notCleared
          exact .uncleared ran searched notCleared
        · rename_i cleared isCleared
          exact .exhausted ran searched isCleared
    | some position =>
        split
        · rename_i notSaved
          exact .unsaved ran searched notSaved
        · rename_i saved isSaved
          exact .turned ran searched isSaved

/-- The ways in which an exploration can go on after so many iterations. -/
inductive Looped (environment : Environment) :
    Nat → Exploration → Except ExplorationFault (Nat × StopReason) → Exploration → Prop where
  | limit {iterations : Nat} {exploration : Exploration} {reason : StopReason}
      (isLimit : reason ≠ .exhausted) :
      Looped environment iterations exploration (.ok (iterations, reason)) exploration
  | fault {iterations : Nat} {exploration after : Exploration} {fault : ExplorationFault}
      (iterated : iterate environment exploration = (.error fault, after)) :
      Looped environment iterations exploration (.error fault) after
  | exhausted {iterations : Nat} {exploration after : Exploration}
      (iterated : iterate environment exploration = (.ok none, after)) :
      Looped environment iterations exploration (.ok (iterations + 1, .exhausted)) after
  | next {iterations position : Nat} {exploration next after : Exploration}
      {result : Except ExplorationFault (Nat × StopReason)}
      (iterated : iterate environment exploration = (.ok (some position), next))
      (looped : Looped environment (iterations + 1) next result after) :
      Looped environment iterations exploration result after

theorem check_ne_exhausted {limits : Limits} {iterations seconds : Nat} {reason : StopReason}
    (isReached : limits.check iterations seconds = some reason) : reason ≠ .exhausted := by
  rintro rfl
  simp only [Limits.check] at isReached
  split at isReached
  · cases isReached
  · split at isReached <;> cases isReached

theorem looped_loop (environment : Environment) (remaining iterations : Nat)
    (exploration : Exploration) :
    Looped environment iterations exploration
      (loop environment remaining iterations exploration).1
      (loop environment remaining iterations exploration).2 := by
  induction remaining generalizing iterations exploration with
  | zero => exact .limit (by simp)
  | succ remaining ih =>
      simp only [loop]
      split
      · rename_i isReached
        exact .limit (check_ne_exhausted isReached)
      · split
        · rename_i iterated
          exact .fault iterated
        · rename_i iterated
          exact .exhausted iterated
        · rename_i iterated
          exact .next iterated (ih _ _)

end Exploration

end Concolic
