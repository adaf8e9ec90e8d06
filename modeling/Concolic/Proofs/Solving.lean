import Mathlib
import Concolic.Solving

/-!
# What solving changes

Asking the solver writes the formula file and counts, and nothing else (`Bench.Works`). From this it
follows, attempt by attempt, in which ways one call can end (`Problem.Solved`): the branch is
refused, given up after a timeout, or turned aside, or the call fails. Input lines are written in the
last step of a call that succeeds, and before that the input file is not touched. What files and
counts look like after a call is read off from these cases.
-/

namespace Concolic

/-- The file at a path was written. -/
def Directory.Rewrites (path : String) (before after : Directory) : Prop :=
  ∃ contents, before.write path contents = .ok after

/-- The later bench is the earlier one after so many calls of the solver at most. -/
structure Bench.Works (formulaFile : String) (calls : Nat) (before after : Bench) : Prop where
  directory :
    Relation.ReflTransGen (Directory.Rewrites formulaFile) before.directory after.directory
  solution : after.solution = before.solution
  attempts : after.tally.attempts = before.tally.attempts
  feasible : after.tally.feasible = before.tally.feasible
  infeasible : after.tally.infeasible = before.tally.infeasible
  quickUnsat : after.tally.quickUnsat = before.tally.quickUnsat
  timeoutsSkipped : after.tally.timeoutsSkipped = before.tally.timeoutsSkipped
  calls : after.tally.solverCalls ≤ before.tally.solverCalls + calls
  /-- There is a call for every retry. -/
  retries : after.tally.retries + before.tally.solverCalls ≤
    before.tally.retries + after.tally.solverCalls

namespace Bench.Works

variable {formulaFile : String} {calls more : Nat} {before between after : Bench}

theorem refl (formulaFile : String) (bench : Bench) : bench.Works formulaFile 0 bench :=
  ⟨.refl, rfl, rfl, rfl, rfl, rfl, rfl, Nat.le_refl _, Nat.le_refl _⟩

theorem trans (first : before.Works formulaFile calls between)
    (second : between.Works formulaFile more after) :
    before.Works formulaFile (calls + more) after := by
  have fewer := first.calls
  have fewerLater := second.calls
  have covered := first.retries
  have coveredLater := second.retries
  refine ⟨first.directory.trans second.directory, second.solution.trans first.solution,
    second.attempts.trans first.attempts, second.feasible.trans first.feasible,
    second.infeasible.trans first.infeasible, second.quickUnsat.trans first.quickUnsat,
    second.timeoutsSkipped.trans first.timeoutsSkipped, ?_, ?_⟩
  · omega
  · omega

theorem mono (works : before.Works formulaFile calls after) (fewer : calls ≤ more) :
    before.Works formulaFile more after := by
  have := works.calls
  exact { works with calls := by omega }

end Bench.Works

namespace Problem

variable {problem : Problem} {number : Nat} {layer : Layer} {extra : Option String}
  {assignment : Assignment} {answer : Except SolverFailure Verdict} {bench after : Bench}

/-- A layer is not asked at all, and then not refused either, or it is asked by one formula. -/
theorem ask_cases (asked : problem.ask number layer extra assignment bench = (answer, after)) :
    answer ≠ .ok .unsat ∧ after = bench ∨
      ∃ text directory, bench.directory.write problem.settings.formulaFile text = .ok directory ∧
        after = { bench with
          directory
          sent := bench.sent ++ [text]
          tally := { bench.tally with solverCalls := bench.tally.solverCalls + 1 } } := by
  simp only [ask] at asked
  split at asked
  · cases asked
    exact .inl ⟨by simp, rfl⟩
  · rename_i query built
    split at asked
    · cases asked
      exact .inl ⟨by simp, rfl⟩
    · simp only [send] at asked
      split at asked
      · cases asked
        exact .inl ⟨by simp, rfl⟩
      · rename_i directory written
        refine .inr ⟨query.text, directory, written, ?_⟩
        split at asked
        · cases asked
          rfl
        · split at asked
          · cases asked
            rfl
          · cases asked
            rfl

theorem works_of_ask (asked : problem.ask number layer extra assignment bench = (answer, after)) :
    bench.Works problem.settings.formulaFile 1 after := by
  rcases ask_cases asked with ⟨_, rfl⟩ | ⟨text, directory, written, rfl⟩
  · exact (Bench.Works.refl _ _).mono (Nat.zero_le 1)
  · exact ⟨.single ⟨text, written⟩, rfl, rfl, rfl, rfl, rfl, rfl, Nat.le_refl _, Nat.le_succ _⟩

/-- A layer that is refused was asked, so a retry may be counted. -/
theorem works_of_refused
    (asked : problem.ask number layer extra assignment bench = (.ok .unsat, after)) :
    bench.Works problem.settings.formulaFile 1
      (after.count fun tally => { tally with retries := tally.retries + 1 }) := by
  rcases ask_cases asked with ⟨notRefused, _⟩ | ⟨text, directory, written, rfl⟩
  · exact absurd rfl notRefused
  · refine ⟨.single ⟨text, written⟩, rfl, rfl, rfl, rfl, rfl, rfl, Nat.le_refl _, ?_⟩
    simp only [Bench.count]
    omega

/-- The ways in which attempts can end. -/
inductive Attempted (problem : Problem) (calls : Nat) (bench : Bench) :
    Except SolverFailure Bool → Bench → Prop where
  | refused {last : Bench} (works : bench.Works problem.settings.formulaFile calls last) :
      Attempted problem calls bench (.ok false) last
  | repeated {last : Bench} (works : bench.Works problem.settings.formulaFile calls last) :
      Attempted problem calls bench (.ok false)
        (last.count fun tally => { tally with quickUnsat := tally.quickUnsat + 1 })
  | failed {last : Bench} {failure : SolverFailure}
      (works : bench.Works problem.settings.formulaFile calls last) :
      Attempted problem calls bench (.error failure) last
  | adopted {last after : Bench} {solution : Assignment} {result : Except SolverFailure Bool}
      (works : bench.Works problem.settings.formulaFile calls last)
      (adopted : problem.adopt solution last = (result, after)) :
      Attempted problem calls bench result after

/-- Attempts may come after calls. -/
theorem Attempted.after_calls {calls more : Nat} {next : Bench} {result : Except SolverFailure Bool}
    (works : bench.Works problem.settings.formulaFile calls next)
    (attempted : problem.Attempted more next result after) :
    problem.Attempted (calls + more) bench result after := by
  cases attempted with
  | refused later => exact .refused (works.trans later)
  | repeated later => exact .repeated (works.trans later)
  | failed later => exact .failed (works.trans later)
  | adopted later adopted => exact .adopted (works.trans later) adopted

/-- Each attempt calls the solver twice at most. -/
theorem attempted_attempts (problem : Problem) (number budget : Nat) (excluded : List Model)
    (bench : Bench) :
    problem.Attempted (2 * budget) bench (problem.attempts number budget excluded bench).1
      (problem.attempts number budget excluded bench).2 := by
  induction budget generalizing excluded bench with
  | zero => exact .refused (.refl _ _)
  | succ budget ih =>
      have enough (count : Nat) : 1 + 1 + count = count + 2 := by omega
      rw [Nat.mul_succ, ← enough]
      simp only [attempts]
      split
      · rename_i failure next asked
        rw [askIntegers] at asked
        split at asked
        · cases asked
        · exact .failed ((works_of_ask asked).mono (by omega))
      · rename_i next asked
        rw [askIntegers] at asked
        split at asked
        · cases asked
          exact .repeated ((Bench.Works.refl _ _).mono (Nat.zero_le _))
        · exact .refused ((works_of_ask asked).mono (by omega))
      · rename_i model next asked
        rw [askIntegers] at asked
        split at asked
        · cases asked
        have first := works_of_ask asked
        split
        · rename_i failure last askedAgain
          exact .failed ((first.trans (works_of_ask askedAgain)).mono (by omega))
        · rename_i characters last askedAgain
          exact .adopted ((first.trans (works_of_ask askedAgain)).mono (by omega)) rfl
        · rename_i last askedAgain
          have both := first.trans (works_of_refused askedAgain)
          split
          · exact .refused (both.mono (by omega))
          · exact (ih _ _).after_calls both

/-- A solution is adopted if its lines are written. -/
theorem adopt_cases {solution : Assignment} {result : Except SolverFailure Bool}
    (adopted : problem.adopt solution bench = (result, after)) :
    result = .ok true ∧ (∃ directory,
        writeInputs bench.directory problem.inputsFile
          (InputRecord.lines problem.records solution problem.format) = (.ok (), directory) ∧
        after = { bench with directory, solution := some solution }) ∨
      result = .error .io ∧ ∃ fault directory,
        writeInputs bench.directory problem.inputsFile
          (InputRecord.lines problem.records solution problem.format) = (.error fault, directory) ∧
        after = { bench with directory } := by
  simp only [adopt] at adopted
  split at adopted
  · rename_i fault directory unwritten
    cases adopted
    exact .inr ⟨rfl, fault, directory, unwritten, rfl⟩
  · rename_i directory written
    cases adopted
    exact .inl ⟨rfl, directory, written, rfl⟩

/-- The ways in which a call can end. -/
inductive Solved (problem : Problem) (bench : Bench) :
    Except SolverFailure Bool → Bench → Prop where
  /-- The path is turned aside. -/
  | feasible {last : Bench} {solution : Assignment} {directory : Directory}
      (works : bench.Works problem.settings.formulaFile (2 * problem.settings.retryBudget) last)
      (written : writeInputs last.directory problem.inputsFile
        (InputRecord.lines problem.records solution problem.format) = (.ok (), directory)) :
      Solved problem bench (.ok true)
        (conclude true { last with directory, solution := some solution })
  | refused {last : Bench}
      (works : bench.Works problem.settings.formulaFile (2 * problem.settings.retryBudget) last) :
      Solved problem bench (.ok false) (conclude false last)
  /-- The path repeats a test. -/
  | repeated {last : Bench}
      (works : bench.Works problem.settings.formulaFile (2 * problem.settings.retryBudget) last) :
      Solved problem bench (.ok false) (conclude false
        (last.count fun tally => { tally with quickUnsat := tally.quickUnsat + 1 }))
  /-- The branch is given up. -/
  | late {last : Bench}
      (works : bench.Works problem.settings.formulaFile (2 * problem.settings.retryBudget) last) :
      Solved problem bench (.ok false) (conclude false
        (last.count fun tally => { tally with timeoutsSkipped := tally.timeoutsSkipped + 1 }))
  | failed {last : Bench} {failure : SolverFailure}
      (works : bench.Works problem.settings.formulaFile (2 * problem.settings.retryBudget) last) :
      Solved problem bench (.error failure) last
  /-- The lines of a solution cannot be written. -/
  | unwritten {last : Bench} {solution : Assignment} {fault : FileFault} {directory : Directory}
      (works : bench.Works problem.settings.formulaFile (2 * problem.settings.retryBudget) last)
      (unwritten : writeInputs last.directory problem.inputsFile
        (InputRecord.lines problem.records solution problem.format) = (.error fault, directory)) :
      Solved problem bench (.error .io) { last with directory }

/-- A call counts an attempt and ends in one of these ways. -/
theorem solved_solveAt (problem : Problem) (number : Nat) (bench : Bench) :
    problem.Solved (bench.count fun tally => { tally with attempts := tally.attempts + 1 })
      (problem.solveAt number bench).1 (problem.solveAt number bench).2 := by
  have attempted := problem.attempted_attempts number problem.settings.retryBudget []
    (bench.count fun tally => { tally with attempts := tally.attempts + 1 })
  simp only [solveAt]
  split
  · rename_i feasible last ended
    rw [ended] at attempted
    cases attempted with
    | refused works => exact .refused works
    | repeated works => exact .repeated works
    | adopted works adopted =>
        rcases adopt_cases adopted with ⟨isTrue, directory, written, rfl⟩ | ⟨isError, _⟩
        · cases isTrue
          exact .feasible works written
        · cases isError
  · rename_i failure last ended
    rw [ended] at attempted
    cases attempted with
    | failed works =>
        split
        · exact .late works
        · exact .failed works
    | adopted works adopted =>
        rcases adopt_cases adopted with ⟨isTrue, _⟩ | ⟨isError, fault, directory, unwritten, rfl⟩
        · cases isTrue
        · -- A file that cannot be written is fatal under every policy.
          cases isError
          exact .unwritten works unwritten

end Problem

end Concolic
