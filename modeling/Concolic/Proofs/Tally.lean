import Mathlib
import Concolic.Proofs.Iteration

/-!
# The counts add up

Every call counts its attempt, and counts it once more as feasible or infeasible unless it fails.
The solver is called twice at most for each unit of the budget, and each retry has a call of its own.
An exploration goes on after an iteration only if the search of that iteration ended with a feasible
call, and there was no other one in it.
-/

namespace Concolic

namespace Tally

/-- What a call with the given result adds to the counts. -/
structure Called (budget : Nat) (result : Except SolverFailure Bool) (before after : Tally) :
    Prop where
  attempts : after.attempts = before.attempts + 1
  feasible : after.feasible = before.feasible + if result = .ok true then 1 else 0
  infeasible : after.infeasible = before.infeasible + if result = .ok false then 1 else 0
  /-- A repeated test and a timeout are two reasons to be infeasible. -/
  reasons : after.quickUnsat + after.timeoutsSkipped + before.infeasible ≤
    before.quickUnsat + before.timeoutsSkipped + after.infeasible
  calls : after.solverCalls ≤ before.solverCalls + 2 * budget
  retries : after.retries + before.solverCalls ≤ before.retries + after.solverCalls

/-- A call that fails only works. -/
theorem Called.of_works {formulaFile : String} {budget : Nat} {bench last : Bench}
    (works : (bench.count fun tally => { tally with attempts := tally.attempts + 1 }).Works
      formulaFile (2 * budget) last) (failure : SolverFailure) :
    Called budget (.error failure) bench.tally last.tally := by
  rcases works with ⟨_, _, attempts, feasible, infeasible, quickUnsat, skipped, calls, retries⟩
  simp only [Bench.count] at attempts feasible infeasible quickUnsat skipped calls retries
  refine ⟨attempts, ?_, ?_, ?_, calls, retries⟩
  · simpa using feasible
  · simpa using infeasible
  · omega

theorem called_of_solveAt {problem : Problem} {number : Nat} {bench after : Bench}
    {result : Except SolverFailure Bool} (solved : problem.solveAt number bench = (result, after)) :
    Called problem.settings.retryBudget result bench.tally after.tally := by
  have ended := problem.solved_solveAt number bench
  rw [solved] at ended
  cases ended with
  | feasible works _ | refused works | repeated works | late works =>
      rcases works with
        ⟨_, _, attempts, feasible, infeasible, quickUnsat, skipped, calls, retries⟩
      simp only [Bench.count] at attempts feasible infeasible quickUnsat skipped calls retries
      constructor <;> simp [Bench.count] <;> omega
  | failed works | unwritten works _ => exact .of_works works _

/-- The number of failures among results. -/
def failures (results : List (Except SolverFailure Bool)) : Nat :=
  results.countP fun result => !result.isOk

/-- The counts after calls with the given results, from the first call on. All but the counts and
the budget may be different from call to call. -/
inductive Counted (budget : Nat) : Tally → List (Except SolverFailure Bool) → Prop where
  | none : Counted budget {} []
  | call {results : List (Except SolverFailure Bool)} (problem : Problem) (number : Nat)
      (bench : Bench) (counted : Counted budget bench.tally results)
      (sameBudget : problem.settings.retryBudget = budget) :
      Counted budget (problem.solveAt number bench).2.tally
        (results ++ [(problem.solveAt number bench).1])

/-- Counts that fit together when so many calls have failed. -/
structure Balanced (budget failed : Nat) (tally : Tally) : Prop where
  attempts : tally.attempts = tally.feasible + tally.infeasible + failed
  infeasible : tally.quickUnsat + tally.timeoutsSkipped ≤ tally.infeasible
  retries : tally.retries ≤ tally.solverCalls
  calls : tally.solverCalls ≤ 2 * budget * tally.attempts

theorem Balanced.call {budget failed : Nat} {result : Except SolverFailure Bool}
    {before after : Tally} (balanced : Balanced budget failed before)
    (called : Called budget result before after) :
    Balanced budget (failed + failures [result]) after := by
  rcases balanced with ⟨attempts, infeasible, retries, calls⟩
  have reasons := called.reasons
  have moreCalls := called.calls
  have moreRetries := called.retries
  constructor
  · rw [called.attempts, called.feasible, called.infeasible, attempts]
    rcases result with failure | feasible | feasible <;>
      simp [failures, Except.isOk, Except.toBool] <;> omega
  · omega
  · omega
  · rw [called.attempts, Nat.mul_succ]
    omega

theorem Counted.balanced {budget : Nat} {tally : Tally}
    {results : List (Except SolverFailure Bool)} (counted : Counted budget tally results) :
    Balanced budget (failures results) tally := by
  induction counted with
  | none => exact ⟨rfl, Nat.le_refl _, Nat.le_refl _, Nat.zero_le _⟩
  | call problem number bench _ sameBudget ih =>
      subst sameBudget
      have balanced := ih.call (called_of_solveAt (problem.solveAt number bench).eta.symm)
      rwa [failures, failures, ← List.countP_append] at balanced

end Tally

namespace Exploration

variable {environment : Environment} {exploration after : Exploration}

/-- Refusals are not feasible calls. -/
theorem feasible_of_refusals {problem : Problem} {before after : Bench}
    (refusals : Relation.ReflTransGen (Search.Refuses problem.solveAt) before after) :
    after.tally.feasible = before.tally.feasible := by
  induction refusals with
  | refl => rfl
  | tail _ refused ih =>
      rcases refused with ⟨number, refused⟩
      exact (Tally.called_of_solveAt refused).feasible.trans ih

/-- A search that finds a branch has one feasible call, and one that finds none has none. -/
theorem Searched.feasible {recording : Recording} {directory : Directory} {found : Option Nat}
    {bench : Bench}
    (searched : Searched environment exploration recording directory (.ok found) bench) :
    bench.tally.feasible = exploration.bench.tally.feasible + if found.isSome then 1 else 0 := by
  cases searched with
  | refused refused =>
      have noMore := feasible_of_refusals refused
      simpa using noMore
  | found _ refused answered =>
      have oneMore := (Tally.called_of_solveAt answered).feasible
      rw [feasible_of_refusals refused] at oneMore
      simpa using oneMore

/-- An iteration without fault adds its lines and, if the exploration goes on, one feasible call. -/
theorem counts_of_iterate {found : Option Nat}
    (iterated : iterate environment exploration = (.ok found, after)) :
    after.inputs.length = exploration.inputs.length + 1 ∧
      after.bench.tally.feasible =
        exploration.bench.tally.feasible + if found.isSome then 1 else 0 := by
  have ended := iterated_iterate environment exploration
  rw [iterated] at ended
  cases ended with
  | turned _ searched _ | exhausted _ searched _ => exact ⟨List.length_append, searched.feasible⟩

/-- An exploration has as many input lines as iterations. Every iteration has a feasible call, apart
from the last one of an exploration that is exhausted. -/
theorem Looped.counts {iterations total : Nat} {reason : StopReason}
    (looped : Looped environment iterations exploration (.ok (total, reason)) after)
    (inputs : exploration.inputs.length = iterations)
    (feasible : exploration.bench.tally.feasible = iterations) :
    after.inputs.length = total ∧
      after.bench.tally.feasible + (if reason = .exhausted then 1 else 0) = total := by
  generalize isResult : Except.ok (total, reason) = result at looped
  induction looped with
  | limit isLimit =>
      cases isResult
      rw [if_neg isLimit]
      exact ⟨inputs, feasible⟩
  | fault => cases isResult
  | exhausted iterated =>
      cases isResult
      rcases counts_of_iterate iterated with ⟨oneMore, noMore⟩
      exact ⟨by rw [oneMore, inputs], by rw [noMore, feasible]; rfl⟩
  | next iterated _ ih =>
      rcases counts_of_iterate iterated with ⟨oneMore, oneFeasible⟩
      exact ih (by rw [oneMore, inputs]) (by rw [oneFeasible, feasible]; rfl) isResult

theorem report_of_publish {report published : Report}
    (ended : publish environment report exploration = (.ok published, after)) :
    published = report := by
  simp only [publish] at ended
  split at ended
  · cases ended
    rfl
  · split at ended
    · cases ended
    · cases ended
      rfl

/-- The counts of any calls fit together. The report of an exploration has as many inputs as
iterations, and as many feasible calls, or one less if nothing is left to explore. -/
theorem counts_add_up :
    (∀ (budget : Nat) (tally : Tally) (results : List (Except SolverFailure Bool)),
      tally.Counted budget results → tally.Balanced budget (Tally.failures results)) ∧
    ∀ (environment : Environment) (directory : Directory) (report : Report) (after : Exploration),
      run environment directory = (.ok report, after) →
        report.inputs.length = report.iterations ∧
        (report.stopReason = .exhausted → report.tally.feasible + 1 = report.iterations) ∧
        (report.stopReason ≠ .exhausted → report.tally.feasible = report.iterations) := by
  refine ⟨fun budget tally results counted => counted.balanced, ?_⟩
  intro environment directory report after ended
  simp only [run] at ended
  split at ended
  · cases ended
  rename_i cleared isCleared
  split at ended
  · cases ended
  rename_i iterations stopReason last isLooped
  have looped := looped_loop environment environment.settings.limits.maxIterations 0
    (inDirectory { bench := { directory } } cleared)
  rw [isLooped] at looped
  rcases looped.counts rfl rfl with ⟨inputs, feasible⟩
  obtain rfl := report_of_publish ended
  refine ⟨inputs, ?_, ?_⟩
  · intro (isExhausted : stopReason = .exhausted)
    rw [if_pos isExhausted] at feasible
    exact feasible
  · intro (isLimit : stopReason ≠ .exhausted)
    rw [if_neg isLimit] at feasible
    exact feasible

/-- One condition, and a solver that is late first and then answers in words of its own. -/
def erratic : Problem where
  solver := fun call _ => if call = 0 then .error (.timeout 10) else .ok ["perhaps"]
  settings := { retryBudget := 3 }
  inputsFile := "inputs"
  format := {}
  conditions := [.linear (.ofVar (.int 1)) .eq]
  records := []
  lexicon := {}

/-- A program that takes the other side of its branch in every run but the first. -/
def fickle : Environment where
  settings := {}
  program := fun number recording directory =>
    (.ok (), recording.branch (number == 0) (some .falsity) 0, directory)
  solver := fun _ _ => .error .spawn

theorem fickle_counts_add_up :
    (∃ tally results, Tally.Counted 3 tally results ∧ tally.attempts = 2 ∧
      Tally.failures results = 1 ∧ tally.Balanced 3 (Tally.failures results)) ∧
    ∃ report after, run fickle {} = (.ok report, after) ∧ report.stopReason = .exhausted ∧
      report.inputs.length = report.iterations ∧ report.tally.feasible + 1 = report.iterations := by
  constructor
  · have counted : Tally.Counted 3
        (erratic.solveAt 0 (erratic.solveAt 0 {}).2).2.tally
        [(erratic.solveAt 0 {}).1, (erratic.solveAt 0 (erratic.solveAt 0 {}).2).1] :=
      .call erratic 0 _ (.call erratic 0 {} .none rfl) rfl
    refine ⟨_, _, counted, ?_, ?_, counts_add_up.1 _ _ _ counted⟩
    · decide +kernel
    · decide +kernel
  · have isExhausted : (run fickle {}).1.toOption.map Report.stopReason = some .exhausted := by
      decide +kernel
    generalize ended : run fickle {} = result at isExhausted
    rcases result with ⟨fault | report, after⟩
    · cases isExhausted
    · have stopReason : report.stopReason = .exhausted := Option.some.inj isExhausted
      rcases counts_add_up.2 _ _ _ _ ended with ⟨inputs, feasible, _⟩
      exact ⟨report, after, rfl, stopReason, inputs, feasible stopReason⟩

end Exploration

end Concolic
