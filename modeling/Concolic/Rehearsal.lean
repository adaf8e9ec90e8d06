import Concolic.Exploration
import Concolic.Text.Occurrence

/-!
# Rehearsals

An exploration can be rehearsed without a solver and without a program: both are scripts that say
what would have been answered. A scripted solver follows its script call by call, and after its end
looks at the formula; a scripted program looks at its input lines first, and at the number of the
run when no entry was meant for them.
-/

namespace Concolic

/-- What a scripted solver answers to one formula. -/
abbrev ScriptedAnswer := Except SolverFailure (List String)

/-- A solver whose answers are known beforehand. -/
structure ScriptedSolver where
  /-- The answers of the first calls. -/
  script : List ScriptedAnswer := []
  /-- Answers to the formulas in which a text occurs. -/
  rules : List (String × ScriptedAnswer) := []
  /-- The answer where nothing else applies. -/
  fallback : ScriptedAnswer := .ok ["unsat"]

namespace ScriptedSolver

/-- The first rule whose text occurs in a formula decides; otherwise the fallback is answered. -/
def byRule (scripted : ScriptedSolver) (formula : String) : ScriptedAnswer :=
  match scripted.rules.find? fun rule => Text.occursIn rule.1.toList formula.toList with
  | some rule => rule.2
  | none => scripted.fallback

def toSolver (scripted : ScriptedSolver) : Solver := fun call formula =>
  scripted.script[call]?.getD (scripted.byRule formula)

end ScriptedSolver

/-- One run of a program whose runs are known beforehand. -/
structure ScriptedRun where
  /-- The input lines that the run is meant for, if it is not meant for any. -/
  lines : Option (List String) := none
  /-- The trace of the run, or how it fails. -/
  outcome : Except RunFault Trace

namespace ScriptedRun

/-- The run for the given input lines: one that is meant for them, otherwise the one with the given
number among those meant for any lines, the last of which is used again. -/
def choose? (entries : List ScriptedRun) (number : Nat) (lines : List String) : Option ScriptedRun :=
  let anyLines := entries.filter fun entry => entry.lines.isNone
  (entries.find? fun entry => entry.lines = some lines).or (anyLines[number]?.or anyLines.getLast?)

def toProgram (entries : List ScriptedRun) : Program := fun number recording directory =>
  match choose? entries number recording.source with
  | none => (.error (.program "no run"), recording, directory)
  | some { outcome := .error fault, .. } => (.error fault, recording, directory)
  | some { outcome := .ok trace, .. } =>
      let (outcome, recorded) := trace.replay recording
      (outcome, recorded, directory)

end ScriptedRun

end Concolic
