import Concolic.CommandLine

/-!
# Transcripts

An exploration is a function of what its processes do, so a program that talks to real processes
keeps a transcript of their answers. Whenever an exploration with the answers so far ends because
one is missing, the missing answer is fetched, and the exploration is repeated with it. Since the
earlier answers are the same, it comes to the same point again and goes on from there.
-/

namespace Concolic

/-- What the processes of an exploration answered so far. -/
structure Transcript where
  /-- The solver's answers, call by call. -/
  answers : List (Except SolverFailure (List String)) := []
  /-- The traces that the program left, run by run; none for a run that did not start. -/
  traces : List (Option String) := []
  /-- The seconds that had passed before each run. -/
  seconds : List Nat := []

/-- What a transcript lacks. -/
inductive Question where
  /-- The seconds that have passed. -/
  | time
  /-- What the program does on the given input lines. -/
  | program (lines : List String)
  /-- What the solver answers to a formula. -/
  | solver (formula : String)
  deriving DecidableEq, Repr

namespace Transcript

/-- The host whose processes answer as the transcript says. -/
def host (transcript : Transcript) : CommandLine.Host where
  solver _ := fun call _ => transcript.answers[call]?.getD (.error .io)
  launch _ traceFile := fun number directory =>
    (transcript.traces[number]?.join).map fun trace =>
      (directory.write traceFile trace).toOption.getD directory
  clock := fun iterations => transcript.seconds[iterations]?.getD 0

/-- What is missing for an exploration to go on; none if it came to its end. -/
def missing? (transcript : Transcript) (exploration : Exploration) (lines : List String) :
    Option Question :=
  match exploration.bench.sent[transcript.answers.length]? with
  | some formula => some (.solver formula)
  | none =>
      if transcript.traces.length < exploration.runs.length then
        if transcript.seconds.length < exploration.runs.length then some .time
        else some (.program lines)
      else
        none

end Transcript

end Concolic
