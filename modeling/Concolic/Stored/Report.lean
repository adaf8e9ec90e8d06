import Concolic.Json.Decode
import Concolic.Json.Printer
import Concolic.Report

/-!
# Stored form of reports
-/

namespace Concolic

open Json (Reading)

namespace StopReason

def toJson : StopReason → Json
  | .exhausted => .string "exhausted"
  | .iterationLimit => .string "iteration_limit_exceeded"
  | .wallTime => .string "wall_time_exceeded"

def ofJson? (reading : Reading) (value : Json) : Option StopReason := do
  let (name, content) ← Json.variant? value
  guard (Json.isBare reading content)
  match name with
  | "exhausted" => some .exhausted
  | "iteration_limit_exceeded" => some .iterationLimit
  | "wall_time_exceeded" => some .wallTime
  | _ => none

end StopReason

namespace Tally

def toJson (tally : Tally) : Json :=
  .object [("attempts", .nat tally.attempts), ("feasible", .nat tally.feasible),
    ("infeasible", .nat tally.infeasible), ("quick_unsat", .nat tally.quickUnsat),
    ("retries", .nat tally.retries), ("solver_calls", .nat tally.solverCalls),
    ("timeouts_skipped", .nat tally.timeoutsSkipped)]

def ofJson? (value : Json) : Option Tally := do
  match ← Json.fields? ["attempts", "feasible", "infeasible", "quick_unsat", "retries",
      "solver_calls", "timeouts_skipped"] value with
  | [attempts, feasible, infeasible, quickUnsat, retries, solverCalls, timeoutsSkipped] =>
      return { attempts := ← Json.required? Json.nat? attempts
               feasible := ← Json.required? Json.nat? feasible
               infeasible := ← Json.required? Json.nat? infeasible
               quickUnsat := ← Json.required? Json.nat? quickUnsat
               retries := ← Json.required? Json.nat? retries
               solverCalls := ← Json.required? Json.nat? solverCalls
               timeoutsSkipped := ← Json.required? Json.nat? timeoutsSkipped }
  | _ => none

end Tally

namespace Report

/-- The fields of a report that do not depend on time. -/
def timelessFields (report : Report) : List (String × Json) :=
  [("iterations", .nat report.iterations), ("stop_reason", report.stopReason.toJson),
    ("stats", report.tally.toJson), ("inputs", .array (report.inputs.map .strings))]

def toJson (report : Report) : Json :=
  .object (report.timelessFields ++ [("elapsed_secs", .number (.real report.elapsedSecs))])

def ofJson? (reading : Reading) (value : Json) : Option Report := do
  match ← Json.fields? ["iterations", "stop_reason", "stats", "inputs", "elapsed_secs"] value with
  | [iterations, stopReason, tally, inputs, elapsedSecs] =>
      return { iterations := ← Json.required? Json.nat? iterations
               stopReason := ← Json.required? (StopReason.ofJson? reading) stopReason
               tally := ← Json.required? Tally.ofJson? tally
               inputs := ← Json.required? (Json.list? (Json.list? Json.string?)) inputs
               elapsedSecs := ← Json.required? Json.double? elapsedSecs }
  | _ => none

def toText (report : Report) : String :=
  report.toJson.pretty

end Report

end Concolic
