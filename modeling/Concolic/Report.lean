import Concolic.Limits
import Concolic.Solving

/-!
# Reports
-/

namespace Concolic

/-- What an exploration found out. -/
structure Report where
  iterations : Nat
  stopReason : StopReason
  tally : Tally
  inputs : List (List String)
  elapsedSecs : Float

namespace Report

/-- Keeps the first occurrence of each element. -/
def firstOccurrences {α : Type} [DecidableEq α] : List α → List α → List α
  | [], seen => seen
  | element :: rest, seen =>
      firstOccurrences rest (if element ∈ seen then seen else seen ++ [element])

/-- The distinct inputs, in the order of their first occurrences. -/
def distinctInputs (report : Report) : List (List String) :=
  firstOccurrences report.inputs []

end Report

end Concolic
