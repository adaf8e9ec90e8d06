/-!
# Limits of an exploration
-/

namespace Concolic

/-- How long an exploration may go on. -/
structure Limits where
  maxIterations : Nat := 1000
  maxWallSecs : Nat := 3600
  deriving DecidableEq, Repr

/-- Why an exploration stopped. -/
inductive StopReason where
  /-- No branch is left that could be turned aside. -/
  | exhausted
  | iterationLimit
  | wallTime
  deriving DecidableEq, Repr

namespace Limits

/-- The limit that is reached after the given number of runs and seconds. -/
def check (limits : Limits) (iterations seconds : Nat) : Option StopReason :=
  if limits.maxIterations ≤ iterations then some .iterationLimit
  else if limits.maxWallSecs ≤ seconds then some .wallTime
  else none

end Limits

end Concolic
