import Concolic.Formula

/-!
# Paths

A trail is what one run of the program went through: its branches and the edges of its scopes, in
order, and the conditions of the branches that have one. The conditions are numbered in the order of
the branches, and a branch keeps the number of its own.

A trail may be given the steps that the run is expected to take. As long as the run keeps to them,
each branch takes over the marks of the expected branch. At the first step that differs, the rest of
the expectation is dropped.
-/

namespace Concolic

structure Branch where
  taken : Bool
  /-- The outcome was not the program's own choice. -/
  forced : Bool := false
  /-- Nothing is left to explore on the other side. -/
  done : Bool := false
  /-- The number of the branch's condition, if it has one. -/
  condition : Option Nat
  /-- The place in the program. -/
  site : UInt32
  deriving DecidableEq, Repr

inductive ScopeEdge where
  | opening
  | closing
  deriving DecidableEq, Repr

inductive PathStep where
  | branch (branch : Branch)
  | scope (edge : ScopeEdge)
  deriving DecidableEq, Repr

namespace Branch

/-- The number of the condition, if the branch may still be turned aside. -/
def open? (branch : Branch) : Option Nat :=
  if branch.done then none else branch.condition

/-- The branch with the other outcome, explored to its end. -/
def flipped (branch : Branch) : Branch :=
  { branch with taken := !branch.taken, done := true }

end Branch

namespace PathStep

/-- The branch of a step that is one. -/
def branch? : PathStep → Option Branch
  | .branch fork => some fork
  | .scope _ => none

def changeFirstBranch (change : Branch → Branch) : List PathStep → List PathStep
  | [] => []
  | .branch fork :: rest => .branch (change fork) :: rest
  | .scope edge :: rest => .scope edge :: changeFirstBranch change rest

/-- Changes the last branch of a list of steps. -/
def changeLastBranch (change : Branch → Branch) (steps : List PathStep) : List PathStep :=
  (changeFirstBranch change steps.reverse).reverse

def lastBranch? (steps : List PathStep) : Option Branch :=
  steps.reverse.findSome? branch?

def flipped : PathStep → PathStep
  | .branch fork => .branch fork.flipped
  | .scope edge => .scope edge

end PathStep

/-- The path of one run. -/
structure Trail where
  steps : List PathStep := []
  /-- The conditions of the branches, by their numbers. -/
  conditions : List PathCondition := []
  /-- The steps that the run is expected to take. -/
  expected : List PathStep := []
  /-- The run has left the expected steps. -/
  diverged : Bool := false

namespace Trail

/-- A trail that is expected to take the given steps first. -/
def expecting (expected : List PathStep) : Trail where
  expected := expected

/-- The step that is expected next. -/
def next? (trail : Trail) : Option PathStep :=
  if trail.diverged then none else trail.expected[trail.steps.length]?

/-- The branch to record, and whether it departs from what was expected. -/
def meet (expected : Option PathStep) (branch : Branch) : Branch × Bool :=
  match expected with
  | some (.branch saved) =>
      -- The site and the number of the condition are those of this run, whatever was saved.
      if saved.taken = branch.taken then
        ({ branch with done := saved.done, forced := saved.forced }, false)
      else
        (branch, true)
  | some (.scope _) => (branch, true)
  | none => (branch, false)

/-- Records a branch. The condition is the one that held, that is, already negated if the branch was
not taken. -/
def recordBranch (trail : Trail) (taken : Bool) (condition : Option PathCondition) (site : UInt32) :
    Trail :=
  let (branch, departs) := meet trail.next?
    { taken, site, condition := condition.map fun _ => trail.conditions.length }
  { trail with
    steps := trail.steps ++ [.branch branch]
    conditions := trail.conditions ++ condition.toList
    diverged := trail.diverged || departs }

def recordScope (trail : Trail) (edge : ScopeEdge) : Trail :=
  let departs :=
    match trail.next? with
    | some expected => expected != .scope edge
    | none => false
  { trail with
    steps := trail.steps ++ [.scope edge]
    diverged := trail.diverged || departs }

/-- Marks the last branch as explored to its end. -/
def markDone (trail : Trail) : Trail :=
  { trail with
    steps := PathStep.changeLastBranch (fun branch => { branch with done := true }) trail.steps }

/-- Marks the outcome of the last branch as forced. -/
def markForced (trail : Trail) : Trail :=
  { trail with
    steps := PathStep.changeLastBranch (fun branch => { branch with forced := true }) trail.steps }

def branches (trail : Trail) : List Branch :=
  trail.steps.filterMap PathStep.branch?

/-- The steps up to a position, with the branch there flipped: what the next run is expected to
take. -/
def flippedPrefix (trail : Trail) (position : Nat) : List PathStep :=
  trail.steps.take position ++ ((trail.steps.drop position).take 1).map PathStep.flipped

end Trail

end Concolic
