import Concolic.Path

/-!
# Choosing the branch to turn

The search looks for a branch whose other side can be reached. Branches with a forced outcome cut
the trail into segments. A segment closed by a forced branch that took the false side is searched
before the later ones, a segment closed by one that took the true side not at all, and the last
segment at the end. Inside a segment the deepest open branch is asked first.

The trail is walked once. The open branches of the current segment wait on a stack, the deepest on
top, until the segment's fate is known.
-/

namespace Concolic.Search

variable {State Failure : Type}

/-- What the search may ask: can the path be turned aside at the condition of the given number? An
answer may change a state and may fail. -/
abbrev Ask (State Failure : Type) := Nat → State → Except Failure Bool × State

/-- An open branch: its position in the trail and the number of its condition. -/
structure Candidate where
  position : Nat
  condition : Nat
  deriving DecidableEq, Repr

/-- Asks about candidates one after another, up to the first that can be turned aside. -/
def firstFeasible (ask : Ask State Failure) :
    List Candidate → State → Except Failure (Option Nat) × State
  | [], state => (.ok none, state)
  | candidate :: rest, state =>
      match ask candidate.condition state with
      | (.ok true, state) => (.ok (some candidate.position), state)
      | (.ok false, state) => firstFeasible ask rest state
      | (.error failure, state) => (.error failure, state)

/-- The stack of waiting candidates after a branch. -/
def push (position : Nat) (branch : Branch) (waiting : List Candidate) : List Candidate :=
  match branch.open? with
  | some condition => ⟨position, condition⟩ :: waiting
  | none => waiting

/-- Walks the rest of a trail from a position, with the candidates of the current segment. -/
def walk (ask : Ask State Failure) :
    List PathStep → Nat → List Candidate → State → Except Failure (Option Nat) × State
  | [], _, waiting, state => firstFeasible ask waiting state
  | .scope _ :: rest, position, waiting, state => walk ask rest (position + 1) waiting state
  | .branch branch :: rest, position, waiting, state =>
      let waiting := push position branch waiting
      -- A forced branch belongs to the segment that it closes.
      if !branch.forced then walk ask rest (position + 1) waiting state
      else if branch.taken then walk ask rest (position + 1) [] state
      else
        match firstFeasible ask waiting state with
        | (.ok none, state) => walk ask rest (position + 1) [] state
        | found => found

/-- The position of the branch that was turned aside, or none if there is no such branch. -/
def depthFirst (ask : Ask State Failure) (trail : Trail) (state : State) :
    Except Failure (Option Nat) × State :=
  walk ask trail.steps 0 [] state

def label : String := "dfs"

end Concolic.Search
