import Concolic.Directory
import Concolic.Stored.Path

/-!
# The file of the expected path

Between two runs the expected path lives in a file. No file means that nothing is expected.
-/

namespace Concolic

/-- Why the expected path cannot be used. -/
inductive PathFault where
  /-- The file cannot be read, written or removed. -/
  | unusable
  /-- The file does not hold a path. -/
  | malformed
  deriving DecidableEq, Repr

namespace PathFile

def load (directory : Directory) (path : String) : Except PathFault (List PathStep) :=
  match directory.read path with
  | .ok contents =>
      match PathStep.listOfText? contents with
      | some steps => .ok steps
      | none => .error .malformed
  | .error .missing => .ok []
  | .error .unusable => .error .unusable

def save (directory : Directory) (path : String) (steps : List PathStep) :
    Except PathFault Directory :=
  match directory.write path (PathStep.listToText steps) with
  | .ok directory => .ok directory
  | .error _ => .error .unusable

def clear (directory : Directory) (path : String) : Except PathFault Directory :=
  match directory.discard path with
  | .ok directory => .ok directory
  | .error _ => .error .unusable

end PathFile

end Concolic
