import Concolic.Text.Blank

/-!
# Paths and locations

A path is a text that names a file by the steps to it. Where the steps lead depends on the folders
on the way, so a path is taken apart here and followed elsewhere. A location is where a path has
led: some names further down from the working directory, from a folder around it, or from the root.
-/

namespace Concolic

/-- Where the way to a location starts. -/
inductive Origin where
  /-- The working directory, or the folder so many levels above it. -/
  | working (above : Nat)
  | root
  deriving DecidableEq, Repr

/-- A place that a file or folder can have. -/
structure Location where
  origin : Origin := .working 0
  /-- The names on the way, the outermost first. -/
  names : List String := []
  deriving DecidableEq, Repr

namespace Location

def ofName (name : String) : Location where
  names := [name]

instance : Coe String Location where
  coe := ofName

/-- The location of a name in the folder at a location. -/
def child (location : Location) (name : String) : Location :=
  { location with names := location.names ++ [name] }

/-- The folder that holds a location, where the working directory is so many levels below the root.
The root holds itself. -/
def parent (depth : Nat) (location : Location) : Location :=
  match location with
  | ⟨.working above, []⟩ =>
      if above + 1 < depth then ⟨.working (above + 1), []⟩ else ⟨.root, []⟩
  | ⟨.root, []⟩ => ⟨.root, []⟩
  | ⟨origin, names⟩ => ⟨origin, names.dropLast⟩

/-- A path to a location. -/
def text (location : Location) : String :=
  match location.origin with
  | .working above =>
      String.intercalate "/" ("." :: List.replicate above ".." ++ location.names)
  | .root => "/" ++ String.intercalate "/" location.names

/-- The name of a location in the working directory. -/
def name? : Location → Option String
  | ⟨.working 0, [name]⟩ => some name
  | _ => none

end Location

/-- A path, taken apart. -/
structure Path where
  start : Location
  steps : List String
  /-- The path ends in a slash, so that it can only lead to a folder. -/
  namesFolder : Bool
  deriving DecidableEq, Repr

namespace Path

def maxNameBytes : Nat := 255

def maxPathBytes : Nat := 4095

/-- Whether a text can be used as a path at all. -/
def isUsable (path : String) : Bool :=
  path.utf8ByteSize ≤ maxPathBytes && !path.toList.contains '\x00'

/-- Takes a path apart at its slashes. Several slashes in a row count as one. -/
def ofText (path : String) : Path :=
  let pieces := Text.splitWhere (· == '/') path.toList
  { start := if pieces.head? = some [] then ⟨.root, []⟩ else {}
    steps := (pieces.filter fun piece => !piece.isEmpty).map String.ofList
    namesFolder := pieces.getLast? = some [] }

end Path

end Concolic
