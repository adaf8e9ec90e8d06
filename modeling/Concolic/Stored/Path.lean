import Concolic.Json.Parser
import Concolic.Json.Printer
import Concolic.Path
import Concolic.Stored.Condition

/-!
# Stored form of paths

The expected path of the next run is stored as an array of steps. A step names its kind in a field
of its own; written as an array, it starts with the kind. A branch may leave out the number of its
condition, and everything else must be there.
-/

namespace Concolic

open Json (Reading)

namespace Branch

/-- The fields of a branch. -/
def fieldsToJson (branch : Branch) : List (String × Json) :=
  [("branch_taken", .bool branch.taken), ("is_force_truth", .bool branch.forced),
    ("done", .bool branch.done), ("path_constraint_index", .optional .nat branch.condition),
    ("site", .nat branch.site.toNat)]

def ofJson? (value : Json) : Option Branch := do
  match ← Json.fields?
      ["branch_taken", "is_force_truth", "done", "path_constraint_index", "site"] value with
  | [taken, forced, done, condition, site] =>
      return { taken := ← Json.required? Json.bool? taken
               forced := ← Json.required? Json.bool? forced
               done := ← Json.required? Json.bool? done
               condition := ← Json.default? none (Json.nullable? Json.nat?) condition
               site := ← Json.required? Json.uint32? site }
  | _ => none

end Branch

namespace ScopeEdge

def toJson : ScopeEdge → Json
  | .opening => .string "begin"
  | .closing => .string "end"

def ofJson? (reading : Reading) (value : Json) : Option ScopeEdge := do
  let (name, content) ← Json.variant? value
  guard (Json.isBare reading content)
  match name with
  | "begin" => some .opening
  | "end" => some .closing
  | _ => none

end ScopeEdge

namespace PathStep

def toJson : PathStep → Json
  | .branch fork => .object (("kind", .string "branch") :: fork.fieldsToJson)
  | .scope edge => .object [("kind", .string "scope"), ("edge", edge.toJson)]

def ofJson? (value : Json) : Option PathStep := do
  match ← Json.tagged? "kind" value with
  | ("branch", content) => return .branch (← Branch.ofJson? content)
  | ("scope", content) =>
      match ← Json.fields? ["edge"] content with
      | [edge] => return .scope (← Json.required? (ScopeEdge.ofJson? .collected) edge)
      | _ => none
  | _ => none

/-- The stored form of a list of steps. -/
def listToJson (steps : List PathStep) : Json :=
  .array (steps.map toJson)

def listOfJson? : Json → Option (List PathStep) :=
  Json.list? ofJson?

def listToText (steps : List PathStep) : String :=
  (listToJson steps).pretty

def listOfText? (text : String) : Option (List PathStep) :=
  (Json.parse? text).bind listOfJson?

end PathStep

end Concolic
