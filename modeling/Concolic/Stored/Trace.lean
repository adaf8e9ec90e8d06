import Concolic.Json.Parser
import Concolic.Stored.Condition
import Concolic.Trace

/-!
# Stored form of traces

An event names its kind in a field of its own; written as an array, it starts with the kind. A
branch may leave out its condition and its site.
-/

namespace Concolic

open Json (Reading)

namespace Event

/-- An event without fields. -/
def plainToJson (kind : String) : Json :=
  .object [("event", .string kind)]

def toJson : Event → Json
  | .intInput => plainToJson "int_input"
  | .longInput => plainToJson "long_input"
  | .floatInput => plainToJson "float_input"
  | .textInput => plainToJson "string_input"
  | .beginScope => plainToJson "begin_scope"
  | .endScope => plainToJson "end_scope"
  | .branch outcome condition site =>
      .object [("event", .string "branch"), ("outcome", .bool outcome),
        ("constraint", .optional PathCondition.toJson condition), ("site", .nat site.toNat)]
  | .branchDone => plainToJson "branch_done"
  | .branchForced => plainToJson "branch_forced"

/-- The event of a kind that has no fields. -/
def ofKind? : String → Option Event
  | "int_input" => some .intInput
  | "long_input" => some .longInput
  | "float_input" => some .floatInput
  | "string_input" => some .textInput
  | "begin_scope" => some .beginScope
  | "end_scope" => some .endScope
  | "branch_done" => some .branchDone
  | "branch_forced" => some .branchForced
  | _ => none

/-- A branch from its fields. -/
def branchOfJson? (content : Json) : Option Event := do
  match ← Json.fields? ["outcome", "constraint", "site"] content with
  | [outcome, condition, site] =>
      return .branch (← Json.required? Json.bool? outcome)
        (← Json.default? none (Json.nullable? (PathCondition.ofJson? .collected)) condition)
        (← Json.default? 0 Json.uint32? site)
  | _ => none

def ofJson? (value : Json) : Option Event := do
  match ← Json.tagged? "event" value with
  | ("branch", content) => branchOfJson? content
  | (kind, .object _) => ofKind? kind
  | (kind, .array []) => ofKind? kind
  | _ => none

end Event

namespace Trace

def toJson (trace : Trace) : Json :=
  .object [("strings", .strings trace.strings), ("events", .array (trace.events.map Event.toJson))]

def ofJson? (value : Json) : Option Trace := do
  match ← Json.fields? ["strings", "events"] value with
  | [strings, events] =>
      return { strings := ← Json.default? [] (Json.list? Json.string?) strings
               events := ← Json.required? (Json.list? Event.ofJson?) events }
  | _ => none

def ofText? (text : String) : Option Trace :=
  (Json.parse? text).bind ofJson?

end Trace

end Concolic
