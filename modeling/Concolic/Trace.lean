import Concolic.Recording

/-!
# Traces

A program under test that runs as a process of its own writes a trace of what it did. Replaying the
trace into a recording gives the same recording as if the program had reported each event itself.
The conditions of a trace refer to literal texts by their positions in the trace's own list, so they
are imported: the list is interned first, and every number is replaced by the one that its text has
in the recording.
-/

namespace Concolic

inductive Event where
  | intInput
  | longInput
  | floatInput
  | textInput
  | beginScope
  | endScope
  | branch (outcome : Bool) (condition : Option PathCondition) (site : UInt32)
  | branchDone
  | branchForced

/-- What a program observed of itself in one run. -/
structure Trace where
  /-- The literal texts, in the order of their numbers in the events. -/
  strings : List String := []
  events : List Event

/-- Why a run of the program failed. -/
inductive RunFault where
  | spawn
  | traceUnreadable
  | traceMalformed
  /-- The trace refers to a literal text that it does not list. -/
  | unknownString (id : UInt32)
  /-- The program itself reports a failure. -/
  | program (text : String)
  deriving DecidableEq, Repr

namespace RunFault

/-- The message of a fault, where its wording is fixed. -/
def message? : RunFault → Option String
  | .unknownString id => some ("trace refers to unknown string #" ++ Numeral.text id.toNat)
  | .program text => some ("program failed: " ++ text)
  | _ => none

end RunFault

/-- The number that stands in a list at the place of another one. If there is none, the number stays
as it is, and the first such number is remembered. -/
def LiteralId.lookUp (ids : List LiteralId) (id : LiteralId) :
    StateM (Option LiteralId) LiteralId := do
  match ids[id.val.toNat]? with
  | some listed => return listed
  | none =>
      modify fun missing => missing.or (some id)
      return id

/-- Replaces the numbers of a trace's own literal texts. A number that the trace does not list is a
fault. -/
def PathCondition.importLiterals (condition : PathCondition) (ids : List LiteralId) :
    Except RunFault PathCondition :=
  -- The condition is gone through to its end, whether or not a number is missing.
  match (condition.renumber (LiteralId.lookUp ids)).run none with
  | (imported, none) => .ok imported
  | (_, some id) => .error (.unknownString id.val)

namespace Event

/-- One event in a recording, with the numbers of the trace's literal texts. -/
def apply (ids : List LiteralId) (recording : Recording) :
    Event → Except RunFault Recording
  | .intInput => .ok recording.int.2.2
  | .longInput => .ok recording.long.2.2
  | .floatInput => .ok recording.float.2
  | .textInput => .ok recording.text.2
  | .beginScope => .ok recording.beginScope
  | .endScope => .ok recording.endScope
  | .branch outcome none site => .ok (recording.branch outcome none site)
  | .branch outcome (some condition) site =>
      (condition.importLiterals ids).map fun imported =>
        recording.branch outcome (some imported) site
  | .branchDone => .ok recording.markDone
  | .branchForced => .ok recording.markForced

/-- Events one after another. A fault stops them, and what was recorded before it stays. -/
def applyAll (ids : List LiteralId) :
    List Event → Recording → Except RunFault Unit × Recording
  | [], recording => (.ok (), recording)
  | event :: rest, recording =>
      match event.apply ids recording with
      | .ok extended => applyAll ids rest extended
      | .error fault => (.error fault, recording)

end Event

namespace Trace

/-- Replays the trace into a recording. -/
def replay (trace : Trace) (recording : Recording) : Except RunFault Unit × Recording :=
  let (ids, lexicon) := recording.lexicon.internAll trace.strings
  Event.applyAll ids trace.events { recording with lexicon }

end Trace

end Concolic
