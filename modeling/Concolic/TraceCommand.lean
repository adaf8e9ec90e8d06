import Concolic.Exploration
import Concolic.Stored.Trace

/-!
# Programs that write traces

A program that runs as a process of its own leaves its trace in a file. The file is removed before
each run, so that an old trace is never taken for a new one; how the process itself ended does not
matter.
-/

namespace Concolic

/-- A program under test that runs as a process. -/
structure TraceCommand where
  /-- The file that the process leaves its trace in. -/
  traceFile : String
  /-- What the process does to the directory in its run of the given number; none if it cannot be
  started. -/
  launch : Nat → Directory → Option Directory

namespace TraceCommand

/-- Reads the trace that a process left, and replays it. -/
def replayTrace (command : TraceCommand) (recording : Recording) (directory : Directory) :
    Except RunFault Unit × Recording :=
  match directory.read command.traceFile with
  | .error _ => (.error .traceUnreadable, recording)
  | .ok contents =>
      match Trace.ofText? contents with
      | none => (.error .traceMalformed, recording)
      | some trace => trace.replay recording

/-- The process as a program under test. -/
def toProgram (command : TraceCommand) : Program := fun number recording directory =>
  match directory.discard command.traceFile with
  | .error _ => (.error .traceUnreadable, recording, directory)
  | .ok cleared =>
      match command.launch number cleared with
      | none => (.error .spawn, recording, cleared)
      | some left =>
          let (outcome, recorded) := command.replayTrace recording left
          (outcome, recorded, left)

end TraceCommand

end Concolic
