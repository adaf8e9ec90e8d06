import Concolic.Transcript

/-!
# The program

The processes of an exploration are at the other end of the standard streams. A question to one of
them is printed as a line that names it and the lines it is given, each behind a mark; the answer is
read up to the next empty line. An answer that never comes counts as a process that did not start.
-/

namespace Concolic.Main

/-- Reads the lines of an answer; none if the input has ended. -/
partial def readAnswer (input : IO.FS.Stream) (lines : List String) : IO (Option (List String)) := do
  let line ← input.getLine
  if line.isEmpty then return if lines.isEmpty then none else some lines
  match Text.lines line with
  | [text] => if text.isEmpty then return some lines else readAnswer input (lines ++ [text])
  | _ => return some lines

/-- Prints a question and reads its answer. -/
def putQuestion (name : String) (lines : List String) : IO (Option (List String)) := do
  let output ← IO.getStdout
  output.putStrLn name
  for line in lines do
    output.putStrLn ("> " ++ line)
  output.flush
  readAnswer (← IO.getStdin) []

/-- Fetches what a transcript lacks. -/
def fetch (startMs : Nat) (transcript : Transcript) : Question → IO Transcript
  | .time => do
      let now ← IO.monoMsNow
      return { transcript with seconds := transcript.seconds ++ [(now - startMs) / 1000] }
  | .program lines => do
      let trace := (← putQuestion "program" lines).map Text.unlines
      return { transcript with traces := transcript.traces ++ [trace] }
  | .solver formula => do
      let answer :=
        match ← putQuestion "solver" (Text.lines formula) with
        | some lines => Except.ok lines
        | none => .error .spawn
      return { transcript with answers := transcript.answers ++ [answer] }

/-- Finds out what stands at one step of a way. What is there but cannot be read as a file counts as
a folder; a device is not read, since it may have no end. -/
def loadEntry (known : Option Entry) (path : String) : IO (Option Entry) := do
  if let some (.device _) := known then return known
  match ← (IO.FS.readBinFile path).toBaseIO with
  | .ok bytes => return some (.ofBytes bytes.toList)
  | .error (.noFileOrDirectory ..) => return none
  | .error _ => return some .folder

/-- Loads what a path leads to into a directory, with the folders on its way. -/
def loadPath (directory : Directory) (path : String) : IO Directory := do
  let parsed := Path.ofText path
  let rec load (directory : Directory) (location : Location) : List String → IO Directory
    | [] => return directory
    | name :: rest => do
        match directory.step location name with
        | .error _ => return directory
        | .ok next =>
            match ← loadEntry (directory.get? next) next.text with
            | some entry => load (directory.set next entry) next rest
            | none => return directory
  load directory parsed.start parsed.steps

/-- Brings one file to the state that it has in a directory. -/
def storeEntry (before after : Directory) (location : Location) : IO Unit := do
  match before.get? location, after.get? location with
  | some _, none => IO.FS.removeFile location.text
  | old, some (.text contents) =>
      if old ≠ some (.text contents) then IO.FS.writeFile location.text contents
  | old, some (.binary bytes) =>
      if old ≠ some (.binary bytes) then IO.FS.writeBinFile location.text ⟨bytes.toArray⟩
  | _, _ => return

/-- The directory as far as a command line uses it. -/
def loadDirectory (options : Options) : IO Directory := do
  let here ← IO.currentDir
  let start := { Directory.onHost with depth := (Path.ofText here.toString).steps.length }
  let withSettings ← options.settingsFile.toList.foldlM loadPath start
  match CommandLine.settingsOf options withSettings with
  | .error _ => return withSettings
  | .ok settings =>
      ([settings.inputsFile, settings.inputsFile ++ ".bak", settings.pathFile,
        settings.solver.formulaFile, CommandLine.traceFileOf options] ++
          settings.reportFile.toList).foldlM loadPath withSettings

/-- Repeats an exploration until its transcript lacks nothing. -/
partial def explore (arguments : List String) (directory : Directory) (startMs : Nat)
    (transcript : Transcript) : IO (CommandLine.Ending × Exploration) := do
  let elapsed := ((← IO.monoMsNow) - startMs).toFloat / 1000
  let host := { transcript.host with elapsedSecs := elapsed }
  let (ending, exploration) := CommandLine.run host arguments directory
  let lines := (exploration.runs.getLast?.map fun run => run.source).getD []
  match transcript.missing? exploration lines with
  | none => return (ending, exploration)
  | some question =>
      explore arguments directory startMs (← fetch startMs transcript question)

/-- What is printed when an exploration ends early. -/
def complain (ending : CommandLine.Ending) : IO Unit := do
  let message :=
    match ending with
    | .notStarted (.invalid fault) => fault.message
    | .explored (.error fault) => fault.message?.getD "exploration failed"
    | .notStarted _ => "the settings cannot be read"
    | .refused => "wrong arguments"
    | .informed | .explored (.ok _) => ""
  unless message.isEmpty do
    IO.eprintln message

end Concolic.Main

/-- Explores the program that the command line names. -/
def main (arguments : List String) : IO UInt32 := do
  let directory ←
    match Concolic.CommandLine.parse arguments with
    | .explore options => Concolic.Main.loadDirectory options
    | _ => pure {}
  let (ending, exploration) ←
    Concolic.Main.explore arguments directory (← IO.monoMsNow) {}
  let locations := (directory.entries ++ exploration.directory.entries).map Prod.fst
  for location in locations.eraseDups do
    Concolic.Main.storeEntry directory exploration.directory location
  Concolic.Main.complain ending
  return ending.exitCode.toUInt32
