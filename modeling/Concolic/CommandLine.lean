import Concolic.Stored.Settings
import Concolic.TraceCommand

/-!
# The command line

Options come first and may be given once each. They end at the first argument that is no option, or
at `--`; that argument is the program under test, and all later ones are its own arguments. An
option takes its value from the same argument after `=`, or from the next one, which must not look
like an option then.
-/

namespace Concolic

structure Options where
  settingsFile : Option String := none
  solver : Option String := none
  inputsFile : Option String := none
  traceFile : Option String := none
  maxIterations : Option Nat := none
  reportFile : Option String := none
  verbose : Bool := false
  /-- The program under test and its arguments. -/
  program : List String := []
  deriving DecidableEq, Repr

inductive Invocation where
  | explore (options : Options)
  /-- Show a help or version text. -/
  | inform
  | refuse
  deriving DecidableEq, Repr

/-- The options that take a value. -/
inductive ValueOption where
  | config
  | solver
  | inputs
  | trace
  | maxIterations
  | report
  deriving DecidableEq, Repr

namespace ValueOption

def ofName? : String → Option ValueOption
  | "config" => some .config
  | "solver" => some .solver
  | "inputs" => some .inputs
  | "trace" => some .trace
  | "max-iterations" => some .maxIterations
  | "report" => some .report
  | _ => none

/-- Fills a place that must be free. -/
def fill {α : Type} (place : Option α) (value : α) : Option (Option α) :=
  match place with
  | none => some (some value)
  | some _ => none

/-- A path, which must not be empty. -/
def path? (value : String) : Option String :=
  if value = "" then none else some value

/-- Gives an option its value; none if it has one already, or if the value is not of its kind. -/
def set? (option : ValueOption) (options : Options) (value : String) : Option Options :=
  match option with
  | .config => do
      return { options with settingsFile := ← fill options.settingsFile (← path? value) }
  | .solver => do return { options with solver := ← fill options.solver value }
  | .inputs => do return { options with inputsFile := ← fill options.inputsFile (← path? value) }
  | .trace => do return { options with traceFile := ← fill options.traceFile (← path? value) }
  | .maxIterations => do
      let number ← Numeral.uint64? value.toList
      return { options with maxIterations := ← fill options.maxIterations number.toNat }
  | .report => do return { options with reportFile := ← fill options.reportFile (← path? value) }

end ValueOption

namespace CommandLine

/-- Sets the switch for more output; none if it is set already. -/
def setVerbose? (options : Options) : Option Options :=
  if options.verbose then none else some { options with verbose := true }

def looksLikeOption (argument : String) : Bool :=
  match argument.toList with
  | '-' :: _ :: _ => true
  | _ => false

/-- Reads one-letter switches: an answer that is known at once, or the options with the switches
set. -/
def switches (options : Options) : List Char → Except Invocation Options
  | [] => .ok options
  | 'v' :: rest =>
      match setVerbose? options with
      | some options => switches options rest
      | none => .error .refuse
  | 'h' :: _ | 'V' :: _ => .error .inform
  | _ => .error .refuse

/-- The name of an option and the value that is attached to it. -/
def splitName (option : List Char) : String × Option String :=
  (String.ofList (option.takeWhile (· != '=')),
    match option.dropWhile (· != '=') with
    | [] => none
    | _ :: value => some (String.ofList value))

def withProgram (options : Options) : List String → Invocation
  | [] => .refuse
  | program => .explore { options with program }

def read (options : Options) : List String → Invocation
  | [] => .refuse
  | argument :: rest =>
      match argument.toList with
      | ['-', '-'] => withProgram options rest
      | '-' :: '-' :: option =>
          match splitName option, rest with
          | ("help", none), _ | ("version", none), _ => .inform
          | ("verbose", none), rest =>
              match setVerbose? options with
              | some options => read options rest
              | none => .refuse
          | (name, some value), rest =>
              match (ValueOption.ofName? name).bind fun option => option.set? options value with
              | some options => read options rest
              | none => .refuse
          | (name, none), value :: rest =>
              if looksLikeOption value then .refuse
              else
                match (ValueOption.ofName? name).bind fun option => option.set? options value with
                | some options => read options rest
                | none => .refuse
          | (_, none), [] => .refuse
      | '-' :: letter :: letters =>
          match switches options (letter :: letters) with
          | .ok options => read options rest
          | .error invocation => invocation
      | _ => withProgram options (argument :: rest)

def parse (arguments : List String) : Invocation :=
  read {} arguments

/-- The processes that a command line can start. -/
structure Host where
  /-- The solver that a command stands for, called with the given settings. -/
  solver : SolverSettings → Solver
  /-- What a program with its arguments does to the directory in its run of the given number, and
  where it leaves its trace; none if it cannot be started. -/
  launch : (program : List String) → (traceFile : String) → Nat → Directory → Option Directory
  clock : Nat → Nat := fun _ => 0
  elapsedSecs : Float := 0

inductive StartFault where
  /-- The settings file cannot be read. -/
  | unreadable
  /-- The settings file holds no settings. -/
  | malformed
  | invalid (fault : SettingsFault)
  deriving DecidableEq, Repr

/-- Reads and checks a settings file. -/
def loadSettings (directory : Directory) (path : String) : Except StartFault Settings :=
  match directory.read path with
  | .error _ => .error .unreadable
  | .ok contents =>
      match Settings.ofText? contents with
      | none => .error .malformed
      | some settings =>
          match settings.validate with
          | .error fault => .error (.invalid fault)
          | .ok () => .ok settings

/-- The settings with what the command line puts in their place. -/
def override (options : Options) (settings : Settings) : Settings :=
  { settings with
    solver := { settings.solver with
      command := options.solver.getD settings.solver.command }
    inputsFile := options.inputsFile.getD settings.inputsFile
    limits := { settings.limits with
      maxIterations := options.maxIterations.getD settings.limits.maxIterations }
    reportFile := options.reportFile.orElse fun _ => settings.reportFile }

/-- The settings that a command line leads to. -/
def settingsOf (options : Options) (directory : Directory) : Except StartFault Settings :=
  let base :=
    match options.settingsFile with
    | some path => loadSettings directory path
    | none => .ok {}
  match base with
  | .error fault => .error fault
  | .ok settings =>
      match (override options settings).validate with
      | .error fault => .error (.invalid fault)
      | .ok () => .ok (override options settings)

def traceFileOf (options : Options) : String :=
  options.traceFile.getD "trace.json"

/-- The environment of an exploration on a host. -/
def environmentOf (host : Host) (options : Options) (settings : Settings) : Environment where
  settings := settings
  solver := host.solver settings.solver
  program := TraceCommand.toProgram
    { traceFile := traceFileOf options
      launch := host.launch options.program (traceFileOf options) }
  clock := host.clock
  elapsedSecs := host.elapsedSecs

inductive Ending where
  /-- Help or version text was asked for. -/
  | informed
  | refused
  /-- There was nothing to explore with. -/
  | notStarted (fault : StartFault)
  | explored (outcome : Except ExplorationFault Report)

namespace Ending

/-- The exit code: 0 for success, 2 for wrong arguments, 1 for everything else. -/
def exitCode : Ending → Nat
  | .informed | .explored (.ok _) => 0
  | .refused => 2
  | .notStarted _ | .explored (.error _) => 1

end Ending

/-- Carries out a command line in a directory. -/
def run (host : Host) (arguments : List String) (directory : Directory) : Ending × Exploration :=
  let idle : Exploration := { bench := { directory } }
  match parse arguments with
  | .inform => (.informed, idle)
  | .refuse => (.refused, idle)
  | .explore options =>
      match settingsOf options directory with
      | .error fault => (.notStarted fault, idle)
      | .ok settings =>
          let (outcome, exploration) :=
            Exploration.run (environmentOf host options settings) directory
          (.explored outcome, exploration)

end CommandLine

end Concolic
