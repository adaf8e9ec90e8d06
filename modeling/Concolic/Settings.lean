import Concolic.Input
import Concolic.Limits
import Concolic.Solver
import Concolic.Text.Blank

/-!
# Settings of an exploration

Every setting has a default. Settings are checked in a fixed order, and the first one that makes no
sense is reported.
-/

namespace Concolic

/-- What an exploration has to be told. -/
structure Settings where
  solver : SolverSettings := {}
  /-- The input file of the program under test. -/
  inputsFile : String := "inputs"
  /-- The file that hands the expected path from one run to the next. -/
  pathFile : String := "history.json"
  /-- Where the report is written, if anywhere. -/
  reportFile : Option String := none
  maxLength : Int64 := 100
  format : InputFormat := {}
  limits : Limits := {}
  deriving DecidableEq, Repr

/-- A setting that makes no sense. -/
inductive SettingsFault where
  | emptyCommand
  | noBudget
  | negativeLength (length : Int64)
  | equalMarkers
  | unprintableFiller
  deriving DecidableEq, Repr

namespace SettingsFault

def message : SettingsFault → String
  | .emptyCommand => "invalid config: solver.command is empty"
  | .noBudget => "invalid config: solver.retry_budget must be at least 1"
  | .negativeLength length =>
      "invalid config: max_string_length must not be negative, got " ++ Numeral.text length.toInt
  | .equalMarkers => "invalid config: scope begin and end markers must differ"
  | .unprintableFiller => "invalid config: default_char must be printable"

end SettingsFault

/-- Whether a character is a control character: the two blocks of the Unicode category `Cc`. -/
def isControl (character : Char) : Bool :=
  character.toNat < 0x20 || (0x7F ≤ character.toNat && character.toNat ≤ 0x9F)

namespace Settings

def validate (settings : Settings) : Except SettingsFault Unit :=
  if (Text.trim settings.solver.command.toList).isEmpty then .error .emptyCommand
  else if settings.solver.retryBudget = 0 then .error .noBudget
  else if settings.maxLength < 0 then .error (.negativeLength settings.maxLength)
  else if settings.format.beginMarker = settings.format.endMarker then .error .equalMarkers
  else if isControl settings.format.filler then .error .unprintableFiller
  else .ok ()

end Settings

end Concolic
