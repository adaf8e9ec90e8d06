import Concolic.Json.Parser
import Concolic.Settings
import Concolic.Stored.Input

/-!
# Stored form of settings

Settings are an object whose fields may all be left out; the fields of the input format stand among
them. Because those are collected before they are looked at, every field that is not one of the
other settings must be readable.
-/

namespace Concolic

open Json (Reading)

namespace TimeoutPolicy

def toJson : TimeoutPolicy → Json
  | .skipBranch => .string "skip_branch"
  | .abort => .string "abort"

def ofJson? (reading : Reading) (value : Json) : Option TimeoutPolicy := do
  let (name, content) ← Json.variant? value
  guard (Json.isBare reading content)
  match name with
  | "skip_branch" => some .skipBranch
  | "abort" => some .abort
  | _ => none

end TimeoutPolicy

namespace SolverSettings

def toJson (settings : SolverSettings) : Json :=
  .object [("command", .string settings.command), ("args", .strings settings.arguments),
    ("formula_file", .string settings.formulaFile), ("timeout_ms", .nat settings.timeoutMs),
    ("retry_budget", .nat settings.retryBudget),
    ("timeout_policy", settings.timeoutPolicy.toJson)]

def ofJson? (reading : Reading) (value : Json) : Option SolverSettings := do
  let default : SolverSettings := {}
  match ← Json.fields?
      ["command", "args", "formula_file", "timeout_ms", "retry_budget", "timeout_policy"] value with
  | [command, arguments, formulaFile, timeoutMs, retryBudget, timeoutPolicy] =>
      return {
        command := ← Json.default? default.command Json.string? command
        arguments := ← Json.default? default.arguments (Json.list? Json.string?) arguments
        formulaFile := ← Json.default? default.formulaFile Json.string? formulaFile
        timeoutMs := ← Json.default? default.timeoutMs Json.nat? timeoutMs
        retryBudget := ← Json.default? default.retryBudget
          (fun value => (Json.uint32? value).map UInt32.toNat) retryBudget
        timeoutPolicy := ← Json.default? default.timeoutPolicy (TimeoutPolicy.ofJson? reading)
          timeoutPolicy }
  | _ => none

end SolverSettings

namespace Limits

def toJson (limits : Limits) : Json :=
  .object [("max_iterations", .nat limits.maxIterations),
    ("max_wall_secs", .nat limits.maxWallSecs)]

def ofJson? (value : Json) : Option Limits := do
  let default : Limits := {}
  match ← Json.fields? ["max_iterations", "max_wall_secs"] value with
  | [maxIterations, maxWallSecs] =>
      return { maxIterations := ← Json.default? default.maxIterations Json.nat? maxIterations
               maxWallSecs := ← Json.default? default.maxWallSecs Json.nat? maxWallSecs }
  | _ => none

end Limits

namespace Settings

/-- The fields that do not belong to the input format. -/
def fieldNames : List String :=
  ["solver", "inputs_file", "history_file", "report_file", "max_string_length", "limits"]

def toJson (settings : Settings) : Json :=
  .object ([("solver", settings.solver.toJson), ("inputs_file", .string settings.inputsFile),
      ("history_file", .string settings.pathFile),
      ("report_file", .optional .string settings.reportFile),
      ("max_string_length", .int settings.maxLength.toInt)]
    ++ settings.format.fieldsToJson ++ [("limits", settings.limits.toJson)])

def ofJson? (reading : Reading) : Json → Option Settings
  | .object members => do
      guard (Json.haveReadable (members.filter fun (name, _) => !fieldNames.contains name))
      let default : Settings := {}
      let format ← InputFormat.ofJson? (.object members)
      match ← Json.fields? fieldNames (.object members) with
      | [solver, inputsFile, pathFile, reportFile, maxLength, limits] =>
          return {
            solver := ← Json.default? default.solver (SolverSettings.ofJson? reading) solver
            inputsFile := ← Json.default? default.inputsFile Json.string? inputsFile
            pathFile := ← Json.default? default.pathFile Json.string? pathFile
            reportFile := ← Json.default? default.reportFile (Json.nullable? Json.string?)
              reportFile
            maxLength := ← Json.default? default.maxLength Json.int64? maxLength
            format
            limits := ← Json.default? default.limits Limits.ofJson? limits }
      | _ => none
  | _ => none

def ofText? (text : String) : Option Settings :=
  (Json.parse? text).bind (ofJson? .text)

end Settings

end Concolic
