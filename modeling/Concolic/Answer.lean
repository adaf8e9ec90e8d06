import Concolic.Text.Blank
import Concolic.Text.Occurrence
import Concolic.VarMap

/-!
# Answers of the solver

The first line of an answer decides. After a line that starts with `sat`, every line of exactly five
words such as `x3 : INT = 7;` assigns a value; other lines are passed over. A first line that holds
`unsat` says that there are no values. A model is kept in the order in which it was printed.
-/

namespace Concolic

/-- The assignments that the solver printed, in order. -/
abbrev Model := List (Variable × Int64)

inductive Verdict where
  | sat (model : Model)
  | unsat
  deriving DecidableEq, Repr

/-- Why an answer cannot be understood. -/
inductive AnswerFault where
  /-- There is no first line. -/
  | silent
  /-- The first line is of neither kind. -/
  | unexpected (line : String)
  /-- An assigning line starts with something that is no variable. -/
  | badName (name line : String)
  /-- An assigning line ends with something that is no number. -/
  | badValue (value line : String)
  deriving DecidableEq, Repr

namespace AnswerFault

def badNameText (name : String) : String :=
  "not a solver variable name: '" ++ name ++ "'"

def message : AnswerFault → String
  | .silent => "solver produced no output"
  | .unexpected line => "unexpected solver answer: '" ++ line ++ "'"
  | .badName name line => badNameText name ++ " in '" ++ line ++ "'"
  | .badValue value line => "bad value '" ++ value ++ "' in '" ++ line ++ "'"

end AnswerFault

namespace Verdict

/-- Reads one line of a model; a line that assigns nothing gives none. -/
def readLine (line : String) : Except AnswerFault (Option (Variable × Int64)) :=
  match Text.words line.toList with
  | [name, _, _, _, last] =>
      match Variable.ofNameChars? name with
      | none => .error (.badName (String.ofList name) line)
      | some var =>
          let digits := last.takeWhile (· != ';')
          match Numeral.int64? digits with
          | none => .error (.badValue (String.ofList digits) line)
          | some value => .ok (some (var, value))
  | _ => .ok none

/-- Reads the lines of a model; the first faulty line spoils it. -/
def readModel : List String → Except AnswerFault Model
  | [] => .ok []
  | line :: rest =>
      match readLine line with
      | .error fault => .error fault
      | .ok entry => (readModel rest).map (entry.toList ++ ·)

def read : List String → Except AnswerFault Verdict
  | [] => .error .silent
  | first :: rest =>
      if "sat".toList.isPrefixOf first.toList then (readModel rest).map .sat
      else if Text.occursIn "unsat".toList first.toList then .ok .unsat
      else .error (.unexpected first)

end Verdict

namespace Model

/-- The assignment of a model, laid over an assignment. A later line replaces an earlier one. -/
def onto (model : Model) (base : Assignment) : Assignment :=
  model.foldl (fun assignment entry => assignment.insert entry.1 entry.2) base

def equation (entry : Variable × Int64) : String :=
  "(" ++ entry.1.name ++ " = " ++ Numeral.text entry.2.toInt ++ " )"

/-- The clause that excludes exactly this model; an empty model cannot be excluded. -/
def exclusion? (model : Model) : Option String :=
  if model.isEmpty then none
  else some ("(NOT (" ++ String.intercalate " AND " (model.map equation) ++ "))")

end Model

end Concolic
